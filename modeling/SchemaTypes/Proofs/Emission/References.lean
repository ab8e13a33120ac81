import SchemaTypes.Proofs.Alias.Scanning
import SchemaTypes.Proofs.Emission.Closure
import SchemaTypes.Proofs.TypeExpr.Soundness

namespace SchemaTypes

open Relation TypeExpr

/-- Whatever alias the body of a declared alias refers to is itself declared earlier. -/
def Emission.Closed (e : Emission) (bodies : PerAlias Text) : Prop :=
  ∀ (i : Nat) (d : Declaration) (a b : Alias), e.declarations[i]? = some d →
    d.kind = .wrapperAlias → d.name = a.name → RefersTo (bodies.get a) b.name →
    ∃ j < i, ∃ c : Declaration,
      e.declarations[j]? = some c ∧ c.kind = .wrapperAlias ∧ c.name = b.name

/-- The registry of some bodies that nothing refers to. -/
abbrev PerAlias.registry (bodies : PerAlias Text) : Registry := { bodies, noExport := false }

/-- What the bodies of good aliases refer to can be reached in the graph of the aliases. -/
def PerAlias.Traced (bodies : PerAlias Text) : Prop :=
  ∀ a, ¬ bodies.registry.Bad a → ∀ b, RefersTo (bodies.get a) b.name →
    TransGen bodies.registry.Mentions a b

variable {schema : Schema} {s : Settings} {e : Emission}

theorem emission_closed (traced : s.bodies.Traced) (h : emit schema s = .ok e) :
    e.Closed s.bodies := by
  obtain ⟨as, others, shape, -⟩ := emit_shape h
  intro i d a b at_i kind name refers
  rcases shape.cases_at at_i with ⟨c, at_c, rfl⟩ | ⟨-, mem⟩
  · obtain rfl := Alias.name_injective name
    have way := traced c (shape.good c (List.mem_of_getElem? at_c)) b refers
    obtain ⟨j, before, at_j⟩ := shape.ordered.earlier_of_transGen at_c way
    exact ⟨j, before, _, shape.alias_at at_j, rfl, rfl⟩
  · exact absurd kind (shape.kinds d mem)

namespace Alias

/-- A type with one field, whose text needs an alias and no other under the settings for it. -/
def user (a : Alias) : TypeDefinition where
  kind := if a = .inputMaybe then .inputObject else .object
  name := "User"
  fields := [{
    name := "id"
    type := .named "ID" (a = .maybe || a = .inputMaybe)
    position := if a = .inputMaybe then .inputField else .output
    description := []
    default? := none
    arguments := [] }]

def userSchema (a : Alias) : Schema := ⟨[a.user], by simp [user]; decide, by simp⟩

def userSettings (a : Alias) (bodies : PerAlias Text) : Settings where
  bodies := bodies
  wrapFieldDefinitions := a = .fieldWrapper
  wrapEntireFieldDefinitions := a = .entireFieldWrapper

theorem wrappers_user (a : Alias) (bodies : PerAlias Text) :
    (typeDeclarations a.userSchema (a.userSettings bodies)).map
      (fun ds => ds.map (·.wrappers)) = .ok [.empty, AliasSet.empty.insert a] := by
  cases a <;> rfl

/-- Every good alias is needed in some emission, which needs only what can be reached from it. -/
theorem exists_emission {a : Alias} {bodies : PerAlias Text} (good : ¬ bodies.registry.Bad a) :
    ∃ e as others, emit a.userSchema (a.userSettings bodies) = .ok e ∧ e.isOk = true ∧
      e.Shape (a.userSettings bodies).registry as others ∧ a ∈ as ∧
      ∀ b ∈ as, bodies.registry.Reaches a b := by
  obtain ⟨ds, made, wrappers⟩ := map_eq_ok.1 (wrappers_user a bodies)
  have used (b : Alias) : (∃ d ∈ ds, b ∈ d.wrappers) ↔ b = a := by
    have := congrArg (fun sets => ∃ t ∈ sets, b ∈ t) wrappers
    simpa using this
  obtain ⟨e, emitted⟩ : ∃ e, emit a.userSchema (a.userSettings bodies) = .ok e := by
    simp only [emit, made, Except.map]
    exact ⟨_, rfl⟩
  have ok : e.isOk = true := by
    refine (emit_isOk_iff emitted made).2 fun d mem b inside => ?_
    obtain rfl := (used b).1 ⟨d, mem, inside⟩
    exact good
  obtain ⟨as, others, shape, all⟩ := emit_shape emitted
  obtain rfl : ds = others := Except.ok.inj (made.symm.trans (all ok))
  obtain ⟨d, mem, inside⟩ := (used a).2 rfl
  refine ⟨e, as, ds, emitted, ok, shape, shape.used d mem a inside, fun b needed => ?_⟩
  obtain ⟨d, mem, c, inside, way⟩ := shape.needed ok b needed
  obtain rfl := (used c).1 ⟨d, mem, inside⟩
  exact way

end Alias

/-- If all emissions with some bodies are closed, what the bodies refer to can be reached. -/
theorem traced_of_closed {bodies : PerAlias Text}
    (closed : ∀ schema s e, s.bodies = bodies → emit schema s = .ok e → e.isOk = true →
      e.Closed bodies) : bodies.Traced := by
  intro a good b refers
  obtain ⟨e, as, others, emitted, ok, shape, mem, reached⟩ := Alias.exists_emission good
  obtain ⟨i, at_i⟩ := List.getElem?_of_mem mem
  obtain ⟨j, before, c, at_j, kind, name⟩ :=
    closed _ _ e rfl emitted ok i _ a b (shape.alias_at at_i) rfl rfl refers
  rcases shape.cases_at at_j with ⟨b', place, rfl⟩ | ⟨-, other⟩
  · obtain rfl := Alias.name_injective name
    have way := reached b' (List.mem_of_getElem? place)
    rcases reflTransGen_iff_eq_or_transGen.1 way with rfl | way
    · -- An alias stands at one place only, so that it is not declared before itself.
      have short : j < as.length := (List.getElem?_eq_some_iff.1 place).1
      have same := (List.getElem?_inj short shape.ordered.nodup).1 (place.trans at_i.symm)
      omega
    · exact way
  · exact absurd kind (shape.kinds c other)

theorem traced_of_noHoles {bodies : PerAlias Text}
    (plain : ∀ a ts, tokens (bodies.get a) = .ok ts → NoHoles (ts.map (·.lexeme))) :
    bodies.Traced := by
  intro a _ b refers
  obtain ⟨ts, read, -⟩ := id refers
  exact .single (mentionedIn_of_refersTo read (plain a ts read) refers)

/-- **When emissions are closed.** All emissions without errors that have some bodies declare every
alias before the aliases whose bodies refer to it exactly if what the body of a good alias refers
to can be reached from it in the graph of the aliases; and that is so if no template literal of a
body has an interpolation. -/
theorem emissions_closed_iff (bodies : PerAlias Text) :
    ((∀ schema s e, s.bodies = bodies → emit schema s = .ok e → e.isOk = true →
      e.Closed bodies) ↔ bodies.Traced) ∧
    ((∀ a ts, tokens (bodies.get a) = .ok ts → NoHoles (ts.map (·.lexeme))) → bodies.Traced) := by
  refine ⟨⟨traced_of_closed, ?_⟩, traced_of_noHoles⟩
  rintro traced schema s e rfl emitted -
  exact emission_closed traced emitted

theorem TypeExpr.Names.type_of_primary {name : Text} {a b : List Lexeme}
    (h : Names name (.form .primary) a b) (noConstructor : ¬ WordRule.constructorType.Broken a)
    (noOperand : ¬ WordRule.operand.Broken a) : Names name (.form .type) a b := by
  have indexed : Names name (.form .indexed) a b := .form (.first h .done)
  have operation : Names name (.form .operation) a b :=
    .form (.right (.right (.second (.rule fun _ => noOperand) indexed)))
  have intersection : Names name (.form .intersection) a b :=
    .form (.second (.right .empty) (.first operation (.seq .done .empty)))
  have union : Names name (.form .union) a b :=
    .form (.second (.right .empty) (.first intersection (.seq .done .empty)))
  exact .form (.right (.second (.rule fun _ => noConstructor)
    (.first union (.seq (.right .empty) .empty))))

namespace Interpolated

/-- Bodies one of which refers to another in an interpolation. -/
def bodies : PerAlias Text :=
  { PerAlias.ofFun Alias.defaultBody with
    maybe := "`$\x7bInputMaybe<T>\x7d`"
    inputMaybe := "string" }

/-- The text in the interpolation. -/
def hole : List Lexeme := [.word "InputMaybe", .mark .less, .word "T", .mark .greater]

theorem names_hole : Names Alias.inputMaybe.name (.form .type) hole [] := by
  have noQuery : ("InputMaybe" : Text) ≠ "typeof" := by decide
  have noConstructor : ("InputMaybe" : Text) ≠ "new" := by decide
  have reads : Reads True [.typeName, .qualifiers] hole [] :=
    meet_sound (eq_ok_of_toOption (by decide +kernel))
  have reference : Matches True (.form .reference) hole [] :=
    Matches.reference_iff.2 (.inr ⟨fun _ => noQuery, reads⟩)
  have names : Names Alias.inputMaybe.name (.form .reference) hole [] :=
    .here reference noQuery (by decide)
  refine .type_of_primary (.form ?_) noConstructor id
  exact .right (.right (.right (.right (.right (.right (.right names))))))

theorem refersTo : RefersTo (bodies.get .maybe) Alias.inputMaybe.name := by
  have read : tokens "InputMaybe<T>" = .ok [⟨.word "InputMaybe", 0⟩, ⟨.mark .less, 10⟩,
      ⟨.word "T", 11⟩, ⟨.mark .greater, 12⟩] := eq_ok_of_toOption (by decide +kernel)
  refine ⟨[⟨.template "`$\x7bInputMaybe<T>\x7d`", 0⟩], eq_ok_of_toOption (by decide +kernel), ?_⟩
  refine .type_of_primary (.form (.right (.right (.left ?_)))) id id
  exact .interpolated (by decide +kernel) read names_hole

theorem good : ¬ bodies.registry.Bad .maybe := by
  have dependencies : bodies.registry.dependencies .maybe = [] := by decide +kernel
  refine Registry.not_bad (not_not.2 (by decide +kernel)) fun d edge => ?_
  unfold Registry.Mentions at edge
  rw [dependencies] at edge
  cases edge

theorem not_traced : ¬ bodies.Traced := by
  intro traced
  obtain ⟨d, edge, -⟩ := TransGen.head'_iff.1 (traced .maybe good .inputMaybe refersTo)
  have dependencies : bodies.registry.dependencies .maybe = [] := by decide +kernel
  unfold Registry.Mentions at edge
  rw [dependencies] at edge
  cases edge

/-- Some emission without errors declares an alias that refers to another in an interpolation, and
not the other. -/
theorem exists_emission_not_closed : ∃ schema s e, s.bodies = bodies ∧
    emit schema s = .ok e ∧ e.isOk = true ∧ ¬ e.Closed bodies := by
  by_contra none
  refine not_traced (traced_of_closed fun schema s e same emitted ok => ?_)
  by_contra notClosed
  exact none ⟨schema, s, e, same, emitted, ok, notClosed⟩

end Interpolated

end SchemaTypes
