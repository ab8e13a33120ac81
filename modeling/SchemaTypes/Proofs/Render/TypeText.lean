import SchemaTypes.Proofs.Results
import SchemaTypes.Proofs.Render.Leaf
import SchemaTypes.Proofs.Schema.Notation
import SchemaTypes.Proofs.TypeExpr.Spelling
import SchemaTypes.Sample

namespace SchemaTypes

open TypeExpr

variable {schema : Schema} {s : Settings} {name path leaf : Text}

theorem isWord_of_isName (h : Notation.isName name = true) : isWord name = true := by
  cases name with
  | nil => cases h
  | cons b rest =>
    simp only [Notation.isName, Notation.startsName, Notation.continuesName, isWord, startsWord,
      continuesWord, Bool.and_eq_true, Bool.or_eq_true, List.all_eq_true] at h ⊢
    exact ⟨.inl h.1, fun c mem => (h.2 c mem).imp_left .inl⟩

theorem namesType_alias (a : Alias) : NamesType a.name := by
  cases a <;> exact ⟨by decide, by decide, by decide, by decide⟩

theorem continuesWord_fresh (members : List Text) :
    ∀ b ∈ Text.fresh Text.futureAddedValue members, continuesWord b = true := by
  have base : Text.futureAddedValue.all continuesWord = true := by decide
  refine Text.fresh_bytes (fun b digit => ?_) (List.all_eq_true.1 base) members
  simp [continuesWord, digit]

theorem spells_scalarText (plain : ∀ b ∈ name, continuesWord b = true) :
    ∃ ls, Spells .type (scalarText name) ls := by
  have table : NamesType "Scalars" := ⟨by decide, by decide, by decide, by decide⟩
  have text : scalarText name = "Scalars" ++ "['" ++ name ++ "']" := rfl
  rw [text]
  exact ⟨_, spells_type (spells_index table plain)⟩

theorem spells_catchAllArm (members : List Text) :
    ∃ ls, Spells .operand (Text.catchAllArm members) ls := by
  have nulFree : 0 ∉ Text.fresh Text.futureAddedValue members :=
    fun mem => absurd (continuesWord_fresh members 0 mem) (by decide)
  have opening : ("\x7b __typename?: " : Text) = "\x7b " ++ "__typename" ++ "?: " := rfl
  rw [Text.catchAllArm, opening]
  exact ⟨_, spells_object (by decide) nulFree⟩

theorem spells_unionText {arms : List Text} (nonempty : arms ≠ [])
    (each : ∀ arm ∈ arms, ∃ ls, Spells .operand arm ls) :
    ∃ ls, Spells .type (unionText arms) ls := by
  rw [unionText, if_neg nonempty]
  cases arms with
  | nil => exact absurd rfl nonempty
  | cons arm arms => exact spells_union each

theorem spells_enumText (named : NamesType name) : ∃ ls, Spells .type (enumText s name) ls := by
  unfold enumText
  split
  · have strings := spells_template (continuesWord_of_isWord named.word)
    have arms : ∀ arm ∈ [name, "`$\x7b" ++ name ++ "\x7d`"], ∃ ls, Spells .operand arm ls := by
      simpa using ⟨⟨_, spells_name named⟩, ⟨_, strings⟩⟩
    have text : name ++ " | `$\x7b" ++ name ++ "\x7d`" =
        Text.joined " | " [name, "`$\x7b" ++ name ++ "\x7d`"] := by
      have pieces : (" | `$\x7b" : Text) = " | " ++ "`$\x7b" := rfl
      simp [Text.joined_cons, pieces]
    rw [text]
    exact spells_union arms
  · exact ⟨_, spells_type (spells_name named)⟩

theorem spells_arms {members : List Text} (some : members ≠ [])
    (named : ∀ name ∈ members, NamesType name) :
    ∃ ls, Spells .type (unionText (s.arms members)) ls := by
  have each : ∀ arm ∈ members, ∃ ls, Spells .operand arm ls := by
    intro arm mem
    exact ⟨_, spells_name (named arm mem)⟩
  unfold Settings.arms
  split
  · refine spells_unionText (by simp) (List.forall_mem_append.2 ⟨each, ?_⟩)
    intro arm mem
    rw [List.mem_singleton.1 mem]
    exact spells_catchAllArm members
  · exact spells_unionText some each

/-- Whatever a name stands for has a type expression as its text. -/
theorem spells_leaf {leaf : Leaf} (named : ∀ t ∈ schema.types, NamesType t.name)
    (stands : schema.leaf? s name = some leaf) : ∃ ls, Spells .type (leaf.text s) ls := by
  have own {t : TypeDefinition} (found : schema.find? name = some t) : NamesType name := by
    obtain ⟨mem, rfl⟩ := Schema.find?_eq_some_iff.1 found
    exact named t mem
  obtain ⟨rfl, builtIn | ⟨t, found, -⟩⟩ | ⟨rfl | rfl, t, found, -⟩ | ⟨some, rfl⟩ :=
    leaf?_cases stands
  · have words : Schema.builtInScalars.all isWord = true := by decide
    have word : isWord name = true := List.all_eq_true.1 words name builtIn
    exact spells_scalarText (continuesWord_of_isWord word)
  · exact spells_scalarText (continuesWord_of_isWord (own found).word)
  · exact spells_enumText (own found)
  · exact ⟨_, spells_type (spells_name (own found))⟩
  · rw [Leaf.text_implementors some]
    refine spells_arms some fun implementor mem => ?_
    obtain ⟨t, implements, rfl⟩ := List.mem_map.1 mem
    exact named t (Schema.mem_implementationsOf.1 implements).1.1

theorem spells_leafText (named : ∀ t ∈ schema.types, NamesType t.name)
    (h : leafText schema s name path = .ok leaf) : ∃ ls, Spells .type leaf ls := by
  rw [leafText_eq] at h
  cases stands : schema.leaf? s name with
  | none =>
    rw [stands] at h
    cases h
  | some l =>
    rw [stands] at h
    cases h
    exact spells_leaf named stands

theorem spells_wrappedIf {r : Rendered} (condition : Bool) (a : Alias)
    (h : ∃ ls, Spells .type r.text ls) :
    ∃ ls, Spells .type (r.wrappedIf condition a).text ls := by
  obtain ⟨ls, inner⟩ := h
  cases condition with
  | false => exact ⟨ls, inner⟩
  | true => exact ⟨_, spells_type (spells_argument (namesType_alias a) inner)⟩

theorem spells_array {r : Rendered} (immutable : Bool) (h : ∃ ls, Spells .type r.text ls) :
    ∃ ls, Spells .type (r.array immutable).text ls := by
  obtain ⟨ls, inner⟩ := h
  cases immutable with
  | false =>
    have array : NamesType "Array" := ⟨by decide, by decide, by decide, by decide⟩
    exact ⟨_, spells_type (spells_argument array inner)⟩
  | true =>
    have array : NamesType "ReadonlyArray" := ⟨by decide, by decide, by decide, by decide⟩
    exact ⟨_, spells_type (spells_argument array inner)⟩

theorem spells_levelsText (p : Position) (h : ∃ ls, Spells .type leaf ls) (ref : TypeRef) :
    ∃ ls, Spells .type (levelsText s p leaf ref).text ls := by
  induction ref with
  | named name nullable =>
    exact spells_wrappedIf nullable p.nullableAlias (spells_wrappedIf _ .fieldWrapper h)
  | list inner nullable ih =>
    exact spells_wrappedIf nullable p.nullableAlias (spells_array s.immutableTypes ih)

/-- **The texts of types have no problems.** If each type of the schema has a name of letters,
digits and `_` that does not start with a digit, is not reserved and is neither `new` nor `typeof`,
then whatever is written for a reference, at any position and under any settings, is a type
expression. -/
theorem problem?_typeText {p : Position} {ref : TypeRef} {rendered : Rendered}
    (named : ∀ t ∈ schema.types, Notation.isName t.name = true ∧ t.name ∉ reserved ∧
      t.name ≠ "new" ∧ t.name ≠ "typeof")
    (h : typeText schema s p ref path = .ok rendered) : problem? rendered.text = none := by
  have names : ∀ t ∈ schema.types, NamesType t.name := by
    intro t mem
    obtain ⟨name, unreserved, notNew, notTypeof⟩ := named t mem
    exact ⟨isWord_of_isName name, unreserved, notNew, notTypeof⟩
  obtain ⟨leaf, made, rfl⟩ := map_eq_ok.1 h
  have levels : ∃ ls, Spells .type (levelsText s p leaf ref).text ls :=
    spells_levelsText p (spells_leafText names made) ref
  obtain ⟨ls, spells⟩ :=
    spells_wrappedIf (p == .output && s.wrapEntireFieldDefinitions) .entireFieldWrapper levels
  exact problem?_of_spells spells

namespace Sample

/-- Settings that put all they can around and into a type. -/
def wrapping : Settings where
  immutableTypes := true
  useImplementingTypes := true
  futureProofUnions := true
  wrapFieldDefinitions := true
  wrapEntireFieldDefinitions := true

def nodes : TypeRef := .list (.named "Node" true) false

theorem isSome_typeText :
    (typeText Sample.schema wrapping .output nodes "Query.nodes").toOption.isSome := by
  decide +kernel

def nodesText : Rendered :=
  (typeText Sample.schema wrapping .output nodes "Query.nodes").toOption.get isSome_typeText

/-- A list of nodes has a union with a catch-all arm inside, and is a type expression too. -/
theorem problem?_nodesText :
    nodesText.text = "EntireFieldWrapper<ReadonlyArray<Maybe<FieldWrapper<" ++
        "Post | User | \x7b __typename?: 'FUTURE_ADDED_VALUE' \x7d>>>>" ∧
      problem? nodesText.text = none :=
  ⟨by decide +kernel, problem?_typeText (by decide +kernel) (ok_get isSome_typeText)⟩

end Sample

end SchemaTypes
