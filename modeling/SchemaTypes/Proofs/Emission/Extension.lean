import SchemaTypes.Proofs.Emission.Kept
import SchemaTypes.Proofs.Emission.ScalarTable

/-!
# One more type

A type that is added to a schema leaves the declarations of the other types alone, unless it is an
object that implements one of their interfaces.
-/

namespace SchemaTypes

/-- A type is added to a schema that has no name of a built-in scalar and implements no interface
of the schema. -/
structure Schema.Adds (schema : Schema) (t : TypeDefinition) (next : Schema) : Prop where
  added : schema.add t = .ok next
  notBuiltIn : t.name ∉ Schema.builtInScalars
  implementsNone : t.kind = .object →
    ∀ u ∈ schema.types, u.kind = .interface → u.name ∉ t.interfaces

variable {schema next : Schema} {t u : TypeDefinition} {s : Settings} {ds : List Declaration}
  {name : Text}

theorem implementationsOf_of_adds (h : schema.Adds t next) (found : schema.find? name = some u)
    (kind : u.kind = .interface) :
    next.implementationsOf name = schema.implementationsOf name := by
  obtain ⟨mem, rfl⟩ := Schema.find?_eq_some_iff.1 found
  obtain ⟨before, after, eq, eq'⟩ := Schema.ofKind_of_add h.added .object
  unfold Schema.implementationsOf
  rw [eq, eq', List.filter_append, List.filter_append, List.filter_append]
  split
  · rename_i object
    have none : [t].filter (u.name ∈ ·.interfaces) = [] := by
      simpa using h.implementsNone object u mem kind
    rw [none, List.append_nil]
  · rw [List.filter_nil, List.append_nil]

theorem leafText_of_adds (h : schema.Adds t next) (name referencedFrom : Text) :
    (ResultRelation.within _).Rel (leafText schema s name referencedFrom)
      (leafText next s name referencedFrom) := by
  intro text made
  unfold leafText at made ⊢
  by_cases same : name = t.name
  · rw [same, Schema.find?_fresh h.added] at made
    rw [if_neg (same ▸ h.notBuiltIn)] at made
    cases made
  · rw [Schema.find?_of_add h.added same]
    cases found : schema.find? name with
    | none => rwa [found] at made
    | some u =>
      rw [found] at made
      dsimp only at made ⊢
      cases kind : u.kind
      case interface =>
        rw [kind] at made
        rw [← made, interfaceText, implementationsOf_of_adds h found kind]
        rfl
      all_goals rwa [kind] at made

theorem unionDeclaration_of_adds (h : schema.Adds t next) :
    (ResultRelation.within _).Rel (unionDeclaration schema s u) (unionDeclaration next s u) := by
  intro d made
  unfold unionDeclaration at made ⊢
  split at made
  · cases made
  · rename_i allFound
    have found : u.members.find? (fun m => (next.find? m).isNone) = none := by
      rw [List.find?_eq_none] at allFound ⊢
      intro m mem
      have there := allFound m mem
      by_cases same : m = t.name
      · rw [same, Schema.find?_fresh h.added] at there
        exact absurd rfl there
      · rwa [Schema.find?_of_add h.added same]
    rw [found]
    exact made

theorem declarationsOf_of_adds (h : schema.Adds t next) :
    (ResultRelation.within _).Rel (declarationsOf schema s u) (declarationsOf next s u) :=
  declarationsOf_rel (leafText_of_adds h) (unionDeclaration_of_adds h)

theorem flatMap_ofKind_of_add (added : schema.add t = .ok next) {ks : List Kind}
    (distinct : ks.Nodup) : ∃ before after, ks.flatMap schema.ofKind = before ++ after ∧
      ks.flatMap next.ofKind = before ++ (if t.kind ∈ ks then [t] else []) ++ after := by
  induction ks with
  | nil => exact ⟨[], [], rfl, rfl⟩
  | cons k ks ih =>
    obtain ⟨fresh, distinct⟩ := List.nodup_cons.1 distinct
    obtain ⟨before, after, eq, eq'⟩ := Schema.ofKind_of_add added k
    obtain ⟨before', after', rest, rest'⟩ := ih distinct
    rw [List.flatMap_cons, List.flatMap_cons, eq, eq', rest, rest']
    by_cases same : t.kind = k
    · subst same
      refine ⟨before, after ++ (before' ++ after'), by simp, ?_⟩
      simp [fresh]
    · refine ⟨before ++ after ++ before', after', by simp, ?_⟩
      simp [same]

/-- The new type is declared at one place among the others, if the filter lets it through. -/
theorem typesInOrder_of_adds (h : schema.Adds t next) (s : Settings) : ∃ before after,
    typesInOrder schema s = before ++ after ∧
    typesInOrder next s =
      before ++ (if s.typeFilter.permits t.kind then [t] else []) ++ after := by
  have distinct : (Kind.declarationOrder.filter s.typeFilter.permits).Nodup :=
    (by decide : Kind.declarationOrder.Nodup).filter _
  obtain ⟨before, after, eq, eq'⟩ := flatMap_ofKind_of_add h.added distinct
  have every (k : Kind) : k ∈ Kind.declarationOrder := by cases k <;> decide
  refine ⟨before, after, eq, eq'.trans ?_⟩
  simp [every]

theorem scalarEntries_of_adds (h : schema.Adds t next) : ∃ front back,
    scalarEntries schema = front ++ back ∧
    scalarEntries next =
      front ++ (if t.kind = .scalar then [(t.name, t.description)] else []) ++ back := by
  obtain ⟨before, after, eq, eq'⟩ := Schema.ofKind_of_add h.added .scalar
  have builtIn : Schema.builtInScalars.map
      (fun name => (name, ((next.find? name).map (·.description)).getD [])) =
      Schema.builtInScalars.map
        fun name => (name, ((schema.find? name).map (·.description)).getD []) := by
    refine List.map_congr_left fun name mem => ?_
    rw [Schema.find?_of_add h.added fun same => h.notBuiltIn (same ▸ mem)]
  unfold scalarEntries
  rw [builtIn, eq, eq']
  simp only [List.filter_append, List.map_append, ← List.append_assoc]
  refine ⟨_, _, rfl, ?_⟩
  congr 2
  split
  · simp [h.notBuiltIn]
  · rfl

/-! ## The growth of an emission -/

def tableOf (s : Settings) (entries : List (Text × Text)) : Declaration where
  name := "Scalars"
  kind := .scalars
  body := s.scalarTable entries
  wrappers := .empty

/-- The table of scalars with the given entries, if the filter lets scalars through. -/
def tablesOf (s : Settings) (entries : List (Text × Text)) : List Declaration :=
  if s.typeFilter.permits .scalar then [tableOf s entries] else []

/-- Declarations, and the same declarations in the same order with those of one more type at one
place among them. The table of scalars is the same too, unless the new type is a scalar; then it
has one more entry. -/
def GrowsBy (s : Settings) (t : TypeDefinition) (rejected : AliasSet)
    (old new : List Declaration) : Prop :=
  ∃ front back before own after,
    old = tablesOf s (front ++ back) ++ before ++ after ∧
    new =
      tablesOf s (front ++ (if t.kind = .scalar then [(t.name, t.description)] else []) ++ back) ++
        before ++ own ++ after ∧
    own.map (·.entry) =
      (if s.typeFilter.permits t.kind then t.entries s else []).filter (·.avoids rejected) ∧
    ∀ d ∈ before ++ own ++ after, d.kind ≠ .scalars

theorem scalarTables_eq_tablesOf (schema : Schema) (s : Settings) :
    scalarTables schema s = tablesOf s (scalarEntries schema) := by
  have table : scalarsDeclaration schema s = tableOf s (scalarEntries schema) := by
    rw [tableOf, ← body_scalarsDeclaration]
    rfl
  rw [scalarTables, table]
  rfl

/-- The table of scalars leans on no alias, so it is always kept. -/
theorem filter_tablesOf (entries : List (Text × Text)) (aliases : AliasSet) :
    (tablesOf s entries).filter (·.avoids aliases) = tablesOf s entries := by
  rw [List.filter_eq_self]
  intro d mem
  unfold tablesOf at mem
  split at mem
  · rw [List.mem_singleton.1 mem]
    rfl
  · cases mem

/-- The declarations of the new type come at one place among those of the others. -/
theorem declarations_of_adds (h : schema.Adds t next) {lists lists' : List (List Declaration)}
    (made : (typesInOrder schema s).mapM (declarationsOf schema s) = .ok lists)
    (made' : (typesInOrder next s).mapM (declarationsOf next s) = .ok lists') :
    ∃ before own after, lists.flatten = before ++ after ∧
      lists'.flatten = before ++ own ++ after ∧
      own.map (·.entry) = if s.typeFilter.permits t.kind then t.entries s else [] := by
  -- What the other types declare is the same in both runs.
  have stays {us : List TypeDefinition} {ls ls' : List (List Declaration)}
      (first : us.mapM (declarationsOf schema s) = .ok ls)
      (second : us.mapM (declarationsOf next s) = .ok ls') : ls = ls' :=
    Except.ok.inj ((ResultRelation.rel_mapM (R := .within _)
      (fun _ _ => declarationsOf_of_adds h) ls first).symm.trans second)
  obtain ⟨before, after, types, types'⟩ := typesInOrder_of_adds h s
  rw [types, mapM_append_eq_ok] at made
  rw [types', mapM_append_eq_ok] at made'
  obtain ⟨bs, as, early, late, rfl⟩ := made
  obtain ⟨bms, as', made', late', rfl⟩ := made'
  obtain ⟨bs', ms, early', new, rfl⟩ := mapM_append_eq_ok.1 made'
  obtain rfl := stays early early'
  obtain rfl := stays late late'
  refine ⟨bs.flatten, ms.flatten, as.flatten, List.flatten_append, ?_, ?_⟩
  · rw [List.flatten_append, List.flatten_append]
  · rw [List.map_flatten, map_of_mapM (fun _ _ made => entries_of_declarationsOf made) new]
    split <;> simp

/-- **An emission grows by the declarations of a new type.** If a type is added that has no name of
a built-in scalar and implements no interface of the schema, the declarations of an emission stay as
they were, also where some aliases are rejected. -/
theorem emit_of_adds {e e' : Emission} (h : schema.Adds t next) (emitted : emit schema s = .ok e)
    (emitted' : emit next s = .ok e') :
    GrowsBy s t (rejectedAliases next s) e.others e'.others := by
  obtain ⟨ds, made, -⟩ := emit_eq_ok emitted
  obtain ⟨ds', made', -⟩ := emit_eq_ok emitted'
  obtain ⟨lists, all, eq⟩ := map_eq_ok.1 ((typeDeclarations_eq schema s).symm.trans made)
  obtain ⟨lists', all', eq'⟩ := map_eq_ok.1 ((typeDeclarations_eq next s).symm.trans made')
  rw [scalarTables_eq_tablesOf] at eq eq'
  obtain ⟨front, back, entries, entries'⟩ := scalarEntries_of_adds h
  obtain ⟨before, own, after, old, new, owned⟩ := declarations_of_adds h all all'
  have others : ∀ d ∈ before ++ own ++ after, d.kind ≠ .scalars := new ▸ kind_ne_scalars all'
  rw [old] at eq
  rw [new] at eq'
  have kept : ∀ d ∈ before ++ after,
      d.avoids (rejectedAliases schema s) = d.avoids (rejectedAliases next s) := by
    intro d mem
    refine avoids_rejected_congr made made' (eq ▸ List.mem_append_right _ mem) ?_
    refine eq' ▸ List.mem_append_right _ ?_
    simp only [List.mem_append] at mem ⊢
    exact mem.imp_left .inl
  refine ⟨front, back, before.filter (·.avoids (rejectedAliases next s)),
    own.filter (·.avoids (rejectedAliases next s)),
    after.filter (·.avoids (rejectedAliases next s)), ?_, ?_, ?_, ?_⟩
  · rw [others_eq emitted made, ← eq, List.filter_append, List.filter_congr kept,
      List.filter_append, List.append_assoc, ← entries]
    exact congrArg (· ++ _) (filter_tablesOf _ _)
  · rw [others_eq emitted' made', ← eq', List.filter_append, List.filter_append,
      List.filter_append, List.append_assoc, List.append_assoc, List.append_assoc, ← entries']
    exact congrArg (· ++ _) (filter_tablesOf _ _)
  · rw [← owned, List.filter_map]
    rfl
  · intro d mem
    refine others d ?_
    simp only [List.mem_append, List.mem_filter] at mem ⊢
    exact mem.imp (Or.imp And.left And.left) And.left

namespace Sample

/-- A type with a field that may be null and one with an argument that may be null. -/
def comment : TypeDefinition where
  kind := .object
  name := "Comment"
  fields := [
    ⟨"author", .named "User" true, .output, [], none, []⟩,
    ⟨"replies", .named "Int" false, .output, [], none,
      [⟨"since", .named "DateTime" true, .argument, [], none, []⟩]⟩]

theorem isSome_add_comment : (Sample.schema.add comment).toOption.isSome := by decide +kernel

def commented : Schema := (Sample.schema.add comment).toOption.get isSome_add_comment

theorem isSome_emit_commented : (emit commented badSettings).toOption.isSome := by decide +kernel

/-- The emission of the sample with that type, where the alias of nullable arguments is rejected. -/
def commentedEmission : Emission := (emit commented badSettings).toOption.get isSome_emit_commented

/-- A scalar with a description. -/
def money : TypeDefinition where
  kind := .scalar
  name := "Money"
  description := "An exact amount"

theorem isSome_add_money : (Sample.schema.add money).toOption.isSome := by decide +kernel

def priced : Schema := (Sample.schema.add money).toOption.get isSome_add_money

theorem isSome_emit_priced : (emit priced badSettings).toOption.isSome := by decide +kernel

def pricedEmission : Emission := (emit priced badSettings).toOption.get isSome_emit_priced

/-- The new object type comes without the declaration of its arguments, and the others stay. The new
scalar comes as one more entry of the table, with its comment. -/
theorem growsBy_samples :
    GrowsBy badSettings comment (rejectedAliases commented badSettings) badEmission.others
      commentedEmission.others ∧
    commentedEmission.others.map (·.name) ≠ badEmission.others.map (·.name) ∧
    GrowsBy badSettings money (rejectedAliases priced badSettings) badEmission.others
      pricedEmission.others ∧
    ∃ x y : Text, (badEmission.others.head?).map (·.body) = some (x ++ y) ∧
      (pricedEmission.others.head?).map (·.body) =
        some (x ++ "  /** An exact amount */\n  Money: any;\n" ++ y) := by
  have adds : Sample.schema.Adds comment commented :=
    ⟨ok_get isSome_add_comment, by decide, by simp [comment]⟩
  have adds' : Sample.schema.Adds money priced :=
    ⟨ok_get isSome_add_money, by decide, by simp [money]⟩
  have grows : GrowsBy badSettings money (rejectedAliases priced badSettings) badEmission.others
      pricedEmission.others := emit_of_adds adds' emit_bad_eq (ok_get isSome_emit_priced)
  refine ⟨emit_of_adds adds emit_bad_eq (ok_get isSome_emit_commented), by decide +kernel, grows,
    ?_⟩
  obtain ⟨front, back, before, own, after, old, new, -, -⟩ := grows
  obtain ⟨x, y, table⟩ := exists_scalarTable_append badSettings front back
  have row : badSettings.scalarRow money.name money.description =
      "  /** An exact amount */\n  Money: any;\n" := by decide +kernel
  have none := table []
  have one := table [(money.name, money.description)]
  rw [List.flatMap_nil, List.append_nil, List.append_nil] at none
  rw [List.flatMap_singleton, row] at one
  refine ⟨x, y, ?_, ?_⟩
  · rw [old, ← none]
    rfl
  · rw [new, ← one]
    rfl

end Sample

end SchemaTypes
