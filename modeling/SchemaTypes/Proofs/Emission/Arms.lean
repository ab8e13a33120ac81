import SchemaTypes.Proofs.Emission.Naming

/-!
# The arms of unions

A union is written with the names of its members as they stand, and all that is asked of a member is
that the schema has a type of its name. The types of fields are not written so: a scalar is there an
entry of the table of scalars, since it has no declaration of its own.
-/

namespace SchemaTypes

variable {schema : Schema} {s : Settings} {e : Emission} {t : TypeDefinition} {d : Declaration}
  {name : Text}

theorem kind_of_union_entry {x : Entry} (mem : x ∈ t.entries s) (kind : x.kind = .union) :
    t.kind = .union := by
  have named : x.name ∈
      ((t.entries s).filter (·.kind = Kind.union.declarationKind)).map (·.name) :=
    List.mem_map_of_mem (List.mem_filter.2 ⟨mem, decide_eq_true kind⟩)
  by_contra other
  rw [names_of_entries (by decide), if_neg other] at named
  cases named

theorem unionDeclaration_of_mem (h : emit schema s = .ok e) (mem : d ∈ e.declarations)
    (kind : d.kind = .union) :
    ∃ t ∈ schema.types, t.kind = .union ∧ unionDeclaration schema s t = .ok d := by
  obtain ⟨ds, made, -⟩ := emit_eq_ok h
  have other : d ∈ e.others := List.mem_filter.2 ⟨mem, by simp [kind]⟩
  rw [others_eq h made] at other
  have inside := (List.mem_filter.1 other).1
  rw [typeDeclarations_eq] at made
  obtain ⟨lists, types, rfl⟩ := map_eq_ok.1 made
  rcases List.mem_append.1 inside with table | listed
  · unfold scalarTables at table
    split at table
    · rw [List.mem_singleton.1 table] at kind
      cases kind
    · cases table
  · obtain ⟨own, mem', inOwn⟩ := List.mem_flatten.1 listed
    obtain ⟨t, ordered, declares⟩ := exists_of_mem_mapM types mem'
    have entry : d.entry ∈ t.entries s :=
      entries_of_declarationsOf declares ▸ List.mem_map_of_mem inOwn
    have union : t.kind = .union := kind_of_union_entry entry kind
    refine ⟨t, (mem_typesInOrder.1 ordered).1, union, ?_⟩
    unfold declarationsOf at declares
    rw [union] at declares
    obtain ⟨d', declares, rfl⟩ := map_eq_ok.1 declares
    rwa [List.mem_singleton.1 inOwn]

theorem mem_names_of_type_iff :
    name ∈ schema.names .type ↔ ∃ u, schema.find? name = some u ∧ u.kind ≠ .scalar := by
  simp only [Schema.names, TypeDefinition.names, List.mem_flatMap, Schema.find?_eq_some_iff]
  constructor
  · rintro ⟨u, mem, own⟩
    by_cases scalar : u.kind = .scalar
    · simp [scalar] at own
    · rw [if_neg scalar, List.mem_singleton] at own
      exact ⟨u, ⟨mem, own.symm⟩, scalar⟩
  · rintro ⟨u, ⟨mem, rfl⟩, other⟩
    exact ⟨u, mem, by simp [other]⟩

/-- Where there are no errors, declared are the table of scalars, the types that are no scalars and
the arguments of fields. -/
theorem exists_declaration_iff (h : emit schema s = .ok e) (ok : e.isOk = true)
    (all : s.typeFilter = .all) : (∃ d ∈ e.others, d.name = name) ↔
      name = "Scalars" ∨ name ∈ schema.names .type ∨ name ∈ schema.names .field := by
  obtain ⟨ds, made, -⟩ := emit_eq_ok h
  have expected (source : NameSource) :
      name ∈ (ds.filter (·.kind.nameSource = source)).map (·.name) ↔
        name ∈ tableNames s source ∨ name ∈ schema.names source := by
    rw [names_of_typeDeclarations made, List.mem_append, (perm_names_of_types all source).mem_iff]
  have named : (∃ d ∈ ds, d.name = name) ↔
      ∃ source, name ∈ tableNames s source ∨ name ∈ schema.names source := by
    simp only [← expected, List.mem_map, List.mem_filter, decide_eq_true_iff]
    constructor
    · rintro ⟨d, mem, same⟩
      exact ⟨d.kind.nameSource, d, ⟨mem, rfl⟩, same⟩
    · rintro ⟨-, d, ⟨mem, -⟩, same⟩
      exact ⟨d, mem, same⟩
  have table : name ∈ tableNames s .fixed ↔ name = "Scalars" := by
    rw [tableNames, all, permits_all]
    exact List.mem_singleton
  have none : name ∉ schema.names .fixed := by simp [Schema.names, TypeDefinition.names]
  rw [(isOk_iff_others h made).1 ok, named, ← table]
  constructor
  · rintro ⟨source, fixed | given⟩
    · cases source
      · exact .inl fixed
      all_goals cases fixed
    · cases source
      · exact absurd given none
      · exact .inr (.inl given)
      · exact .inr (.inr given)
  · rintro (fixed | type | field)
    · exact ⟨.fixed, .inl fixed⟩
    · exact ⟨.type, .inr type⟩
    · exact ⟨.field, .inr field⟩

/-- **The members of unions are declared, but for scalars.** If all types are let through and there
are no errors, every declared union is that of a union type, written with the names of its members
as they stand; each of these is the name of a type of the schema; and a declaration has that name
exactly if the type is no scalar, or the scalar shares the name of the table of scalars or one made
for the arguments of a field. -/
theorem emit_declares_arms (all : s.typeFilter = .all) (h : emit schema s = .ok e)
    (ok : e.isOk = true) :
    ∀ d ∈ e.declarations, d.kind = .union →
      ∃ t ∈ schema.types, t.kind = .union ∧ unionDeclaration schema s t = .ok d ∧
        ∀ m ∈ t.members, ∃ u, schema.find? m = some u ∧
          (u.kind ≠ .scalar → e.DeclaresType schema m) ∧
          ((∃ d' ∈ e.others, d'.name = m) ↔
            u.kind ≠ .scalar ∨ m = "Scalars" ∨ m ∈ schema.names .field) := by
  intro d mem kind
  obtain ⟨t, inside, union, declares⟩ := unionDeclaration_of_mem h mem kind
  refine ⟨t, inside, union, declares, fun m member => ?_⟩
  have occurs : Occurrence.member m t.name ∈ t.occurrences := by
    unfold TypeDefinition.occurrences
    rw [union]
    exact List.mem_map_of_mem member
  have leads := dangles_of_emit h all inside occurs
  cases found : schema.find? m with
  | none =>
    rw [(dangles_member_iff t.name).2 found] at leads
    cases leads
  | some u =>
    have own : m ∈ schema.names .type ↔ u.kind ≠ .scalar := by
      simp [mem_names_of_type_iff, found]
    refine ⟨u, rfl, declaresType_of_find? h ok all found, ?_⟩
    rw [exists_declaration_iff h ok all, own]
    exact or_left_comm

/-- The members of the union of the sample are declared. -/
theorem Sample.declares_arms :
    (emission.declarations.filter (·.kind = .union)).map (·.body) =
      ["export type SearchResult = User | Post;"] ∧
    ∀ d ∈ emission.declarations, d.kind = .union →
      ∃ t ∈ Sample.schema.types, t.kind = .union ∧ unionDeclaration Sample.schema {} t = .ok d ∧
        ∀ m ∈ t.members, ∃ u, Sample.schema.find? m = some u ∧
          (u.kind ≠ .scalar → emission.DeclaresType Sample.schema m) ∧
          ((∃ d' ∈ emission.others, d'.name = m) ↔
            u.kind ≠ .scalar ∨ m = "Scalars" ∨ m ∈ Sample.schema.names .field) :=
  ⟨by decide +kernel, emit_declares_arms rfl emit_eq (by decide +kernel)⟩

namespace ScalarArm

/-- The steps that write a union of a scalar. -/
def steps : List Draft.Step := [
  .scalar "DateTime" "",
  .union "Moment" ["DateTime"] ""]

/-- The schema of the union. -/
def moments : Schema := (Draft.schema? steps).get (by decide +kernel)

theorem isSome_emit : (emit moments {}).toOption.isSome := by decide +kernel

/-- The one member of a union is a scalar, and no declaration has its name, without an error. -/
theorem arm_not_declared : ∃ e, emit moments {} = .ok e ∧ e.isOk = true ∧
    (e.declarations.filter (·.kind = .union)).map (·.body) =
      ["export type Moment = DateTime;"] ∧
    ∀ d ∈ e.declarations, d.name ≠ "DateTime" :=
  ⟨_, ok_get isSome_emit, by decide +kernel, by decide +kernel, by decide +kernel⟩

end ScalarArm

end SchemaTypes
