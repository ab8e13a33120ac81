import Mathlib.Data.List.Flatten
import Mathlib.Data.List.Perm.Subperm
import SchemaTypes.Proofs.Emission.Declared

/-!
# The names of declarations

The aliases and the table of scalars have fixed names, a type has its own, and the arguments of a
field have a name made of those of the type and the field. Nothing keeps names of one source apart
from those of another, nor the names made for two fields.
-/

namespace SchemaTypes

/-- Where the name of a declaration comes from. -/
inductive NameSource where
  | fixed
  | type
  | field
  deriving DecidableEq

/-- The source of the names of declarations of a kind. -/
def DeclarationKind.nameSource : DeclarationKind → NameSource
  | wrapperAlias => .fixed
  | scalars => .fixed
  | arguments => .field
  | enum => .type
  | inputObject => .type
  | object => .type
  | interface => .type
  | union => .type

/-- The names of the declarations whose names come from a source. -/
def Emission.names (e : Emission) (source : NameSource) : List Text :=
  (e.declarations.filter (·.kind.nameSource = source)).map (·.name)

namespace TypeDefinition

def argumentsNames (t : TypeDefinition) : List Text :=
  (t.fields.filter (!·.arguments.isEmpty)).map fun f => argumentsName t.name f.name

/-- The names for the declarations of a type that come from a source. -/
def names (t : TypeDefinition) : NameSource → List Text
  | .fixed => []
  | .type => if t.kind = .scalar then [] else [t.name]
  | .field =>
    match t.kind with
    | .object | .interface => t.argumentsNames
    | _ => []

end TypeDefinition

/-- The names for the declarations of a schema that come from a source. -/
def Schema.names (schema : Schema) (source : NameSource) : List Text :=
  schema.types.flatMap (·.names source)

/-- No type has a fixed name, and no two fields, nor a field and a type, give the same name. -/
structure NamesApart (fixed types fields : List Text) : Prop where
  noFixed : types.Disjoint fixed
  distinct : fields.Nodup
  noField : types.Disjoint fields

theorem NamesApart.mono {fixed types fields types' fields' : List Text}
    (h : NamesApart fixed types' fields') (typesAmong : types ⊆ types')
    (fieldsAmong : fields.Subperm fields') : NamesApart fixed types fields := by
  obtain ⟨kept, perm, sublist⟩ := fieldsAmong
  refine ⟨fun name mem => h.noFixed (typesAmong mem), ?_, fun name mem mem' => ?_⟩
  · exact perm.nodup_iff.1 (h.distinct.sublist sublist)
  · exact h.noField (typesAmong mem) (sublist.subset (perm.mem_iff.2 mem'))

variable {schema : Schema} {s : Settings} {e : Emission} {t : TypeDefinition} {name : Text}

theorem suffix_of_mem_names (mem : name ∈ t.names .field) : ("Args" : Text) <:+ name := by
  unfold TypeDefinition.names at mem
  cases kind : t.kind
  case object | interface =>
    rw [kind] at mem
    obtain ⟨f, -, rfl⟩ := List.mem_map.1 mem
    rw [← argumentsName_eq]
    exact List.suffix_append _ _
  all_goals
    rw [kind] at mem
    cases mem

theorem Schema.nodup_names (schema : Schema) : (schema.names .type).Nodup := by
  have own : schema.names .type = (schema.types.filter (·.kind ≠ .scalar)).map (·.name) := by
    unfold Schema.names
    induction schema.types with
    | nil => rfl
    | cons t ts ih =>
      rw [List.flatMap_cons, List.filter_cons, ih]
      unfold TypeDefinition.names
      by_cases scalar : t.kind = .scalar <;> simp [scalar]
  rw [own]
  exact schema.distinct.sublist (List.filter_sublist.map _)

theorem mem_typesInOrder : t ∈ typesInOrder schema s ↔
    t ∈ schema.types ∧ s.typeFilter.permits t.kind = true := by
  have every (k : Kind) : k ∈ Kind.declarationOrder := by cases k <;> decide
  unfold typesInOrder
  simp only [List.mem_flatMap, List.mem_filter, Schema.mem_ofKind]
  constructor
  · rintro ⟨k, ⟨-, permitted⟩, mem, rfl⟩
    exact ⟨mem, permitted⟩
  · rintro ⟨mem, permitted⟩
    exact ⟨t.kind, ⟨every _, permitted⟩, mem, rfl⟩

theorem nodup_typesInOrder (schema : Schema) (s : Settings) : (typesInOrder schema s).Nodup :=
  schema.nodup_flatMap_ofKind ((by decide : Kind.declarationOrder.Nodup).filter _)

/-- The names for types in the order of declarations are among all that come with the schema. -/
theorem subperm_names_of_types (source : NameSource) :
    ((typesInOrder schema s).flatMap (·.names source)).Subperm (schema.names source) := by
  have among : (typesInOrder schema s).Subperm schema.types :=
    List.subperm_of_subset (nodup_typesInOrder schema s) fun _ mem => (mem_typesInOrder.1 mem).1
  obtain ⟨types, perm, sublist⟩ := among
  exact ⟨_, perm.flatMap_right _, sublist.flatMap _⟩

theorem perm_names_of_types (all : s.typeFilter = .all) (source : NameSource) :
    ((typesInOrder schema s).flatMap (·.names source)).Perm (schema.names source) := by
  have order : (typesInOrder schema s).Perm schema.types := by
    refine (List.perm_ext_iff_of_nodup (nodup_typesInOrder schema s) schema.distinct.of_map).2 ?_
    intro t
    rw [mem_typesInOrder, all]
    exact and_iff_left rfl
  exact order.flatMap_right _

/-! ## The names of an emission -/

theorem names_of_argumentsEntries (s : Settings) (t : TypeDefinition) (source : NameSource) :
    ((t.argumentsEntries s).filter (·.kind.nameSource = source)).map (·.name) =
      if source = .field then t.argumentsNames else [] := by
  unfold TypeDefinition.argumentsEntries TypeDefinition.argumentsNames
  rw [List.filter_map, List.map_map]
  cases source <;> simp [Function.comp_def, DeclarationKind.nameSource]

theorem names_of_entries_of_source (s : Settings) (t : TypeDefinition) (source : NameSource) :
    ((t.entries s).filter (·.kind.nameSource = source)).map (·.name) = t.names source := by
  have arguments := names_of_argumentsEntries s t source
  unfold TypeDefinition.entries TypeDefinition.names
  cases t.kind
  case object | interface =>
    cases source <;> simpa [List.filter_cons, DeclarationKind.nameSource] using arguments
  all_goals
    cases source <;> simp [DeclarationKind.nameSource]

/-- The names of the tables of scalars, of which there is one at most. -/
def tableNames (s : Settings) : NameSource → List Text
  | .fixed => if s.typeFilter.permits .scalar then ["Scalars"] else []
  | .type => []
  | .field => []

theorem names_of_inventory_of_source (source : NameSource) :
    ((inventory schema s).filter (·.kind.nameSource = source)).map (·.name) =
      tableNames s source ++ (typesInOrder schema s).flatMap (·.names source) := by
  have table : (((scalarTables schema s).map (·.entry)).filter
      (·.kind.nameSource = source)).map (·.name) = tableNames s source := by
    unfold scalarTables tableNames
    cases source <;> split <;> rfl
  rw [inventory_eq, List.filter_append, List.map_append, table, List.filter_flatMap,
    List.map_flatMap]
  simp only [names_of_entries_of_source]

theorem names_of_typeDeclarations {ds : List Declaration} (h : typeDeclarations schema s = .ok ds)
    (source : NameSource) : (ds.filter (·.kind.nameSource = source)).map (·.name) =
      tableNames s source ++ (typesInOrder schema s).flatMap (·.names source) := by
  rw [← names_of_inventory_of_source, ← entries_of_typeDeclarations h, List.filter_map,
    List.map_map]
  rfl

theorem names_of_shape {r : Registry} {as : List Alias} {others : List Declaration}
    (h : e.Shape r as others) (source : NameSource) :
    e.names source = (if source = .fixed then as.map (·.name) else []) ++
      (e.others.filter (·.kind.nameSource = source)).map (·.name) := by
  have same : e.others = others := others_of_append h.declarations h.kinds
  have aliases : ((as.map r.declaration).filter (·.kind.nameSource = source)).map (·.name) =
      if source = .fixed then as.map (·.name) else [] := by
    rw [List.filter_map, List.map_map]
    cases source <;> simp [Function.comp_def, Registry.declaration, DeclarationKind.nameSource]
  rw [Emission.names, h.declarations, List.filter_append, List.map_append, aliases, same]

/-- The names that types and fields give to the declarations of an emission are among those that
come with its schema; without errors, if the filter lets all types through, they are all of them. -/
theorem names_among_schema (h : emit schema s = .ok e) (source : NameSource)
    (given : source ≠ .fixed) :
    (e.names source).Subperm (schema.names source) ∧
      (s.typeFilter = .all → e.isOk = true → (e.names source).Perm (schema.names source)) := by
  obtain ⟨as, others, shape, -⟩ := emit_shape h
  obtain ⟨ds, made, -⟩ := emit_eq_ok h
  have expected : (ds.filter (·.kind.nameSource = source)).map (·.name) =
      (typesInOrder schema s).flatMap (·.names source) := by
    rw [names_of_typeDeclarations made]
    cases source
    · exact absurd rfl given
    all_goals rfl
  rw [names_of_shape shape, if_neg given, List.nil_append]
  constructor
  · have among : e.others.Sublist ds := others_eq h made ▸ List.filter_sublist
    have kept := ((among.filter (·.kind.nameSource = source)).map (·.name)).subperm
    rw [expected] at kept
    exact kept.trans (subperm_names_of_types source)
  · intro all ok
    rw [(isOk_iff_others h made).1 ok, expected]
    exact perm_names_of_types all source

/-- The fixed names of an emission are those of its aliases, each once, and at most once that of the
table of scalars. -/
theorem fixed_names (h : emit schema s = .ok e) : ∃ (as : List Alias) (tables : List Text),
    as.Nodup ∧ tables.Sublist ["Scalars"] ∧ e.names .fixed = as.map (·.name) ++ tables := by
  obtain ⟨as, others, shape, -⟩ := emit_shape h
  obtain ⟨ds, made, -⟩ := emit_eq_ok h
  refine ⟨as, _, shape.ordered.nodup, ?_, names_of_shape shape .fixed⟩
  have among : e.others.Sublist ds := others_eq h made ▸ List.filter_sublist
  have kept := (among.filter (·.kind.nameSource = .fixed)).map (·.name)
  have none : (typesInOrder schema s).flatMap (·.names .fixed) = [] :=
    List.flatMap_eq_nil_iff.2 fun t _ => rfl
  rw [names_of_typeDeclarations made, none, List.append_nil] at kept
  refine kept.trans ?_
  unfold tableNames
  split <;> simp

theorem nodup_fixed_names (h : emit schema s = .ok e) :
    (e.names .fixed).Nodup ∧ (e.names .fixed).Disjoint (schema.names .field) := by
  obtain ⟨as, tables, distinct, among, fixed⟩ := fixed_names h
  have table (name : Text) (mem : name ∈ tables) : name = "Scalars" := by
    simpa using among.subset mem
  have apart (a : Alias) : a.name ≠ "Scalars" := by cases a <;> decide
  have noSuffix : ∀ name ∈ e.names .fixed, ¬ ("Args" : Text) <:+ name := by
    intro name mem
    rw [fixed, List.mem_append, List.mem_map] at mem
    rcases mem with ⟨a, -, rfl⟩ | mem
    · cases a <;> decide
    · rw [table name mem]
      decide
  constructor
  · rw [fixed, List.nodup_append']
    refine ⟨distinct.map Alias.name_injective, (List.nodup_singleton _).sublist among, ?_⟩
    intro name mem mem'
    obtain ⟨a, -, rfl⟩ := List.mem_map.1 mem
    exact apart a (table _ mem')
  · intro name mem mem'
    obtain ⟨t, -, inside⟩ := List.mem_flatMap.1 mem'
    exact noSuffix name mem (suffix_of_mem_names inside)

theorem perm_names (e : Emission) : (e.declarations.map (·.name)).Perm
    (e.names .fixed ++ (e.names .type ++ e.names .field)) := by
  have sorted (ds : List Declaration) : ds.Perm (ds.filter (·.kind.nameSource = .fixed) ++
      (ds.filter (·.kind.nameSource = .type) ++ ds.filter (·.kind.nameSource = .field))) := by
    induction ds with
    | nil => exact .nil
    | cons d ds ih =>
      cases source : d.kind.nameSource with
      | fixed => simpa [List.filter_cons, source] using ih.cons d
      | type =>
        simpa [List.filter_cons, source] using (ih.cons d).trans List.perm_middle.symm
      | field =>
        rw [← List.append_assoc] at ih ⊢
        simpa [List.filter_cons, source] using (ih.cons d).trans List.perm_middle.symm
  unfold Emission.names
  rw [← List.map_append, ← List.map_append]
  exact (sorted e.declarations).map _

/-- **Names are distinct exactly where they are kept apart.** No two declarations of an emission
have the same name exactly if no type has the name of one of the aliases or of the table of scalars,
and the names made for fields are distinct and no names of types. It is enough if that holds of all
names that come with the schema; and if all types are let through and there are no errors, it has to
hold of all of them. -/
theorem emit_names_distinct (h : emit schema s = .ok e) :
    ((e.declarations.map (·.name)).Nodup ↔
      NamesApart (e.names .fixed) (e.names .type) (e.names .field)) ∧
    (NamesApart (e.names .fixed) (schema.names .type) (schema.names .field) →
      (e.declarations.map (·.name)).Nodup) ∧
    (s.typeFilter = .all → e.isOk = true → (e.declarations.map (·.name)).Nodup →
      NamesApart (e.names .fixed) (schema.names .type) (schema.names .field)) := by
  obtain ⟨types, allTypes⟩ := names_among_schema h .type (by decide)
  obtain ⟨fields, allFields⟩ := names_among_schema h .field (by decide)
  have iff : (e.declarations.map (·.name)).Nodup ↔
      NamesApart (e.names .fixed) (e.names .type) (e.names .field) := by
    obtain ⟨fixed, apart⟩ := nodup_fixed_names h
    rw [(perm_names e).nodup_iff, List.nodup_append', List.nodup_append']
    constructor
    · rintro ⟨-, ⟨-, distinct, noField⟩, noFixed⟩
      exact ⟨fun name mem mem' => noFixed mem' (List.mem_append_left _ mem), distinct, noField⟩
    · intro h
      refine ⟨fixed, ⟨?_, h.distinct, h.noField⟩, fun name mem mem' => ?_⟩
      · obtain ⟨kept, perm, sublist⟩ := types
        exact perm.nodup_iff.1 (schema.nodup_names.sublist sublist)
      · rcases List.mem_append.1 mem' with type | field
        · exact h.noFixed type mem
        · exact apart mem (fields.subset field)
  refine ⟨iff, fun apart => iff.2 (apart.mono types.subset fields), fun all ok distinct => ?_⟩
  exact (iff.1 distinct).mono (allTypes all ok).symm.subset (allFields all ok).symm.subperm

/-- The names of the sample are kept apart, and that is why they are distinct. -/
theorem Sample.names_distinct :
    NamesApart (emission.names .fixed) (Sample.schema.names .type) (Sample.schema.names .field) ∧
      (emission.declarations.map (·.name)).Nodup := by
  have apart : NamesApart (emission.names .fixed) (Sample.schema.names .type)
      (Sample.schema.names .field) :=
    ⟨List.disjoint_left.2 (by decide +kernel), by decide +kernel,
      List.disjoint_left.2 (by decide +kernel)⟩
  exact ⟨apart, (emit_names_distinct emit_eq).2.1 apart⟩

/-- The schema that some steps write, if all of them fit. -/
def Draft.schema? (steps : List Draft.Step) : Option Schema :=
  (steps.foldlM Draft.apply {}).toOption.bind (·.build.toOption)

namespace RunTogether

/-- The steps that write two types with a field each. -/
def steps : List Draft.Step := [
  .object "User" [] "",
  .field "friendsList" "Int!" "",
  .argument "first" "Int!" none,
  .object "UserFriends" [] "",
  .field "list" "Int!" "",
  .argument "last" "Int!" none]

def users : Schema := (Draft.schema? steps).get (by decide +kernel)

theorem isSome_emit : (emit users {}).toOption.isSome := by decide +kernel

/-- Names run together: the arguments of a field of one type and those of a field of the other are
declared under one name, without an error. -/
theorem names_not_distinct : ∃ e, emit users {} = .ok e ∧ e.isOk = true ∧
    (e.declarations.filter (·.name = ("UserFriendsListArgs" : Text))).map (·.body) = [
      "export type UserFriendsListArgs = \x7b\n  first: Scalars['Int'];\n\x7d;",
      "export type UserFriendsListArgs = \x7b\n  last: Scalars['Int'];\n\x7d;"] ∧
    ¬ (e.declarations.map (·.name)).Nodup :=
  ⟨_, ok_get isSome_emit, by decide +kernel, by decide +kernel, by decide +kernel⟩

end RunTogether

end SchemaTypes
