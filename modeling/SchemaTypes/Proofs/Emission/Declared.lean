import SchemaTypes.Proofs.Emission.Dangling
import SchemaTypes.Proofs.Emission.ScalarTable
import SchemaTypes.Proofs.Render.Leaf

namespace SchemaTypes

/-- The kind of the declaration of a type. All scalars share one. -/
def Kind.declarationKind : Kind → DeclarationKind
  | scalar => .scalars
  | enum => .enum
  | object => .object
  | interface => .interface
  | union => .union
  | inputObject => .inputObject

/-- The name is of a type that has exactly one declaration of its kind. -/
def Emission.DeclaresType (e : Emission) (schema : Schema) (name : Text) : Prop :=
  ∃ t, schema.find? name = some t ∧
    e.declarations.countP (fun d => d.name = name ∧ d.kind = t.kind.declarationKind) = 1

/-- What a leaf refers to is declared exactly once. A scalar is one of the entries that the one
table of scalars is made of; if names and types are plain, the table has a single line that begins
with its name. -/
def Leaf.Declared (schema : Schema) (s : Settings) (e : Emission) : Leaf → Prop
  | scalar name =>
    ∃ d entries, e.declarations.filter (·.kind = .scalars) = [d] ∧ d.name = "Scalars" ∧
      d.body = s.scalarTable entries ∧ (entries.map (·.1)).count name = 1 ∧
      (schema.PlainScalars s → Text.linesWith ("  " ++ name ++ ": ") d.body =
        ["  " ++ name ++ ": " ++ scalarType s name ++ ";"])
  | enum name => e.DeclaresType schema name
  | type name => e.DeclaresType schema name
  | implementors names => ∀ name ∈ names, e.DeclaresType schema name

variable {schema : Schema} {s : Settings} {e : Emission} {ds : List Declaration}
  {t : TypeDefinition} {name path : Text} {leaf : Leaf}

theorem names_of_entries {k : Kind} (other : k ≠ .scalar) :
    ((t.entries s).filter (·.kind = k.declarationKind)).map (·.name) =
      if t.kind = k then [t.name] else [] := by
  have arguments : (t.argumentsEntries s).filter (·.kind = k.declarationKind) = [] := by
    rw [List.filter_eq_nil_iff]
    intro x mem
    obtain ⟨f, -, rfl⟩ := List.mem_map.1 mem
    cases k <;> simp [Kind.declarationKind]
  unfold TypeDefinition.entries
  cases k with
  | scalar => exact absurd rfl other
  | _ => cases t.kind <;> simp_all [Kind.declarationKind]

theorem permits_all : TypeFilter.all.permits = fun _ => true := by
  funext k
  cases k <;> rfl

theorem scalarTables_all (all : s.typeFilter = .all) :
    scalarTables schema s = [scalarsDeclaration schema s] := by
  rw [scalarTables, all, permits_all]
  rfl

theorem filter_typesInOrder (all : s.typeFilter = .all) (k : Kind) :
    (typesInOrder schema s).filter (·.kind = k) = schema.ofKind k := by
  have each (k' : Kind) : (schema.ofKind k').filter (·.kind = k) =
      if k' = k then schema.ofKind k else [] := by
    split
    · rename_i same
      subst same
      rw [List.filter_eq_self]
      intro t mem
      simpa using (Schema.mem_ofKind.1 mem).2
    · rename_i other
      rw [List.filter_eq_nil_iff]
      intro t mem
      rw [(Schema.mem_ofKind.1 mem).2]
      simpa using other
  unfold typesInOrder
  rw [List.filter_flatMap, all, permits_all, List.filter_true]
  simp only [each]
  cases k <;> simp [Kind.declarationOrder]

theorem names_of_inventory (all : s.typeFilter = .all) {k : Kind} (other : k ≠ .scalar) :
    ((inventory schema s).filter (·.kind = k.declarationKind)).map (·.name) =
      (schema.ofKind k).map (·.name) := by
  have table :
      ((scalarTables schema s).map (·.entry)).filter (·.kind = k.declarationKind) = [] := by
    rw [scalarTables_all all]
    cases k with
    | scalar => exact absurd rfl other
    | _ => rfl
  have types (ts : List TypeDefinition) :
      ((ts.flatMap (·.entries s)).filter (·.kind = k.declarationKind)).map (·.name) =
        (ts.filter (·.kind = k)).map (·.name) := by
    induction ts with
    | nil => rfl
    | cons t ts ih =>
      rw [List.flatMap_cons, List.filter_append, List.map_append, names_of_entries other, ih,
        List.filter_cons]
      by_cases same : t.kind = k <;> simp [same]
  rw [inventory_eq, List.filter_append, table, List.nil_append, types, filter_typesInOrder all]

theorem filter_others {k : DeclarationKind} (other : k ≠ .wrapperAlias) :
    e.others.filter (·.kind = k) = e.declarations.filter (·.kind = k) := by
  rw [Emission.others, List.filter_filter]
  apply List.filter_congr
  intro d _
  by_cases same : d.kind = k <;> simp [same, other]

/-- The names declared for a kind are those of its types, in order. -/
theorem names_of_kind (h : emit schema s = .ok e) (ok : e.isOk = true)
    (all : s.typeFilter = .all) {k : Kind} (other : k ≠ .scalar) :
    (e.declarations.filter (·.kind = k.declarationKind)).map (·.name) =
      (schema.ofKind k).map (·.name) := by
  obtain ⟨ds, made, -⟩ := emit_eq_ok h
  have noAlias : k.declarationKind ≠ .wrapperAlias := by cases k <;> simp [Kind.declarationKind]
  have entries : (ds.filter (·.kind = k.declarationKind)).map (·.name) =
      ((ds.map (·.entry)).filter (·.kind = k.declarationKind)).map (·.name) := by
    rw [List.filter_map, List.map_map]
    rfl
  rw [← filter_others noAlias, (isOk_iff_others h made).1 ok, entries,
    entries_of_typeDeclarations made, names_of_inventory all other]

theorem declaresType_of_find? (h : emit schema s = .ok e) (ok : e.isOk = true)
    (all : s.typeFilter = .all) (found : schema.find? name = some t) (other : t.kind ≠ .scalar) :
    e.DeclaresType schema name := by
  refine ⟨t, found, ?_⟩
  obtain ⟨mem, rfl⟩ := Schema.find?_eq_some_iff.1 found
  have listed : t.name ∈ (schema.ofKind t.kind).map (·.name) :=
    List.mem_map_of_mem (Schema.mem_ofKind.2 ⟨mem, rfl⟩)
  have distinct : ((schema.ofKind t.kind).map (·.name)).Nodup :=
    ((schema.perm_ofKind t.kind).map _).nodup_iff.2 (schema.distinct_kind t.kind)
  have once := List.count_eq_one_of_mem distinct listed
  rw [← names_of_kind h ok all other, List.count_eq_countP, List.countP_map,
    List.countP_filter] at once
  rw [← once]
  apply List.countP_congr
  intro d _
  simp

theorem scalars_of_emit (h : emit schema s = .ok e) (ok : e.isOk = true)
    (all : s.typeFilter = .all) :
    e.declarations.filter (·.kind = .scalars) = [scalarsDeclaration schema s] := by
  obtain ⟨ds, made, -⟩ := emit_eq_ok h
  have same := (isOk_iff_others h made).1 ok
  rw [typeDeclarations_eq] at made
  obtain ⟨lists, types, rfl⟩ := map_eq_ok.1 made
  have none : lists.flatten.filter (·.kind = .scalars) = [] := by
    rw [List.filter_eq_nil_iff]
    intro d mem
    simpa using kind_ne_scalars types d mem
  rw [← filter_others (by decide), same, List.filter_append, none, scalarTables_all all]
  rfl

theorem declared_of_leaf? (h : emit schema s = .ok e) (ok : e.isOk = true)
    (all : s.typeFilter = .all) (stands : schema.leaf? s name = some leaf) :
    leaf.Declared schema s e := by
  obtain ⟨rfl, scalar⟩ | ⟨own, t, found, other⟩ | ⟨-, rfl⟩ := leaf?_cases stands
  · have listed : name ∈ (scalarEntries schema).map (·.1) := mem_scalarNames scalar
    have body := body_scalarsDeclaration schema s
    refine ⟨scalarsDeclaration schema s, scalarEntries schema, scalars_of_emit h ok all, rfl, body,
      List.count_eq_one_of_mem nodup_scalarNames listed, fun plain => ?_⟩
    rw [body, plain.linesWith_name listed]
  · have declared : e.DeclaresType schema name := declaresType_of_find? h ok all found other
    rcases own with rfl | rfl
    · exact declared
    · exact declared
  · intro implementor mem
    obtain ⟨u, implements, rfl⟩ := List.mem_map.1 mem
    obtain ⟨⟨inside, object⟩, -⟩ := Schema.mem_implementationsOf.1 implements
    have found := Schema.find?_eq_some_iff.2 ⟨inside, rfl⟩
    exact declaresType_of_find? h ok all found (by simp [object])

theorem exists_leaf? (leads : (Occurrence.type name path).dangles schema = false) :
    ∃ leaf, schema.leaf? s name = some leaf := by
  cases stands : schema.leaf? s name with
  | some leaf => exact ⟨leaf, rfl⟩
  | none =>
    have text : leafText schema s name path = .error ⟨name, path⟩ := by rw [leafText_eq, stands]
    have first := error?_leafText schema s name path
    rw [firstDangling_singleton, leads, text] at first
    cases first

/-- **Whatever the type of a field refers to is declared.** If all types are let through and there
are no errors, the name at the inside of the type of every field and every argument stands for
something; its text is the text of that; and what it refers to is declared exactly once: an entry in
the one table of scalars, or the declaration of the type under its name and kind, where object types
may stand for the interface that they implement. -/
theorem emit_declares_leaves (all : s.typeFilter = .all) (h : emit schema s = .ok e)
    (ok : e.isOk = true) :
    ∀ t ∈ schema.types, ∀ name path, .type name path ∈ t.occurrences →
      ∃ leaf, schema.leaf? s name = some leaf ∧
        leafText schema s name path = .ok (leaf.text s) ∧ leaf.Declared schema s e := by
  intro t mem name path inside
  obtain ⟨leaf, stands⟩ := exists_leaf? (dangles_of_emit h all mem inside)
  refine ⟨leaf, stands, ?_, declared_of_leaf? h ok all stands⟩
  rw [leafText_eq, stands]

namespace Sample

/-- Settings that put implementing types in place of interfaces. -/
def implementing : Settings := { useImplementingTypes := true }

theorem isSome_emit_implementing : (emit Sample.schema implementing).toOption.isSome := by
  decide +kernel

def implementingEmission : Emission :=
  (emit Sample.schema implementing).toOption.get isSome_emit_implementing

theorem plainScalars_implementing : Sample.schema.PlainScalars implementing where
  names := by decide +kernel
  types := by simp [implementing]
  default := by decide

/-- With implementing types in place of interfaces, a node stands for the two types that implement
it. All that the sample refers to is declared, `DateTime` on one line of the table of scalars. -/
theorem declares_leaves :
    (Sample.schema.leaf? implementing "Node" = some (.implementors ["Post", "User"]) ∧
    ∀ t ∈ Sample.schema.types, ∀ name path, .type name path ∈ t.occurrences →
      ∃ leaf, Sample.schema.leaf? implementing name = some leaf ∧
        leafText Sample.schema implementing name path = .ok (leaf.text implementing) ∧
        leaf.Declared Sample.schema implementing implementingEmission) ∧
    ∃ d, implementingEmission.declarations.filter (·.kind = .scalars) = [d] ∧
      Text.linesWith "  DateTime: " d.body = ["  DateTime: any;"] := by
  have declared := emit_declares_leaves rfl (ok_get isSome_emit_implementing) (by decide +kernel)
  refine ⟨⟨by decide +kernel, declared⟩, ?_⟩
  have occurs : ∃ t ∈ Sample.schema.types,
      Occurrence.type "DateTime" "User.createdAt" ∈ t.occurrences := by decide +kernel
  obtain ⟨t, mem, inside⟩ := occurs
  obtain ⟨leaf, stands, -, holds⟩ := declared t mem _ _ inside
  have scalar : Sample.schema.leaf? implementing "DateTime" = some (.scalar "DateTime") := by
    decide +kernel
  obtain rfl : leaf = .scalar "DateTime" := Option.some.inj (stands.symm.trans scalar)
  obtain ⟨d, entries, only, -, -, -, line⟩ := holds
  exact ⟨d, only, line plainScalars_implementing⟩

end Sample

end SchemaTypes
