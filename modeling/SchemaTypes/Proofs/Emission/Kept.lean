import SchemaTypes.Proofs.Emission.Closure

/-!
# What an emission leaves out

Apart from its aliases, an emission has the declarations of the schema less those that use a
rejected alias. The texts of the other declarations do not go by the bodies of the aliases.
-/

namespace SchemaTypes

/-- The declarations other than aliases. -/
def Emission.others (e : Emission) : List Declaration :=
  e.declarations.filter (·.kind ≠ .wrapperAlias)

/-- The aliases that are rejected after the walk over a schema. -/
def rejectedAliases (schema : Schema) (s : Settings) : AliasSet :=
  (Registry.walk schema s).materialize.failed

variable {schema : Schema} {s : Settings} {e : Emission} {ds : List Declaration} {d : Declaration}

theorem emit_eq_error {u : UnresolvedReference} :
    emit schema s = .error u ↔ typeDeclarations schema s = .error u := by
  unfold emit
  cases typeDeclarations schema s <;> simp [Except.map]

theorem others_of_append {r : Registry} {as : List Alias}
    (declarations : e.declarations = as.map r.declaration ++ ds)
    (kinds : ∀ d ∈ ds, d.kind ≠ .wrapperAlias) : e.others = ds := by
  have noAlias : (as.map r.declaration).filter (·.kind ≠ .wrapperAlias) = [] := by
    rw [List.filter_eq_nil_iff]
    intro d mem
    obtain ⟨a, -, rfl⟩ := List.mem_map.1 mem
    simp [Registry.declaration]
  have rest : ds.filter (·.kind ≠ .wrapperAlias) = ds := by
    rw [List.filter_eq_self]
    simpa using kinds
  rw [Emission.others, declarations, List.filter_append, noAlias, rest, List.nil_append]

theorem others_eq (h : emit schema s = .ok e) (made : typeDeclarations schema s = .ok ds) :
    e.others = ds.filter (·.avoids (rejectedAliases schema s)) := by
  obtain ⟨ds', made', declarations, -⟩ := emit_eq_ok h
  obtain rfl : ds = ds' := Except.ok.inj (made.symm.trans made')
  have consistent := Registry.materialize_consistent (r := Registry.walk schema s)
  obtain ⟨as, -, aliases, -⟩ := consistent.order
  rw [materialized_eq_walk made, aliases] at declarations
  exact others_of_append declarations fun d mem =>
    kind_ne_wrapperAlias made d (List.mem_filter.1 mem).1

/-- A declaration of the schema is kept exactly if it uses no bad alias. -/
theorem avoids_rejected_iff (made : typeDeclarations schema s = .ok ds) (mem : d ∈ ds) :
    d.avoids (rejectedAliases schema s) = true ↔ ∀ a ∈ d.wrappers, ¬ s.registry.Bad a := by
  have rejected (a : Alias) (inside : a ∈ d.wrappers) :
      a ∈ rejectedAliases schema s ↔ s.registry.Bad a := by
    have root : a ∈ (Registry.walk schema s).referenced := by
      rw [Registry.walk_eq made, Registry.mem_referenced_referring, AliasSet.mem_unions]
      exact .inr ⟨d.wrappers, List.mem_map_of_mem mem, inside⟩
    have bodies : (Registry.walk schema s).bodies = s.registry.bodies := by
      rw [Registry.walk_eq made]
      rfl
    rw [rejectedAliases, Registry.mem_failed_iff, Registry.bad_congr bodies]
    exact and_iff_right (.root root)
  rw [avoids_iff]
  exact forall₂_congr fun a inside => not_congr (rejected a inside)

theorem avoids_rejected_congr {schema' : Schema} {ds' : List Declaration}
    (made : typeDeclarations schema s = .ok ds) (made' : typeDeclarations schema' s = .ok ds')
    (mem : d ∈ ds) (mem' : d ∈ ds') :
    d.avoids (rejectedAliases schema s) = d.avoids (rejectedAliases schema' s) :=
  Bool.eq_iff_iff.2 ((avoids_rejected_iff made mem).trans (avoids_rejected_iff made' mem').symm)

theorem isOk_iff_avoids (h : emit schema s = .ok e) (made : typeDeclarations schema s = .ok ds) :
    e.isOk = true ↔ ∀ d ∈ ds, d.avoids (rejectedAliases schema s) = true := by
  rw [emit_isOk_iff h made]
  exact forall₂_congr fun d mem => (avoids_rejected_iff made mem).symm

/-- Nothing is left out exactly if there are no errors. -/
theorem isOk_iff_others (h : emit schema s = .ok e) (made : typeDeclarations schema s = .ok ds) :
    e.isOk = true ↔ e.others = ds := by
  rw [isOk_iff_avoids h made, others_eq h made, List.filter_eq_self]

/-- Two runs with the same registry, whose declarations have the same names and use the same aliases
side by side, have the same aliases and errors and leave out the same declarations. -/
theorem emit_alongside {α : Type} {f f' : α → Declaration} {xs : List α} {schema' : Schema}
    {s' : Settings} (made : typeDeclarations schema s = .ok (xs.map f))
    (made' : typeDeclarations schema' s' = .ok (xs.map f')) (registry : s'.registry = s.registry)
    (alike : ∀ x, (f' x).name = (f x).name ∧ (f' x).wrappers = (f x).wrappers) :
    ∃ aliases errors skipped kept, (∀ d ∈ aliases, d.kind = .wrapperAlias) ∧ kept ⊆ xs ∧
      emit schema s = .ok ⟨aliases ++ kept.map f, errors, skipped⟩ ∧
      emit schema' s' = .ok ⟨aliases ++ kept.map f', errors, skipped⟩ := by
  have same : materialized s' (xs.map f') = materialized s (xs.map f) := by
    unfold materialized
    simp only [registry, List.map_map, Function.comp_def, (alike _).2]
  have avoids (aliases : AliasSet) (x : α) : (f' x).avoids aliases = (f x).avoids aliases := by
    simp only [Declaration.avoids, (alike x).2]
  obtain ⟨as, -, aliases, -⟩ := (Registry.materialize_consistent
    (r := s.registry.referring (.unions ((xs.map f).map (·.wrappers))))).order
  refine ⟨(materialized s (xs.map f)).declarations, (materialized s (xs.map f)).errors,
    (xs.filter fun x => !(f x).avoids (materialized s (xs.map f)).failed).map fun x => (f x).name,
    xs.filter fun x => (f x).avoids (materialized s (xs.map f)).failed, ?_,
    List.filter_subset_self _, ?_, ?_⟩
  · intro d mem
    obtain ⟨a, -, rfl⟩ := List.mem_map.1 (aliases ▸ mem : d ∈ as.map _)
    rfl
  · unfold emit
    rw [made]
    simp only [Except.map, List.partition_eq_filter_filter, List.filter_map, List.map_map,
      Function.comp_def]
  · unfold emit
    rw [made']
    simp only [Except.map, List.partition_eq_filter_filter, List.filter_map, List.map_map,
      Function.comp_def, same, avoids, (alike _).1]

theorem typeDeclarations_of_bodies (schema : Schema) (s : Settings) (bodies : PerAlias Text) :
    typeDeclarations schema { s with bodies } = typeDeclarations schema s := by
  rw [typeDeclarations_eq, typeDeclarations_eq, declarationsOf_with schema s bodies s.typeFilter]
  rfl

/-- **Bad bodies take out what leans on them and change nothing else.** Under settings that differ
in the bodies alone, a schema has the same reference that leads nowhere or has none; and next to an
emission without errors, one with other bodies lacks the declarations that use an alias it rejects,
and the rest are the same in the same order. -/
theorem emit_of_bodies (schema : Schema) (s : Settings) (bodies : PerAlias Text) :
    (∀ u, emit schema s = .error u ↔ emit schema { s with bodies } = .error u) ∧
    ∀ e e', emit schema s = .ok e → emit schema { s with bodies } = .ok e' → e'.isOk = true →
      e.others = e'.others.filter (·.avoids (rejectedAliases schema s)) := by
  constructor
  · intro u
    rw [emit_eq_error, emit_eq_error, typeDeclarations_of_bodies schema s bodies]
  · intro e e' h h' ok
    obtain ⟨ds, made, -⟩ := emit_eq_ok h
    have made' : typeDeclarations schema { s with bodies } = .ok ds := by
      rwa [typeDeclarations_of_bodies schema s bodies]
    rw [others_eq h made, (isOk_iff_others h' made').1 ok]

namespace Sample

/-- Settings in which the body of one alias is no type expression. -/
def badSettings : Settings :=
  { bodies := { PerAlias.ofFun Alias.defaultBody with inputMaybe := "Maybe<T" } }

theorem isSome_emit_bad : (emit Sample.schema badSettings).toOption.isSome := by decide +kernel

def badEmission : Emission := (emit Sample.schema badSettings).toOption.get isSome_emit_bad

theorem emit_bad_eq : emit Sample.schema badSettings = .ok badEmission := ok_get isSome_emit_bad

/-- Under these settings the sample lacks what leans on nullable input values, and all else is as
without options. -/
theorem others_bad : badEmission.isOk = false ∧
    badEmission.others =
      emission.others.filter (·.avoids (rejectedAliases Sample.schema badSettings)) := by
  refine ⟨by decide +kernel, ?_⟩
  exact (emit_of_bodies Sample.schema badSettings (PerAlias.ofFun Alias.defaultBody)).2
    badEmission emission emit_bad_eq emit_eq (by decide +kernel)

end Sample

/-- **Nothing is lost, doubled or left out in silence.** Apart from its aliases, an emission has the
entries of the inventory that lean on no rejected alias, in the order of the inventory; and it has
all of them exactly if it has no errors. -/
theorem emit_inventory {e : Emission} (h : emit schema s = .ok e) :
    e.others.map (·.entry) = (inventory schema s).filter (·.avoids (rejectedAliases schema s)) ∧
    (e.isOk = true ↔ e.others.map (·.entry) = inventory schema s) := by
  obtain ⟨ds, made, -⟩ := emit_eq_ok h
  have kept : e.others.map (·.entry) =
      (inventory schema s).filter (·.avoids (rejectedAliases schema s)) := by
    rw [others_eq h made, ← entries_of_typeDeclarations made, List.filter_map]
    rfl
  refine ⟨kept, ?_⟩
  rw [kept, List.filter_eq_self, ← entries_of_typeDeclarations made, List.forall_mem_map,
    isOk_iff_avoids h made]
  rfl

namespace Sample

/-- The inventory of the sample, and what is left of it without the three entries that lean on
nullable input values. -/
theorem inventory_bad :
    (inventory Sample.schema badSettings).map (fun x => (x.name, x.kind)) = ([
      ("Scalars", .scalars), ("Role", .enum), ("UserFilter", .inputObject), ("Post", .object),
      ("Query", .object), ("QueryNodeArgs", .arguments), ("QueryUsersArgs", .arguments),
      ("QuerySearchArgs", .arguments), ("User", .object), ("UserFriendsArgs", .arguments),
      ("Node", .interface), ("SearchResult", .union)] : List (Text × DeclarationKind)) ∧
    badEmission.isOk = false ∧
    badEmission.others.map (fun d => (d.name, d.kind)) = ([
      ("Scalars", .scalars), ("Role", .enum), ("Post", .object), ("Query", .object),
      ("QueryNodeArgs", .arguments), ("QuerySearchArgs", .arguments), ("User", .object),
      ("Node", .interface), ("SearchResult", .union)] : List (Text × DeclarationKind)) := by
  obtain ⟨kept, complete⟩ := emit_inventory emit_bad_eq
  have fewer : badEmission.others.map (·.entry) ≠ inventory Sample.schema badSettings := by
    rw [kept, inventory_eq]
    decide +kernel
  have named : badEmission.others.map (fun d => (d.name, d.kind)) =
      (badEmission.others.map (·.entry)).map fun x => (x.name, x.kind) := by
    rw [List.map_map]
    rfl
  refine ⟨?_, Bool.eq_false_iff.2 fun ok => fewer (complete.1 ok), ?_⟩
  · rw [inventory_eq]
    decide +kernel
  · rw [named, kept, inventory_eq]
    decide +kernel

end Sample

end SchemaTypes
