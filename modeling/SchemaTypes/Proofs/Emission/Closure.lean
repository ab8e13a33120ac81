import Mathlib.Data.List.Nodup
import SchemaTypes.Proofs.Alias.Classification
import SchemaTypes.Proofs.Emission.Inventory
import SchemaTypes.Proofs.Emission.Walk
import SchemaTypes.Sample

namespace SchemaTypes

variable {schema : Schema} {s : Settings} {e : Emission} {ds : List Declaration} {a : Alias}

theorem emit_eq_ok (h : emit schema s = .ok e) :
    ∃ ds, typeDeclarations schema s = .ok ds ∧
      e.declarations = (materialized s ds).declarations ++
        ds.filter (·.avoids (materialized s ds).failed) ∧
      e.errors = (materialized s ds).errors := by
  obtain ⟨ds, made, rfl⟩ := map_eq_ok.1 h
  refine ⟨ds, made, ?_, rfl⟩
  simp only [List.partition_eq_filter_filter]

theorem avoids_iff {d : Declaration} {aliases : AliasSet} :
    d.avoids aliases = true ↔ ∀ a ∈ d.wrappers, a ∉ aliases := by
  simp [Declaration.avoids]

namespace Registry

variable {r : Registry}

theorem mem_wrappers_declaration {b : Alias} :
    b ∈ (r.declaration a).wrappers ↔ r.Mentions a b := by
  have foldl (as : List Alias) (s : AliasSet) :
      b ∈ as.foldl AliasSet.insert s ↔ b ∈ as ∨ b ∈ s := by
    induction as generalizing s with
    | nil => simp
    | cons a as ih =>
      rw [List.foldl_cons, ih, AliasSet.mem_insert, List.mem_cons, or_left_comm, or_assoc]
  exact (foldl _ _).trans (or_iff_left (AliasSet.not_mem_empty b))

end Registry

/-- The aliases of an emission and its other declarations: the aliases are in order, the others use
only those, and where nothing is wrong every alias is needed by one of the others. -/
structure Emission.Shape (e : Emission) (r : Registry) (as : List Alias)
    (others : List Declaration) : Prop where
  declarations : e.declarations = as.map r.declaration ++ others
  ordered : r.Ordered as
  good : ∀ a ∈ as, ¬ r.Bad a
  kinds : ∀ d ∈ others, d.kind ≠ .wrapperAlias
  used : ∀ d ∈ others, ∀ a ∈ d.wrappers, a ∈ as
  needed : e.isOk = true → ∀ a ∈ as, ∃ d ∈ others, ∃ b ∈ d.wrappers, r.Reaches b a

/-- Every emission has such a shape, and nothing is left out where nothing is wrong. -/
theorem emit_shape (h : emit schema s = .ok e) : ∃ as others, e.Shape s.registry as others ∧
    (e.isOk = true → typeDeclarations schema s = .ok others) := by
  obtain ⟨ds, made, declarations, errors⟩ := emit_eq_ok h
  have kinds := kind_ne_wrapperAlias made
  have referred (a : Alias) (mem : ∃ d ∈ ds, a ∈ d.wrappers) :
      a ∈ (s.registry.referring (.unions (ds.map (·.wrappers)))).referenced := by
    simpa using .inr mem
  have consistent := Registry.materialize_consistent
    (r := s.registry.referring (.unions (ds.map (·.wrappers))))
  have none (ok : e.isOk = true) (b : Alias) : b ∉ (materialized s ds).failed := by
    intro failed
    refine consistent.reported b failed ?_
    rw [← List.isEmpty_iff]
    exact errors ▸ ok
  obtain ⟨as, ordered, aliases, members⟩ := consistent.order
  refine ⟨as, ds.filter (·.avoids (materialized s ds).failed), ⟨?_, ?_, ?_, ?_, ?_, ?_⟩, ?_⟩
  · rw [declarations]
    exact congrArg (· ++ _) aliases
  · exact ordered.congr rfl
  · exact fun a mem => consistent.good a ((members a).2 mem)
  · exact fun d mem => kinds d (List.mem_filter.1 mem).1
  · intro d mem a inside
    obtain ⟨mem, avoids⟩ := List.mem_filter.1 mem
    have visited := Registry.Visited.root (referred a ⟨d, mem, inside⟩)
    rcases Materialized.settles_iff.1 (Registry.settles_iff_visited.2 visited) with kept | failed
    · exact (members a).1 kept
    · exact absurd failed (avoids_iff.1 avoids a inside)
  · intro ok a mem
    have visited := (Registry.mem_declared_iff.1 ((members a).2 mem)).1
    obtain ⟨b, root, way⟩ := visited.reached
    have root' : ∃ d ∈ ds, b ∈ d.wrappers := by simpa [Settings.registry] using root
    obtain ⟨d, mem, inside⟩ := root'
    exact ⟨d, List.mem_filter.2 ⟨mem, avoids_iff.2 fun a _ => none ok a⟩, b, inside, way⟩
  · intro ok
    rw [made, List.filter_eq_self.2 fun d _ => avoids_iff.2 fun a _ => none ok a]

/-- Nothing is wrong with an emission exactly if no declaration of the schema uses a bad alias. -/
theorem emit_isOk_iff (h : emit schema s = .ok e) (made : typeDeclarations schema s = .ok ds) :
    e.isOk = true ↔ ∀ d ∈ ds, ∀ a ∈ d.wrappers, ¬ s.registry.Bad a := by
  obtain ⟨ds', made', -, errors⟩ := emit_eq_ok h
  obtain rfl : ds = ds' := Except.ok.inj (made.symm.trans made')
  have referred (a : Alias) :
      a ∈ (s.registry.referring (.unions (ds.map (·.wrappers)))).referenced ↔
        ∃ d ∈ ds, a ∈ d.wrappers := by
    simp [Settings.registry]
  have quiet := Registry.errors_eq_nil_iff
    (r := s.registry.referring (.unions (ds.map (·.wrappers))))
  rw [Emission.isOk, errors, List.isEmpty_iff]
  refine quiet.trans ⟨fun good d mem a inside => ?_, fun good a root => ?_⟩
  · exact good a ((referred a).2 ⟨d, mem, inside⟩)
  · obtain ⟨d, mem, inside⟩ := (referred a).1 root
    exact good d mem a inside

namespace Emission

variable {r : Registry} {as : List Alias} {others : List Declaration}

theorem Shape.filter (h : e.Shape r as others) :
    e.declarations.filter (·.kind = .wrapperAlias) = as.map r.declaration := by
  rw [h.declarations, List.filter_append]
  have aliases : (as.map r.declaration).filter (·.kind = .wrapperAlias) = as.map r.declaration := by
    rw [List.filter_eq_self]
    intro d mem
    obtain ⟨a, -, rfl⟩ := List.mem_map.1 mem
    rfl
  have rest : others.filter (·.kind = .wrapperAlias) = [] := by
    rw [List.filter_eq_nil_iff]
    simpa using h.kinds
  rw [aliases, rest, List.append_nil]

/-- An alias is declared. -/
def Declares (e : Emission) (a : Alias) : Prop :=
  ∃ d ∈ e.declarations, d.kind = .wrapperAlias ∧ d.name = a.name

theorem Shape.declares_iff (h : e.Shape r as others) : e.Declares a ↔ a ∈ as := by
  have mem_iff (d : Declaration) :
      d ∈ e.declarations ∧ d.kind = .wrapperAlias ↔ d ∈ as.map r.declaration := by
    rw [← h.filter]
    simp
  constructor
  · rintro ⟨d, mem, kind, name⟩
    obtain ⟨b, listed, rfl⟩ := List.mem_map.1 ((mem_iff d).1 ⟨mem, kind⟩)
    exact Alias.name_injective name ▸ listed
  · intro mem
    have there := (mem_iff (r.declaration a)).2 (List.mem_map_of_mem mem)
    exact ⟨r.declaration a, there.1, there.2, rfl⟩

theorem Shape.alias_at (h : e.Shape r as others) {i : Nat} (at_i : as[i]? = some a) :
    e.declarations[i]? = some (r.declaration a) := by
  have short : i < (as.map r.declaration).length := by
    rw [List.length_map]
    exact (List.getElem?_eq_some_iff.1 at_i).1
  rw [h.declarations, List.getElem?_append_left short, List.getElem?_map, at_i]
  rfl

theorem Shape.cases_at (h : e.Shape r as others) {i : Nat} {d : Declaration}
    (at_i : e.declarations[i]? = some d) :
    (∃ a, as[i]? = some a ∧ d = r.declaration a) ∨ (as.length ≤ i ∧ d ∈ others) := by
  rw [h.declarations] at at_i
  rcases Nat.lt_or_ge i (as.map r.declaration).length with early | late
  · rw [List.getElem?_append_left early, List.getElem?_map] at at_i
    obtain ⟨a, place, rfl⟩ := Option.map_eq_some_iff.1 at_i
    exact .inl ⟨a, place, rfl⟩
  · rw [List.getElem?_append_right late] at at_i
    rw [List.length_map] at late
    exact .inr ⟨late, List.mem_of_getElem? at_i⟩

/-- The aliases that a declaration uses stand before it. -/
theorem Shape.before (h : e.Shape r as others) {i : Nat} {d : Declaration}
    (at_i : e.declarations[i]? = some d) (inside : a ∈ d.wrappers) :
    ∃ j < i, e.declarations[j]? = some (r.declaration a) := by
  rcases h.cases_at at_i with ⟨b, place, rfl⟩ | ⟨late, mem⟩
  · obtain ⟨j, before, at_j⟩ :=
      h.ordered.earlier place (Registry.mem_wrappers_declaration.1 inside)
    exact ⟨j, before, h.alias_at at_j⟩
  · obtain ⟨j, at_j⟩ := List.getElem?_of_mem (h.used d mem a inside)
    have short : j < as.length := (List.getElem?_eq_some_iff.1 at_j).1
    exact ⟨j, by omega, h.alias_at at_j⟩

end Emission

/-- **Aliases are declared before their use.** The aliases come first in an emission, each of them
once; every alias that a declaration uses stands before it; and in an emission without errors the
aliases are those that can be reached from the aliases used by the other declarations. -/
theorem emit_declares_before_use (h : emit schema s = .ok e) :
    (∃ aliases others, e.declarations = aliases ++ others ∧
      (∀ d ∈ aliases, d.kind = .wrapperAlias) ∧ ∀ d ∈ others, d.kind ≠ .wrapperAlias) ∧
    ((e.declarations.filter (·.kind = .wrapperAlias)).map (·.name)).Nodup ∧
    (∀ (i : Nat) (d : Declaration), e.declarations[i]? = some d → ∀ a ∈ d.wrappers,
      ∃ j < i, ∃ c : Declaration,
        e.declarations[j]? = some c ∧ c.kind = .wrapperAlias ∧ c.name = a.name) ∧
    (∀ d ∈ e.declarations, d.kind = .wrapperAlias → ∃ a : Alias, d.name = a.name) ∧
    (e.isOk = true → ∀ a, e.Declares a ↔
      ∃ d ∈ e.declarations, d.kind ≠ .wrapperAlias ∧ ∃ b ∈ d.wrappers,
        s.registry.Reaches b a) := by
  obtain ⟨as, others, shape, -⟩ := emit_shape h
  refine ⟨⟨_, others, shape.declarations, ?_, shape.kinds⟩, ?_, ?_, ?_, ?_⟩
  · intro d mem
    obtain ⟨a, -, rfl⟩ := List.mem_map.1 mem
    rfl
  · rw [shape.filter, List.map_map]
    exact shape.ordered.nodup.map Alias.name_injective
  · intro i d at_i a inside
    obtain ⟨j, before, at_j⟩ := shape.before at_i inside
    exact ⟨j, before, s.registry.declaration a, at_j, rfl, rfl⟩
  · intro d mem kind
    have aliased : d ∈ as.map s.registry.declaration := by
      rw [← shape.filter]
      simp [mem, kind]
    obtain ⟨a, -, rfl⟩ := List.mem_map.1 aliased
    exact ⟨a, rfl⟩
  · intro ok a
    rw [shape.declares_iff]
    constructor
    · intro mem
      obtain ⟨d, mem, b, inside, way⟩ := shape.needed ok a mem
      refine ⟨d, ?_, shape.kinds d mem, b, inside, way⟩
      rw [shape.declarations]
      exact List.mem_append_right _ mem
    · rintro ⟨d, mem, kind, b, inside, way⟩
      rw [shape.declarations] at mem
      rcases List.mem_append.1 mem with aliased | other
      · obtain ⟨c, -, rfl⟩ := List.mem_map.1 aliased
        exact absurd rfl kind
      · exact shape.ordered.reaches (shape.used d other b inside) way

namespace Sample

theorem isSome_emit : (emit Sample.schema {}).toOption.isSome := by decide +kernel

/-- The emission of the sample under the settings without options. -/
def emission : Emission := (emit Sample.schema {}).toOption.get isSome_emit

theorem emit_eq : emit Sample.schema {} = .ok emission := ok_get isSome_emit

/-- The sample has no errors, so the aliases of its emission are those it needs. -/
theorem declares_needed_aliases : emission.isOk = true ∧
    ∀ a, emission.Declares a ↔ ∃ d ∈ emission.declarations, d.kind ≠ .wrapperAlias ∧
      ∃ b ∈ d.wrappers, Registry.Reaches (Settings.registry {}) b a := by
  have ok : emission.isOk = true := by decide +kernel
  exact ⟨ok, (emit_declares_before_use emit_eq).2.2.2.2 ok⟩

end Sample

end SchemaTypes
