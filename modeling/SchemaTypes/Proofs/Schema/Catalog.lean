import Mathlib.Data.List.Induction
import SchemaTypes.Proofs.Schema.Order
import SchemaTypes.Schema.Catalog

/-!
# The index of a catalog

The positions of a catalog stay in step with its types, whichever types are refused. So a catalog
finds and lists as the schema of its types does.
-/

namespace SchemaTypes

def Kind.all : List Kind := [.scalar, .enum, .object, .interface, .union, .inputObject]

theorem Kind.mem_all (k : Kind) : k ∈ all := by
  cases k <;> decide

namespace Catalog

open Change

variable {c : Catalog} {t : TypeDefinition} {ts : List TypeDefinition} {name : Text} {k : Kind}
  {position : Nat}

/-- The positions are those of the types, whose names are distinct and not empty. -/
structure Indexed (c : Catalog) : Prop where
  positions : c.positions = c.types.zipIdx.map fun p => (p.1.name, p.2)
  named : ∀ t ∈ c.types, t.name ≠ []
  distinct : (c.types.map (·.name)).Nodup

def Indexed.schema (h : c.Indexed) : Schema := ⟨c.types, h.named, h.distinct⟩

theorem add_on (t : TypeDefinition) (c : Catalog) : (add t).on c =
    if t.name = [] then (.error .unnamed, c)
    else if (c.positions.lookup t.name).isSome then (.error (.duplicate t.name), c)
    else (.ok (), ⟨c.types ++ [t], c.positions ++ [(t.name, c.types.length)]⟩) := by
  unfold add
  by_cases unnamed : t.name = []
  · simp [unnamed]
  · cases taken : (c.positions.lookup t.name).isSome <;> simp [unnamed, taken, on_bind]

theorem atomic_add (t : TypeDefinition) : (add t).Atomic := by
  intro c e
  rw [after, add_on]
  split_ifs
  · exact fun _ => rfl
  · exact fun _ => rfl
  · exact fun refused => nomatch refused

theorem Indexed.mem_positions (h : c.Indexed) :
    (name, position) ∈ c.positions ↔ ∃ t, c.types[position]? = some t ∧ t.name = name := by
  simp only [h.positions, List.mem_map, Prod.exists, List.mem_zipIdx_iff_getElem?, Prod.mk.injEq]
  constructor
  · rintro ⟨t, i, found, named, rfl⟩
    exact ⟨t, found, named⟩
  · rintro ⟨t, found, named⟩
    exact ⟨t, position, found, named, rfl⟩

theorem Indexed.lookup_isSome_iff (h : c.Indexed) :
    (c.positions.lookup name).isSome ↔ name ∈ c.types.map (·.name) := by
  rw [List.lookup_isSome_iff]
  constructor
  · rintro ⟨⟨other, position⟩, mem, same⟩
    obtain ⟨t, found, rfl⟩ := h.mem_positions.1 mem
    exact beq_iff_eq.1 same ▸ List.mem_map_of_mem (List.mem_of_getElem? found)
  · intro mem
    obtain ⟨t, listed, named⟩ := List.mem_map.1 mem
    obtain ⟨position, found⟩ := List.mem_iff_getElem?.1 listed
    exact ⟨(name, position), h.mem_positions.2 ⟨t, found, named⟩, beq_self_eq_true name⟩

/-- The index finds what a search through the types would find. -/
theorem Indexed.find?_eq (h : c.Indexed) (name : Text) : c.find? name = h.schema.find? name := by
  unfold find?
  cases found : c.positions.lookup name with
  | none =>
    refine (Schema.find?_eq_none_iff.2 fun mem => ?_).symm
    have known := h.lookup_isSome_iff.2 mem
    rw [found] at known
    cases known
  | some position =>
    obtain ⟨before, after, split, -⟩ := List.lookup_eq_some_iff.1 found
    have mem : (name, position) ∈ c.positions := by
      rw [split]
      exact List.mem_append_right _ (.head _)
    obtain ⟨t, there, named⟩ := h.mem_positions.1 mem
    exact there.trans (Schema.find?_eq_some_iff.2 ⟨List.mem_of_getElem? there, named⟩).symm

theorem Indexed.ofKind_eq (h : c.Indexed) (k : Kind) : c.ofKind k = h.schema.ofKind k :=
  (h.schema.ofKind_eq_byName k).symm

theorem Indexed.implementationsOf_eq (h : c.Indexed) (interface : Text) :
    c.implementationsOf interface = h.schema.implementationsOf interface := by
  rw [implementationsOf, h.ofKind_eq]
  rfl

theorem Indexed.empty : ({} : Catalog).Indexed := ⟨rfl, by simp, by simp⟩

theorem Indexed.append (h : c.Indexed) (named : t.name ≠ [])
    (fresh : t.name ∉ c.types.map (·.name)) :
    Indexed ⟨c.types ++ [t], c.positions ++ [(t.name, c.types.length)]⟩ where
  positions := by simp [h.positions, List.zipIdx_append]
  named := by
    intro u mem
    rcases List.mem_append.1 mem with old | new
    · exact h.named u old
    · exact List.mem_singleton.1 new ▸ named
  distinct := by
    rw [List.map_append, List.map_singleton]
    exact List.nodup_append.2 ⟨h.distinct, List.nodup_singleton _, fun name mem other last same =>
      fresh (List.mem_singleton.1 last ▸ same ▸ mem)⟩

theorem Indexed.after_add (h : c.Indexed) (t : TypeDefinition) : (add t).after c =
    if t.name = [] ∨ t.name ∈ c.types.map (·.name) then c
    else ⟨c.types ++ [t], c.positions ++ [(t.name, c.types.length)]⟩ := by
  have taken : (c.positions.lookup t.name).isSome ↔ t.name ∈ c.types.map (·.name) :=
    h.lookup_isSome_iff
  rw [after, add_on]
  by_cases unnamed : t.name = []
  · rw [if_pos unnamed, if_pos (.inl unnamed)]
  · rw [if_neg unnamed]
    by_cases listed : t.name ∈ c.types.map (·.name)
    · rw [if_pos (taken.2 listed), if_pos (.inr listed)]
    · rw [if_neg (mt taken.1 listed), if_neg (not_or.2 ⟨unnamed, listed⟩)]

/-- Adding a type keeps the index in step, and comes to what it comes to in the schema. -/
theorem Indexed.attempt (h : c.Indexed) (t : TypeDefinition) :
    ∃ h' : ((add t).after c).Indexed, h'.schema = h.schema.attempt t := by
  rw [h.after_add t, Schema.attempt, Schema.add]
  by_cases unnamed : t.name = []
  · rw [if_pos (.inl unnamed), dif_pos unnamed]
    exact ⟨h, rfl⟩
  · rw [dif_neg unnamed]
    by_cases listed : t.name ∈ c.types.map (·.name)
    · rw [if_pos (.inr listed), dif_pos (by exact listed)]
      exact ⟨h, rfl⟩
    · rw [if_neg (not_or.2 ⟨unnamed, listed⟩), dif_neg (by exact listed)]
      exact ⟨h.append unnamed listed, rfl⟩

theorem indexed_holding (ts : List TypeDefinition) :
    ∃ h : (holding ts).Indexed, h.schema = ts.foldl Schema.attempt Schema.empty := by
  have run (c : Catalog) (h : c.Indexed) :
      ∃ h' : (ts.foldl (fun c t => (add t).after c) c).Indexed,
        h'.schema = ts.foldl Schema.attempt h.schema := by
    induction ts generalizing c with
    | nil => exact ⟨h, rfl⟩
    | cons t ts ih =>
      obtain ⟨h', step⟩ := h.attempt t
      rw [List.foldl_cons, List.foldl_cons, ← step]
      exact ih _ h'
  exact run {} .empty

theorem types_holding_append (ts : List TypeDefinition) (t : TypeDefinition) :
    (holding (ts ++ [t])).types =
      if t.name = [] ∨ t.name ∈ (holding ts).types.map (·.name) then (holding ts).types
      else (holding ts).types ++ [t] := by
  obtain ⟨h, -⟩ := indexed_holding ts
  rw [holding, List.foldl_append, List.foldl_cons, List.foldl_nil, ← holding, h.after_add t]
  split_ifs <;> rfl

theorem mem_names_holding (named : name ≠ []) :
    name ∈ (holding ts).types.map (·.name) ↔ name ∈ ts.map (·.name) := by
  induction ts using List.reverseRecOn with
  | nil => rfl
  | append_singleton ts t ih =>
    rw [types_holding_append, List.map_append, List.mem_append, ← ih]
    split_ifs with refused
    · refine ⟨.inl, Or.rec id fun last => ?_⟩
      obtain rfl : name = t.name := List.mem_singleton.1 last
      exact refused.resolve_left named
    · rw [List.map_append, List.mem_append]

/-- A type is stored if it has a name that none before it has. -/
theorem types_holding (ts : List TypeDefinition) : (holding ts).types =
    (ts.zipIdx.filter fun p => p.1.name ≠ [] ∧ p.1.name ∉ (ts.take p.2).map (·.name)).map
      Prod.fst := by
  induction ts using List.reverseRecOn with
  | nil => rfl
  | append_singleton ts t ih =>
    have before : ∀ p ∈ ts.zipIdx, (ts ++ [t]).take p.2 = ts.take p.2 := fun p mem =>
      List.take_append_of_le_length (by simpa using Nat.le_of_lt (List.snd_lt_of_mem_zipIdx mem))
    have kept : ts.zipIdx.filter (fun p => p.1.name ≠ [] ∧
          p.1.name ∉ ((ts ++ [t]).take p.2).map (·.name)) =
        ts.zipIdx.filter fun p => p.1.name ≠ [] ∧ p.1.name ∉ (ts.take p.2).map (·.name) :=
      List.filter_congr fun p mem => by rw [before p mem]
    rw [types_holding_append, List.zipIdx_append, List.filter_append, List.map_append, kept, ← ih]
    by_cases unnamed : t.name = []
    · simp [unnamed]
    · have stored : t.name ∈ (holding ts).types.map (·.name) ↔ t.name ∈ ts.map (·.name) :=
        mem_names_holding unnamed
      by_cases given : t.name ∈ ts.map (·.name)
      · rw [if_pos (.inr (stored.2 given))]
        simp [given]
      · rw [if_neg (not_or.2 ⟨unnamed, mt stored.1 given⟩)]
        simp [unnamed, given]

/-! ## What a catalog finds and lists -/

theorem Indexed.mem_ofKind (h : c.Indexed) : t ∈ c.ofKind k ↔ t ∈ c.types ∧ t.kind = k := by
  rw [h.ofKind_eq]
  exact Schema.mem_ofKind

theorem Indexed.ofKind_spec (h : c.Indexed) (k : Kind) :
    Schema.Sorted (c.ofKind k) ∧ (c.ofKind k).Perm (c.types.filter (·.kind = k)) := by
  rw [h.ofKind_eq]
  exact ⟨h.schema.sorted_ofKind k, h.schema.perm_ofKind k⟩

theorem Indexed.nodup_ofKind (h : c.Indexed) (k : Kind) : (c.ofKind k).Nodup := by
  refine (h.ofKind_spec k).1.imp fun {t u} before => ?_
  rintro rfl
  exact List.lt_irrefl t.name before

theorem Indexed.perm_kinds (h : c.Indexed) : (Kind.all.flatMap c.ofKind).Perm c.types := by
  have once : (Kind.all.flatMap c.ofKind).Nodup := by
    rw [funext h.ofKind_eq]
    exact h.schema.nodup_flatMap_ofKind (by decide)
  refine (List.perm_ext_iff_of_nodup once h.distinct.of_map).2 fun t => ?_
  simp only [List.mem_flatMap, h.mem_ofKind]
  exact ⟨fun ⟨_, _, mem, _⟩ => mem, fun mem => ⟨t.kind, t.kind.mem_all, mem, rfl⟩⟩

/-- Whichever types are added and refused, a catalog keeps those with a name that none before them
has, and finds and lists each of them once, as the schema of the same types does. -/
theorem holding_indexes (ts : List TypeDefinition) :
    let c := holding ts
    let schema := ts.foldl Schema.attempt Schema.empty
    (∀ t, (add t).Atomic) ∧
    c.types =
      (ts.zipIdx.filter fun p => p.1.name ≠ [] ∧ p.1.name ∉ (ts.take p.2).map (·.name)).map
        Prod.fst ∧
    (∀ name t, c.find? name = some t ↔ t ∈ c.types ∧ t.name = name) ∧
    (∀ name, c.find? name = none ↔ name ∉ c.types.map (·.name)) ∧
    (∀ k, Schema.Sorted (c.ofKind k) ∧ (c.ofKind k).Perm (c.types.filter (·.kind = k))) ∧
    (Kind.all.flatMap c.ofKind).Perm c.types ∧
    (∀ interface, (c.implementationsOf interface).Sublist (c.ofKind .object) ∧
      (c.implementationsOf interface).Nodup ∧
      ∀ t, t ∈ c.implementationsOf interface ↔ t ∈ c.ofKind .object ∧ interface ∈ t.interfaces) ∧
    c.types = schema.types ∧ c.find? = schema.find? ∧ c.ofKind = schema.ofKind ∧
    c.implementationsOf = schema.implementationsOf := by
  obtain ⟨h, same⟩ := indexed_holding ts
  have find := h.find?_eq
  refine ⟨atomic_add, types_holding ts, fun name t => ?_, fun name => ?_, h.ofKind_spec,
    h.perm_kinds, fun interface => ⟨List.filter_sublist, ?_, fun t => ?_⟩, ?_⟩
  · rw [find]
    exact Schema.find?_eq_some_iff
  · rw [find]
    exact Schema.find?_eq_none_iff
  · exact (h.nodup_ofKind .object).sublist List.filter_sublist
  · rw [implementationsOf, List.mem_filter, decide_eq_true_iff]
  · rw [← same]
    exact ⟨rfl, funext find, funext h.ofKind_eq, funext h.implementationsOf_eq⟩

end Catalog

end SchemaTypes
