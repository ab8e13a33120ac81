import Mathlib.Data.List.Nodup
import SchemaTypes.Proofs.Results
import SchemaTypes.Schema.Basic

namespace SchemaTypes.Schema

/-- Types in increasing byte order of their names. -/
def Sorted (ts : List TypeDefinition) : Prop := ts.Pairwise (·.name < ·.name)

variable {s s' next : Schema} {t : TypeDefinition} {ts us : List TypeDefinition} {k : Kind}
  {name : Text}

theorem Sorted.eq_of_perm (h : Sorted ts) (h' : Sorted us) (perm : ts.Perm us) : ts = us :=
  perm.eq_of_pairwise (fun _ _ _ _ before after => absurd after (List.lt_asymm before)) h h'

theorem exists_insertByName (t : TypeDefinition) (ts : List TypeDefinition) :
    ∃ before after, ts = before ++ after ∧ insertByName t ts = before ++ t :: after := by
  induction ts with
  | nil => exact ⟨[], [], rfl, rfl⟩
  | cons u rest ih =>
    unfold insertByName
    split
    · obtain ⟨before, after, eq, inserted⟩ := ih
      exact ⟨u :: before, after, by rw [eq, List.cons_append], by rw [inserted, List.cons_append]⟩
    · exact ⟨[], u :: rest, rfl, rfl⟩

theorem insertByName_perm : (insertByName t ts).Perm (t :: ts) := by
  obtain ⟨before, after, rfl, inserted⟩ := exists_insertByName t ts
  rw [inserted]
  exact List.perm_middle

theorem Sorted.insertByName (h : Sorted ts) (fresh : t.name ∉ ts.map (·.name)) :
    Sorted (insertByName t ts) := by
  induction ts with
  | nil => exact List.pairwise_singleton _ _
  | cons u rest ih =>
    obtain ⟨first, sorted⟩ := List.pairwise_cons.1 h
    rw [List.map_cons, List.mem_cons, not_or] at fresh
    unfold Schema.insertByName
    split
    · rename_i earlier
      refine List.pairwise_cons.2 ⟨fun v mem => ?_, ih sorted fresh.2⟩
      rcases mem_insertByName.1 mem with rfl | old
      · exact earlier
      · exact first v old
    · rename_i notEarlier
      have before : t.name < u.name := Std.lt_of_le_of_ne notEarlier fresh.1
      refine List.pairwise_cons.2 ⟨fun v mem => ?_, h⟩
      rcases List.mem_cons.1 mem with rfl | later
      · exact before
      · exact List.lt_trans before (first v later)

theorem foldr_insertByName_perm : (ts.foldr insertByName []).Perm ts := by
  induction ts with
  | nil => exact .nil
  | cons t ts ih => exact insertByName_perm.trans (ih.cons t)

theorem sorted_foldr_insertByName (distinct : (ts.map (·.name)).Nodup) :
    Sorted (ts.foldr insertByName []) := by
  induction ts with
  | nil => exact .nil
  | cons t ts ih =>
    obtain ⟨fresh, distinct⟩ := List.nodup_cons.1 distinct
    refine (ih distinct).insertByName fun mem => fresh ?_
    exact (foldr_insertByName_perm.map _).mem_iff.1 mem

theorem distinct_kind (s : Schema) (k : Kind) :
    ((s.types.filter (·.kind = k)).map (·.name)).Nodup :=
  s.distinct.sublist (List.filter_sublist.map _)

theorem perm_ofKind (s : Schema) (k : Kind) : (s.ofKind k).Perm (s.types.filter (·.kind = k)) :=
  foldr_insertByName_perm

theorem sorted_ofKind (s : Schema) (k : Kind) : Sorted (s.ofKind k) :=
  sorted_foldr_insertByName (s.distinct_kind k)

/-- Types sorted by their names with the sort of the library. -/
def byName (ts : List TypeDefinition) : List TypeDefinition :=
  ts.mergeSort fun t u => t.name ≤ u.name

theorem sorted_byName (distinct : (ts.map (·.name)).Nodup) : Sorted (byName ts) := by
  have perm : (byName ts).Perm ts := List.mergeSort_perm ts _
  have weak : (byName ts).Pairwise (fun t u => decide (t.name ≤ u.name) = true) := by
    refine List.pairwise_mergeSort (fun t u v => ?_) (fun t u => ?_) ts
    · simpa using fun first second => Std.le_trans first second
    · simpa using Std.le_total
  have strict : (byName ts).Pairwise (·.name ≠ ·.name) :=
    List.pairwise_map.1 ((perm.map _).nodup_iff.2 distinct)
  exact (weak.and strict).imp fun both => Std.lt_of_le_of_ne (by simpa using both.1) both.2

theorem ofKind_eq_byName (s : Schema) (k : Kind) :
    s.ofKind k = byName (s.types.filter (·.kind = k)) :=
  (s.sorted_ofKind k).eq_of_perm (sorted_byName (s.distinct_kind k))
    ((s.perm_ofKind k).trans (List.mergeSort_perm _ _).symm)

theorem ofKind_eq_of_perm (perm : s.types.Perm s'.types) (k : Kind) : s.ofKind k = s'.ofKind k := by
  refine (s.sorted_ofKind k).eq_of_perm (s'.sorted_ofKind k) ?_
  exact (s.perm_ofKind k).trans ((perm.filter _).trans (s'.perm_ofKind k).symm)

theorem nodup_flatMap_ofKind (s : Schema) {kinds : List Kind} (distinct : kinds.Nodup) :
    (kinds.flatMap s.ofKind).Nodup := by
  refine List.nodup_flatMap.2 ⟨fun k _ => ?_, distinct.imp fun {k k'} other t mem mem' => ?_⟩
  · exact (s.perm_ofKind k).nodup_iff.2 (s.distinct_kind k).of_map
  · exact other ((mem_ofKind.1 mem).2.symm.trans (mem_ofKind.1 mem').2)

theorem mem_implementationsOf : t ∈ s.implementationsOf name ↔
    (t ∈ s.types ∧ t.kind = .object) ∧ name ∈ t.interfaces := by
  rw [implementationsOf, List.mem_filter, mem_ofKind, decide_eq_true_iff]

theorem find?_eq_some_iff : s.find? name = some t ↔ t ∈ s.types ∧ t.name = name := by
  constructor
  · intro found
    exact ⟨List.mem_of_find?_eq_some found, by simpa using List.find?_some found⟩
  · rintro ⟨mem, rfl⟩
    cases found : s.find? t.name with
    | none => exact absurd (List.find?_eq_none.1 found t mem) (by simp)
    | some u =>
      have same : u.name = t.name := by simpa using List.find?_some found
      have mem' := List.mem_of_find?_eq_some found
      rw [List.inj_on_of_nodup_map s.distinct mem' mem same]

theorem find?_eq_none_iff : s.find? name = none ↔ name ∉ s.types.map (·.name) := by
  simp [find?, List.find?_eq_none]

theorem find?_eq_of_perm (perm : s.types.Perm s'.types) (name : Text) :
    s.find? name = s'.find? name := by
  apply Option.ext
  intro t
  rw [find?_eq_some_iff, find?_eq_some_iff, perm.mem_iff]

theorem fresh_of_add (h : s.add t = .ok next) : t.name ∉ s.types.map (·.name) := by
  unfold add at h
  split at h
  · cases h
  · split at h
    · cases h
    · assumption

theorem find?_of_add (h : s.add t = .ok next) (other : name ≠ t.name) :
    next.find? name = s.find? name := by
  unfold find?
  rw [types_of_add h, List.find?_append]
  simp [other.symm]

theorem find?_fresh (h : s.add t = .ok next) : s.find? t.name = none := by
  refine List.find?_eq_none.2 fun u mem same => fresh_of_add h ?_
  have same : u.name = t.name := by simpa using same
  exact same ▸ List.mem_map_of_mem mem

/-- A new type stands between the types of its kind, and changes no other kind. -/
theorem ofKind_of_add (h : s.add t = .ok next) (k : Kind) : ∃ before after,
    s.ofKind k = before ++ after ∧
    next.ofKind k = before ++ (if t.kind = k then [t] else []) ++ after := by
  by_cases same : t.kind = k
  · obtain ⟨before, after, eq, inserted⟩ := exists_insertByName t (s.ofKind k)
    refine ⟨before, after, eq, ?_⟩
    rw [if_pos same, List.append_assoc, List.singleton_append, ← inserted]
    have fresh : t.name ∉ (s.ofKind k).map (·.name) := by
      intro mem
      obtain ⟨u, old, named⟩ := List.mem_map.1 mem
      exact fresh_of_add h (named ▸ List.mem_map_of_mem (mem_ofKind.1 old).1)
    refine (next.sorted_ofKind k).eq_of_perm ((s.sorted_ofKind k).insertByName fresh) ?_
    calc (next.ofKind k).Perm (next.types.filter (·.kind = k)) := next.perm_ofKind k
      _ = s.types.filter (·.kind = k) ++ [t] := by
        rw [types_of_add h, List.filter_append]
        simp [same]
      (s.types.filter (·.kind = k) ++ [t]).Perm (t :: s.types.filter (·.kind = k)) :=
        List.perm_append_singleton _ _
      (t :: s.types.filter (·.kind = k)).Perm (t :: s.ofKind k) := (s.perm_ofKind k).symm.cons t
      (t :: s.ofKind k).Perm (insertByName t (s.ofKind k)) := insertByName_perm.symm
  · refine ⟨s.ofKind k, [], (List.append_nil _).symm, ?_⟩
    rw [if_neg same, List.append_nil, List.append_nil]
    unfold ofKind
    rw [types_of_add h, List.filter_append]
    simp [same]

/-- Types with distinct names, none of them empty, can be added one after another. -/
theorem foldlM_add_eq_ok (named : ∀ t ∈ ts, t.name ≠ [])
    (distinct : ((s.types ++ ts).map (·.name)).Nodup) :
    ∃ next, ts.foldlM add s = .ok next ∧ next.types = s.types ++ ts := by
  induction ts generalizing s with
  | nil => exact ⟨s, rfl, (List.append_nil _).symm⟩
  | cons t ts ih =>
    obtain ⟨named, rest⟩ := List.forall_mem_cons.1 named
    have fresh : t.name ∉ s.types.map (·.name) := by
      rw [List.map_append, List.nodup_append] at distinct
      exact fun mem => distinct.2.2 _ mem _ (List.mem_cons_self ..) rfl
    obtain ⟨mid, added⟩ : ∃ mid, s.add t = .ok mid := by
      unfold add
      rw [dif_neg named, dif_neg fresh]
      exact ⟨_, rfl⟩
    have types := types_of_add added
    obtain ⟨next, made, all⟩ := ih (s := mid) rest (by rwa [types, List.append_assoc])
    refine ⟨next, ?_, by rw [all, types, List.append_assoc]; rfl⟩
    rw [List.foldlM_cons, added]
    exact made

theorem ofList_eq_ok (named : ∀ t ∈ ts, t.name ≠ []) (distinct : (ts.map (·.name)).Nodup) :
    ∃ schema, ofList ts = .ok schema ∧ schema.types = ts :=
  foldlM_add_eq_ok (s := empty) named distinct

theorem types_of_ofList (h : ofList ts = .ok s) : s.types = ts := by
  have fold (start : Schema) (made : ts.foldlM add start = .ok s) :
      s.types = start.types ++ ts := by
    clear h
    induction ts generalizing start with
    | nil =>
      cases made
      exact (List.append_nil _).symm
    | cons t ts ih =>
      rw [List.foldlM_cons] at made
      obtain ⟨mid, added, rest⟩ := bind_eq_ok.1 made
      rw [ih mid rest, types_of_add added, List.append_assoc, List.singleton_append]
  exact fold empty h

end SchemaTypes.Schema
