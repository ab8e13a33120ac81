import Mathlib.Data.List.Nodup
import SchemaTypes.Json.Basic

namespace SchemaTypes.Json

/-- Members in strictly increasing byte order of their keys. -/
def Sorted (ms : List (Text × Json)) : Prop := (ms.map (·.1)).Pairwise (· < ·)

variable {ms others : List (Text × Json)} {key k : Text} {v : Json}

theorem mem_keys_insertMember :
    k ∈ (insertMember key v ms).map (·.1) ↔ k = key ∨ k ∈ ms.map (·.1) := by
  fun_induction insertMember key v ms with
  | case1 => simp
  | case2 first w rest earlier ih =>
    rw [List.map_cons, List.mem_cons, ih, List.map_cons, List.mem_cons, or_left_comm]
  | case3 w rest differs => simp
  | case4 first w rest later differs => simp

theorem Sorted.insertMember (h : Sorted ms) (key : Text) (v : Json) :
    Sorted (insertMember key v ms) := by
  unfold Sorted at h ⊢
  fun_induction Json.insertMember key v ms with
  | case1 => exact List.pairwise_singleton _ _
  | case2 first w rest earlier ih =>
    obtain ⟨before, sorted⟩ := List.pairwise_cons.1 h
    refine List.pairwise_cons.2 ⟨fun k mem => ?_, ih sorted⟩
    rcases mem_keys_insertMember.1 mem with rfl | old
    · exact earlier
    · exact before k old
  | case3 w rest differs => exact h
  | case4 first w rest later differs =>
    have first_lt : key < first := Std.lt_of_le_of_ne (List.not_lt.1 later) (Ne.symm differs)
    refine List.pairwise_cons.2 ⟨fun k mem => ?_, h⟩
    rcases List.mem_cons.1 mem with rfl | behind
    · exact first_lt
    · exact List.lt_trans first_lt ((List.pairwise_cons.1 h).1 k behind)

/-- An object of members in any order has each of their keys once, in increasing order. -/
theorem exists_ofMembers (ms : List (Text × Json)) : ∃ done, ofMembers ms = .object done ∧
    Sorted done ∧ ∀ k, k ∈ done.map (·.1) ↔ k ∈ ms.map (·.1) := by
  have inserted (ms start : List (Text × Json)) (sorted : Sorted start) :
      Sorted (ms.foldl (fun done m => insertMember m.1 m.2 done) start) ∧
      ∀ k, k ∈ (ms.foldl (fun done m => insertMember m.1 m.2 done) start).map (·.1) ↔
        k ∈ start.map (·.1) ∨ k ∈ ms.map (·.1) := by
    induction ms generalizing start with
    | nil => exact ⟨sorted, by simp⟩
    | cons m ms ih =>
      obtain ⟨sorted', keys⟩ := ih _ (sorted.insertMember m.1 m.2)
      refine ⟨sorted', fun k => ?_⟩
      rw [List.foldl_cons, keys, mem_keys_insertMember, List.map_cons, List.mem_cons, or_assoc,
        or_left_comm]
  obtain ⟨sorted, keys⟩ := inserted ms [] List.Pairwise.nil
  exact ⟨_, rfl, sorted, fun k => by simpa using keys k⟩

theorem lookup_eq_of_perm (perm : ms.Perm others) (nodup : (ms.map (·.1)).Nodup) (k : Text) :
    ms.lookup k = others.lookup k := by
  induction perm with
  | nil => rfl
  | cons m _ ih =>
    rw [List.lookup_cons, List.lookup_cons, ih (List.nodup_cons.1 nodup).2]
  | swap m n rest =>
    have differ : n.1 ≠ m.1 := (List.pairwise_cons.1 nodup).1 m.1 (.head _)
    rw [List.lookup_cons, List.lookup_cons, List.lookup_cons, List.lookup_cons]
    grind
  | trans first _ ih ih' =>
    exact (ih nodup).trans (ih' ((first.map _).nodup_iff.1 nodup))

theorem get_eq_of_perm (perm : ms.Perm others) (nodup : (ms.map (·.1)).Nodup) (k : Text) :
    (Json.object ms).get k = (Json.object others).get k :=
  congrArg (·.getD .null) (lookup_eq_of_perm perm nodup k)

end SchemaTypes.Json
