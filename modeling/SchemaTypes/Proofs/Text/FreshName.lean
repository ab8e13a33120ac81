import Mathlib.Data.List.Nodup
import Mathlib.Data.List.Perm.Subperm
import Mathlib.Order.Bounds.Defs
import SchemaTypes.Proofs.Steps
import SchemaTypes.Proofs.Text.Bytes

/-!
# Fresh names are least

As many numbers as there are taken names always suffice, so the search for a name that is not taken
finds the first one.
-/

namespace SchemaTypes.Text

/-- A name is the base if that is not taken, or else the base followed by the least positive number
that gives a name not taken. -/
inductive LeastFresh (base : Text) (taken : List Text) : Text → Prop where
  | base : base ∉ taken → LeastFresh base taken base
  | numbered {k : Nat} : base ∈ taken → 1 ≤ k → base ++ decimal k ∉ taken →
      (∀ j, 1 ≤ j → j < k → base ++ decimal j ∈ taken) → LeastFresh base taken (base ++ decimal k)

variable {base name : Text} {taken : List Text}

theorem LeastFresh.not_mem (h : LeastFresh base taken name) : name ∉ taken := by
  cases h with
  | base free => exact free
  | numbered _ _ free _ => exact free

theorem decimal_injective : Function.Injective decimal := by
  have digit (n : Nat) : ∀ c ∈ Nat.toDigits 10 n, Char.ofUInt8 c.toUInt8 = c := by
    intro c mem
    have bounds : 48 ≤ c.val.toNat ∧ c.val.toNat ≤ 57 := by
      have := Nat.isDigit_of_mem_toDigits (by decide) (by decide) mem
      simpa [Char.isDigit, UInt32.le_iff_toNat_le] using this
    have small : c.val.toNat % 256 = c.val.toNat := Nat.mod_eq_of_lt (by omega)
    exact Char.ext (UInt32.toNat_inj.1 small)
  have digits (n : Nat) : (decimal n).map Char.ofUInt8 = Nat.toDigits 10 n := by
    rw [decimal, List.map_map]
    exact (List.map_congr_left (digit n)).trans (List.map_id' _)
  intro m n same
  calc m = Nat.ofDigitChars 10 ((decimal m).map Char.ofUInt8) 0 := by
        rw [digits, Nat.ofDigitChars_ten_toDigits]
    _ = Nat.ofDigitChars 10 ((decimal n).map Char.ofUInt8) 0 := by rw [same]
    _ = n := by rw [digits, Nat.ofDigitChars_ten_toDigits]

theorem decimal_ne_nil (n : Nat) : decimal n ≠ [] := by
  simp [decimal, Nat.toDigits_ne_nil]

/-- If the base is taken, some number up to that of the taken names is free: there are too many
names to be all taken. -/
theorem exists_free (here : base ∈ taken) :
    ∃ k ∈ List.range' 1 taken.length, base ++ decimal k ∉ taken := by
  by_contra none
  simp only [not_exists, not_and, not_not] at none
  let names := base :: (List.range' 1 taken.length).map (base ++ decimal ·)
  have distinct : names.Nodup := by
    refine List.nodup_cons.2 ⟨?_, ?_⟩
    · intro mem
      obtain ⟨k, -, same⟩ := List.mem_map.1 mem
      exact decimal_ne_nil k (List.append_right_eq_self.1 same)
    · have injective : Function.Injective (base ++ decimal ·) :=
        fun j k same => decimal_injective (List.append_cancel_left same)
      exact (List.nodup_range' 1).map injective
  have inside : names ⊆ taken := by
    refine List.cons_subset.2 ⟨here, fun name mem => ?_⟩
    obtain ⟨k, bounds, rfl⟩ := List.mem_map.1 mem
    exact none k bounds
  have short := (distinct.subperm inside).length_le
  simp only [names, List.length_cons, List.length_map, List.length_range'] at short
  omega

/-- **A fresh name is the least that is not taken.** -/
theorem leastFresh_fresh (base : Text) (taken : List Text) :
    LeastFresh base taken (fresh base taken) := by
  unfold fresh
  split
  · rename_i here
    dsimp only
    rw [List.find?_map]
    cases found : (List.range' 1 taken.length).find? ((· ∉ taken) ∘ (base ++ decimal ·)) with
    | none =>
      obtain ⟨k, bounds, free⟩ := exists_free here
      exact absurd free (by simpa using List.find?_eq_none.1 found k bounds)
    | some k =>
      obtain ⟨free, bounds, least⟩ := List.find?_range'_eq_some.1 found
      have positive : 1 ≤ k := (List.mem_range'_1.1 bounds).1
      refine .numbered here positive (by simpa using free) fun j low high => ?_
      simpa using least j low high
  · exact .base ‹_›

theorem LeastFresh.unique {other : Text} (h : LeastFresh base taken name)
    (h' : LeastFresh base taken other) : name = other := by
  cases h with
  | base free =>
    cases h' with
    | base _ => rfl
    | numbered here _ _ _ => exact absurd here free
  | @numbered k here positive free least =>
    cases h' with
    | base free' => exact absurd here free'
    | @numbered l _ positive' free' least' =>
      rcases Nat.lt_trichotomy k l with less | rfl | greater
      · exact absurd (least' k positive less) free
      · rfl
      · exact absurd (least l positive' greater) free'

theorem LeastFresh.eq_fresh (h : LeastFresh base taken name) : name = fresh base taken :=
  h.unique (leastFresh_fresh base taken)

/-- Which name is the least depends on the set of taken names alone. -/
theorem LeastFresh.congr {other : List Text} (same : ∀ t, t ∈ other ↔ t ∈ taken)
    (h : LeastFresh base taken name) : LeastFresh base other name := by
  cases h with
  | base free => exact .base fun mem => free ((same _).1 mem)
  | numbered here positive free least =>
    refine .numbered ((same _).2 here) positive (fun mem => free ((same _).1 mem)) ?_
    intro j low high
    exact (same _).2 (least j low high)

/-- One round of a search without a bound: the name with this number is taken, so that the next
number is tried. -/
inductive Retries (base : Text) (taken : List Text) : Nat → Nat → Prop where
  | next {k : Nat} : base ++ decimal k ∈ taken → Retries base taken k (k + 1)

/-- The search gets past exactly the numbers whose names are taken. -/
theorem steps_retries_iff {n j k : Nat} :
    Steps (Retries base taken) n j k ↔
      k = j + n ∧ ∀ i, j ≤ i → i < k → base ++ decimal i ∈ taken := by
  constructor
  · intro run
    induction run with
    | none =>
      refine ⟨rfl, fun i low high => ?_⟩
      omega
    | first one _ ih =>
      obtain ⟨here⟩ := one
      obtain ⟨rfl, later⟩ := ih
      refine ⟨by omega, fun i low high => ?_⟩
      rcases Nat.eq_or_lt_of_le low with rfl | above
      · exact here
      · exact later i above high
  · rintro ⟨rfl, all⟩
    induction n generalizing j with
    | zero => exact .none
    | succ n ih =>
      have later : Steps (Retries base taken) n (j + 1) (j + 1 + n) := by
        apply ih
        intro i low high
        exact all i (by omega) (by omega)
      rw [Nat.add_right_comm] at later
      exact .first (.next (all j (by omega) (by omega))) later

/-- **The search for a fresh name stops, at the least one.** The name is not taken, and it is the
base if that is not taken. Else the numbers from 1 on are tried one after the other; the search
stops at the least whose name is not taken, which is at most that of the taken names, and never gets
past it. Only the set of taken names matters. -/
theorem fresh_searched (base : Text) (taken : List Text) :
    fresh base taken ∉ taken ∧
    (base ∉ taken → fresh base taken = base) ∧
    (base ∈ taken → ∃ k, fresh base taken = base ++ decimal k ∧ k ≤ taken.length ∧
      IsLeast {j | 1 ≤ j ∧ base ++ decimal j ∉ taken} k ∧
      Steps (Retries base taken) (k - 1) 1 k ∧ (∀ next, ¬ Retries base taken k next) ∧
      ∀ n j, Steps (Retries base taken) n 1 j → j ≤ k) ∧
    ∀ other, (∀ t, t ∈ other ↔ t ∈ taken) → fresh base other = fresh base taken := by
  have least := leastFresh_fresh base taken
  refine ⟨least.not_mem, fun free => ((LeastFresh.base free).eq_fresh).symm, fun here => ?_, ?_⟩
  · generalize fresh base taken = name at least
    cases least with
    | base free => exact absurd here free
    | @numbered k _ positive free before =>
      have stops {j : Nat} (passed : ∀ i, 1 ≤ i → i < j → base ++ decimal i ∈ taken) {l : Nat}
          (low : 1 ≤ l) (free : base ++ decimal l ∉ taken) : j ≤ l := by
        by_contra past
        exact free (passed l low (by omega))
      obtain ⟨l, bounds, free'⟩ := exists_free here
      obtain ⟨low, high⟩ := List.mem_range'_1.1 bounds
      have short : k ≤ l := stops before low free'
      refine ⟨k, rfl, by omega, ⟨⟨positive, free⟩, fun j h => stops before h.1 h.2⟩, ?_, ?_, ?_⟩
      · exact steps_retries_iff.2 ⟨by omega, before⟩
      · rintro _ ⟨mem⟩
        exact free mem
      · intro n j run
        exact stops (steps_retries_iff.1 run).2 positive free
  · intro other same
    exact ((least.congr same).eq_fresh).symm

/-- The names 1 to 3 are taken, and one of them twice; the search stops at 4. -/
theorem fresh_crowded :
    ("A" : Text) ∈ (["A2", "A", "A1", "A2", "A3", "A10"] : List Text) ∧
    fresh "A" ["A2", "A", "A1", "A2", "A3", "A10"] = "A4" ∧
    Steps (Retries "A" ["A2", "A", "A1", "A2", "A3", "A10"]) 3 1 4 ∧
    (∀ next, ¬ Retries "A" ["A2", "A", "A1", "A2", "A3", "A10"] 4 next) ∧
    fresh "A" ["A10", "A3", "A1", "A2", "A"] = "A4" := by
  have here : ("A" : Text) ∈ (["A2", "A", "A1", "A2", "A3", "A10"] : List Text) := by decide
  have name : fresh "A" ["A2", "A", "A1", "A2", "A3", "A10"] = "A4" := by decide
  obtain ⟨-, -, taken, set⟩ := fresh_searched "A" ["A2", "A", "A1", "A2", "A3", "A10"]
  obtain ⟨k, numbered, -, -, run, stopped, -⟩ := taken here
  obtain rfl : k = 4 := by
    have same : ("A" : Text) ++ decimal k = "A" ++ decimal 4 := numbered.symm.trans name
    exact decimal_injective (List.append_cancel_left same)
  have same : (∀ t ∈ (["A10", "A3", "A1", "A2", "A"] : List Text),
        t ∈ (["A2", "A", "A1", "A2", "A3", "A10"] : List Text)) ∧
      ∀ t ∈ (["A2", "A", "A1", "A2", "A3", "A10"] : List Text),
        t ∈ (["A10", "A3", "A1", "A2", "A"] : List Text) := by decide
  have again : fresh "A" ["A10", "A3", "A1", "A2", "A"] = "A4" := by
    rw [set ["A10", "A3", "A1", "A2", "A"] fun t => ⟨same.1 t, same.2 t⟩, name]
  exact ⟨here, name, run, stopped, again⟩

end SchemaTypes.Text
