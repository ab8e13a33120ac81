import Mathlib.Data.List.TakeWhile
import SchemaTypes.Text.Basic

namespace SchemaTypes.Text

variable {p : UInt8 → Bool} {front rest : Text}

theorem takeWhile_append (stops : ∀ b ∈ rest.head?, p b = false) :
    (front ++ rest).takeWhile p = front.takeWhile p := by
  have none : rest.takeWhile p = [] := by
    cases rest with
    | nil => rfl
    | cons b rest => simp [stops b rfl]
  rw [List.takeWhile_append, none, List.append_nil]
  split
  · rename_i all
    exact ((List.takeWhile_prefix p).eq_of_length all).symm
  · rfl

theorem takeWhile_append_of_stops (inside : ∀ b ∈ front, p b = true)
    (stops : ∀ b ∈ rest.head?, p b = false) : (front ++ rest).takeWhile p = front := by
  rw [takeWhile_append stops, List.takeWhile_eq_self_iff.2 inside]

theorem dropWhile_append_of_stops (inside : ∀ b ∈ front, p b = true)
    (stops : ∀ b ∈ rest.head?, p b = false) : (front ++ rest).dropWhile p = rest := by
  rw [List.dropWhile_append_of_pos inside]
  cases rest with
  | nil => rfl
  | cons b rest => simp [stops b rfl]

theorem take_takeWhile (p : UInt8 → Bool) (t : Text) :
    t.take (t.takeWhile p).length = t.takeWhile p :=
  (List.prefix_iff_eq_take.1 (List.takeWhile_prefix p)).symm

theorem drop_takeWhile (p : UInt8 → Bool) (t : Text) :
    t.drop (t.takeWhile p).length = t.dropWhile p := by
  induction t with
  | nil => rfl
  | cons b t ih =>
    rw [List.takeWhile_cons, List.dropWhile_cons]
    split
    · rw [List.length_cons, List.drop_succ_cons, ih]
    · rfl

theorem isDigit_decimal (n : Nat) : ∀ b ∈ decimal n, isDigit b = true := by
  intro b mem
  obtain ⟨c, inside, rfl⟩ := List.mem_map.1 mem
  have digit : c.isDigit = true := Nat.isDigit_of_mem_toDigits (by decide) (by decide) inside
  have bounds : 48 ≤ c.val.toNat ∧ c.val.toNat ≤ 57 := by
    simpa [Char.isDigit, UInt32.le_iff_toNat_le] using digit
  have size : c.toUInt8.toNat = c.val.toNat % 256 := UInt32.toNat_toUInt8 c.val
  have low : '0'.toUInt8 ≤ c.toUInt8 := by
    rw [UInt8.le_iff_toNat_le, size]
    show 48 ≤ _
    omega
  have high : c.toUInt8 ≤ '9'.toUInt8 := by
    rw [UInt8.le_iff_toNat_le, size]
    show _ ≤ 57
    omega
  simp [isDigit, low, high]

theorem untilNul_of_free {t : Text} (free : 0 ∉ t) : untilNul t = t := by
  refine List.takeWhile_eq_self_iff.2 fun b mem => ?_
  simpa using ne_of_mem_of_not_mem mem free

theorem nul_not_mem_decimal (n : Nat) : 0 ∉ decimal n :=
  fun mem => absurd (isDigit_decimal n 0 mem) (by decide)

theorem fresh_bytes {base : Text} (digits : ∀ b, isDigit b = true → p b = true)
    (h : ∀ b ∈ base, p b = true) (taken : List Text) : ∀ b ∈ fresh base taken, p b = true := by
  unfold fresh
  split
  · dsimp only
    cases found : ((List.range' 1 taken.length).map (base ++ decimal ·)).find? (· ∉ taken) with
    | none => exact h
    | some name =>
      obtain ⟨n, -, rfl⟩ := List.mem_map.1 (List.mem_of_find?_eq_some found)
      exact List.forall_mem_append.2 ⟨h, fun b mem => digits b (isDigit_decimal n b mem)⟩
  · exact h

theorem escaped_eq {b : UInt8} (h : b ∉ [singleQuote, backslash, lineFeed, carriageReturn]) :
    escaped b = [b] := by
  simp only [List.mem_cons, List.not_mem_nil, or_false, not_or] at h
  simp [escaped, h]

theorem quoted_eq {value : Text}
    (h : ∀ b ∈ value, b ∉ [singleQuote, backslash, lineFeed, carriageReturn]) :
    quoted value = "'" ++ value ++ "'" := by
  have same : value.flatMap escaped = value := by
    induction value with
    | nil => rfl
    | cons b value ih =>
      obtain ⟨first, later⟩ := List.forall_mem_cons.1 h
      rw [List.flatMap_cons, escaped_eq first, ih later]
      rfl
  rw [quoted, same]

theorem joined_cons (separator first : Text) (others : List Text) :
    joined separator (first :: others) = first ++ others.flatMap (separator ++ ·) := by
  induction others generalizing first with
  | nil => simp [joined]
  | cons second others ih =>
    unfold joined at ih ⊢
    rw [List.intercalate_cons_cons, ih second, List.flatMap_cons, List.append_assoc,
      List.append_assoc]

end SchemaTypes.Text
