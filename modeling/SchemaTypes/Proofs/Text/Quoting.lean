import SchemaTypes.Proofs.Text.Bytes
import SchemaTypes.Text.Basic

namespace SchemaTypes.Text

/-- What stands for a byte behind a backslash, and that byte. -/
def escapes : List (UInt8 × UInt8) :=
  [(singleQuote, singleQuote), (backslash, backslash), ('n'.toUInt8, lineFeed),
    ('r'.toUInt8, carriageReturn)]

/-- The value of a literal whose opening quote has been read, up to the first quote that no
backslash stands before, and what comes behind that quote. -/
def value? : Text → Option (Text × Text)
  | [] => none
  | b :: rest =>
    if b = singleQuote then some ([], rest)
    else if b = backslash then
      match rest with
      | [] => none
      | c :: later =>
        match escapes.lookup c with
        | none => none
        | some d => (value? later).map (Prod.map (d :: ·) id)
    else if b = lineFeed ∨ b = carriageReturn then none
    else (value? rest).map (Prod.map (b :: ·) id)

/-- The value of the literal that a text starts with, and what comes behind that. -/
def unquoted : Text → Option (Text × Text)
  | [] => none
  | b :: rest => if b = singleQuote then value? rest else none

variable {b c d : UInt8} {source t v w x y rest : Text}

theorem escaped_of_escape (h : escapes.lookup c = some d) : escaped d = [backslash, c] := by
  obtain ⟨_, _, eq, -⟩ := List.lookup_eq_some_iff.1 h
  have mem : (c, d) ∈ escapes := eq ▸ List.mem_append_right _ (.head _)
  simp only [escapes, List.mem_cons, List.not_mem_nil, or_false, Prod.mk.injEq] at mem
  rcases mem with ⟨rfl, rfl⟩ | ⟨rfl, rfl⟩ | ⟨rfl, rfl⟩ | ⟨rfl, rfl⟩ <;> rfl

theorem escaped_cases (b : UInt8) :
    (b ∉ [singleQuote, backslash, lineFeed, carriageReturn] ∧ escaped b = [b]) ∨
      ∃ c, escapes.lookup c = some b ∧ escaped b = [backslash, c] := by
  by_cases special : b ∈ [singleQuote, backslash, lineFeed, carriageReturn]
  · right
    have stands : ∃ c, escapes.lookup c = some b := by
      simp only [List.mem_cons, List.not_mem_nil, or_false] at special
      rcases special with rfl | rfl | rfl | rfl
      · exact ⟨singleQuote, rfl⟩
      · exact ⟨backslash, rfl⟩
      · exact ⟨'n'.toUInt8, rfl⟩
      · exact ⟨'r'.toUInt8, rfl⟩
    obtain ⟨c, found⟩ := stands
    exact ⟨c, found, escaped_of_escape found⟩
  · exact .inl ⟨special, escaped_eq special⟩

theorem not_lineBreak_of_escaped (mem : c ∈ escaped b) : c ≠ lineFeed ∧ c ≠ carriageReturn := by
  rcases escaped_cases b with ⟨plain, eq⟩ | ⟨d, found, eq⟩
  · simp only [List.mem_cons, List.not_mem_nil, or_false, not_or] at plain
    obtain rfl : c = b := by simpa [eq] using mem
    exact plain.2.2
  · rw [eq] at mem
    rcases List.mem_cons.1 mem with rfl | last
    · decide
    · obtain rfl := List.mem_singleton.1 last
      constructor <;> rintro rfl <;> cases found

theorem value?_escaped (b : UInt8) (t : Text) :
    value? (escaped b ++ t) = (value? t).map (Prod.map (b :: ·) id) := by
  rcases escaped_cases b with ⟨plain, eq⟩ | ⟨c, found, eq⟩
  · simp only [List.mem_cons, List.not_mem_nil, or_false, not_or] at plain
    obtain ⟨noQuote, noEscape, noLineBreak⟩ := plain
    rw [eq, List.singleton_append, value?.eq_def]
    simp [noQuote, noEscape, noLineBreak]
  · rw [eq]
    show value? (backslash :: c :: t) = _
    rw [value?.eq_def]
    simp only [found]
    rfl

theorem value?_closed (v rest : Text) :
    value? (v.flatMap escaped ++ singleQuote :: rest) = some (v, rest) := by
  induction v with
  | nil =>
    rw [List.flatMap_nil, List.nil_append, value?.eq_def]
    rfl
  | cons b v ih =>
    rw [List.flatMap_cons, List.append_assoc, value?_escaped, ih]
    rfl

theorem eq_of_value? (h : value? source = some (v, rest)) :
    source = v.flatMap escaped ++ singleQuote :: rest := by
  fun_induction value? source generalizing v with
  | case1 => cases h
  | case2 =>
    cases h
    rfl
  | case3 => cases h
  | case4 => cases h
  | case5 c later d found _ ih =>
    obtain ⟨⟨w, behind⟩, read, eq⟩ := Option.map_eq_some_iff.1 h
    cases eq
    rw [ih read, List.flatMap_cons, escaped_of_escape found]
    rfl
  | case6 => cases h
  | case7 b source noQuote noEscape noLineBreak ih =>
    obtain ⟨⟨w, behind⟩, read, eq⟩ := Option.map_eq_some_iff.1 h
    cases eq
    rw [not_or] at noLineBreak
    have plain : escaped b = [b] := escaped_eq (by simp [noQuote, noEscape, noLineBreak])
    rw [ih read, List.flatMap_cons, plain]
    rfl

theorem quoted_append (v rest : Text) :
    quoted v ++ rest = singleQuote :: (v.flatMap escaped ++ singleQuote :: rest) := by
  rw [quoted, List.append_assoc]
  rfl

/-- Exactly what is written for a value is read as that value. -/
theorem unquoted_eq_some_iff : unquoted source = some (v, rest) ↔ source = quoted v ++ rest := by
  rw [quoted_append]
  constructor
  · intro read
    cases source with
    | nil => cases read
    | cons b source =>
      rw [unquoted] at read
      split at read
      · rename_i quote
        rw [quote, eq_of_value? read]
      · cases read
  · rintro rfl
    exact value?_closed v rest

theorem quoted_append_inj (same : quoted v ++ x = quoted w ++ y) : v = w ∧ x = y := by
  have read : unquoted (quoted v ++ x) = some (v, x) := unquoted_eq_some_iff.2 rfl
  rw [unquoted_eq_some_iff.2 same] at read
  cases read
  exact ⟨rfl, rfl⟩

theorem not_lineBreak_of_quoted (mem : c ∈ quoted v) : c ≠ lineFeed ∧ c ≠ carriageReturn := by
  simp only [quoted, List.mem_append, List.mem_flatMap] at mem
  rcases mem with (quote | ⟨b, -, inside⟩) | quote
  · obtain rfl := List.mem_singleton.1 quote
    decide
  · exact not_lineBreak_of_escaped inside
  · obtain rfl := List.mem_singleton.1 quote
    decide

end SchemaTypes.Text
