import SchemaTypes.Proofs.Text.Quoting
import SchemaTypes.TypeExpr.Lexer

namespace SchemaTypes.TypeExpr

open Text

/-- A text falls into lexemes, up to a rest. -/
inductive Lexes : Text → List Lexeme → Text → Prop where
  | done {rest} : Lexes rest [] rest
  | blank {b source ls rest} : isBlank b = true → Lexes source ls rest →
      Lexes (b :: source) ls rest
  | next {b source l more ls rest} : isBlank b = false → lexeme b source = .ok (l, more) →
      Lexes (source.drop more) ls rest → Lexes (b :: source) (l :: ls) rest

/-- What comes next is no part of a word that ends here. -/
def Stops (rest : Text) : Prop := ∀ b ∈ rest.head?, continuesWord b = false

/-- A letter, `_` or `$`, then any number of these and of digits. -/
def isWord : Text → Bool
  | [] => false
  | b :: rest => startsWord b && rest.all continuesWord

/-- Whether a mark is one byte that begins no longer mark. -/
def Mark.standsAlone : Mark → Bool
  | equals | dot | arrow | ellipsis => false
  | _ => true

variable {source middle rest text w : Text} {ls ms : List Lexeme} {b c : UInt8}

theorem stops_nil : Stops [] := by
  intro b mem
  cases mem

theorem stops_cons (h : continuesWord b = false) : Stops (b :: rest) := by
  intro c mem
  obtain rfl : b = c := by simpa using mem
  exact h

theorem ne_of_continuesWord (h : continuesWord b = true) (other : continuesWord c = false) :
    b ≠ c := by
  rintro rfl
  rw [h] at other
  cases other

theorem not_blank_of_continuesWord (h : continuesWord b = true) : isBlank b = false := by
  have noSpace : b ≠ space := ne_of_continuesWord h (by decide)
  have noTab : b ≠ tab := ne_of_continuesWord h (by decide)
  have noLineFeed : b ≠ lineFeed := ne_of_continuesWord h (by decide)
  have noCarriageReturn : b ≠ carriageReturn := ne_of_continuesWord h (by decide)
  simp [isBlank, noSpace, noTab, noLineFeed, noCarriageReturn]

theorem continuesWord_of_isWord (word : isWord w = true) : ∀ b ∈ w, continuesWord b = true := by
  cases w with
  | nil => cases word
  | cons b more =>
    simp only [isWord, Bool.and_eq_true, List.all_eq_true] at word
    intro c mem
    rcases List.mem_cons.1 mem with rfl | later
    · simp [continuesWord, word.1]
    · exact word.2 c later

theorem startsWord_of_digit (digit : isDigit b = true) : startsWord b = false := by
  have bounds : 48 ≤ b.toNat ∧ b.toNat ≤ 57 := by
    simp only [isDigit, Bool.and_eq_true, decide_eq_true_eq, UInt8.le_iff_toNat_le] at digit
    exact digit
  have noSign : b ≠ '_'.toUInt8 ∧ b ≠ '$'.toUInt8 := by
    constructor <;> rintro rfl <;> exact absurd digit (by decide)
  have noLetter : isLetter b = false := by
    rw [← Bool.not_eq_true]
    intro letter
    simp only [isLetter, Bool.or_eq_true, Bool.and_eq_true, decide_eq_true_eq,
      UInt8.le_iff_toNat_le] at letter
    have letter : 97 ≤ b.toNat ∧ b.toNat ≤ 122 ∨ 65 ≤ b.toNat ∧ b.toNat ≤ 90 := letter
    omega
  simp [startsWord, noLetter, noSign]

theorem quoted_of_continuesWord (plain : ∀ b ∈ text, continuesWord b = true) :
    quoted text = "'" ++ text ++ "'" := by
  refine quoted_eq fun b mem special => ?_
  have none : [singleQuote, backslash, lineFeed, carriageReturn].all (!continuesWord ·) = true := by
    decide
  have other : continuesWord b = false := by simpa using List.all_eq_true.1 none b special
  exact ne_of_continuesWord (plain b mem) other rfl

theorem after_closed (k n : Nat) : (Extent.closed n).after k = .closed (n + k) :=
  congrArg Extent.closed (Nat.add_comm k n)

theorem after_eq_closed {k n : Nat} {e : Extent} (h : e.after k = .closed n) :
    ∃ m, e = .closed m ∧ n = m + k := by
  cases e with
  | closed m =>
    cases h
    exact ⟨m, rfl, Nat.add_comm k m⟩
  | unclosed m => cases h

theorem stringExtent_cons {quote : UInt8} (noQuote : b ≠ quote) (noEnd : b ≠ 0 ∧ b ≠ lineFeed)
    (noEscape : b ≠ backslash) :
    stringExtent quote (b :: rest) = (stringExtent quote rest).after 1 := by
  rw [stringExtent.eq_def]
  simp [noQuote, noEnd, noEscape]

theorem stringExtent_escaped {quote c : UInt8} (noQuote : backslash ≠ quote) :
    stringExtent quote (backslash :: c :: rest) = (stringExtent quote rest).after 2 := by
  have noEnd : backslash ≠ 0 ∧ backslash ≠ lineFeed := by decide
  rw [stringExtent.eq_def]
  simp [noQuote, noEnd]

theorem stringExtent_written (noNul : b ≠ 0) (t : Text) :
    stringExtent singleQuote (escaped b ++ t) =
      (stringExtent singleQuote t).after (escaped b).length := by
  rcases escaped_cases b with ⟨plain, eq⟩ | ⟨c, -, eq⟩
  · simp only [List.mem_cons, List.not_mem_nil, or_false, not_or] at plain
    obtain ⟨noQuote, noEscape, noLineFeed, -⟩ := plain
    rw [eq]
    exact stringExtent_cons noQuote ⟨noNul, noLineFeed⟩ noEscape
  · rw [eq]
    exact stringExtent_escaped (by decide)

/-- The literal of a value reaches up to its closing quote. -/
theorem stringExtent_quoted (nulFree : 0 ∉ text) (rest : Text) :
    stringExtent singleQuote ((text.flatMap escaped ++ "'") ++ rest) =
      .closed (text.flatMap escaped ++ "'").length := by
  induction text with
  | nil =>
    show stringExtent singleQuote (singleQuote :: rest) = _
    rw [stringExtent.eq_def]
    rfl
  | cons b text ih =>
    obtain ⟨noNul, later⟩ := not_or.1 (List.mem_cons.not.1 nulFree)
    have length : (escaped b ++ (text.flatMap escaped ++ "'")).length =
        (text.flatMap escaped ++ "'").length + (escaped b).length := by
      rw [List.length_append, Nat.add_comm]
    rw [List.flatMap_cons, List.append_assoc (escaped b), List.append_assoc (escaped b),
      stringExtent_written (Ne.symm noNul), ih later, after_closed, length]

theorem templateExtent_inside {depth : Nat} (inside : depth ≠ 0) (noEnd : b ≠ 0)
    (noEscape : b ≠ backslash) :
    templateExtent depth (b :: rest) =
      if b = '\x7b'.toUInt8 then (templateExtent (depth + 1) rest).after 1
      else if b = '\x7d'.toUInt8 then (templateExtent (depth - 1) rest).after 1
      else (templateExtent depth rest).after 1 := by
  rw [templateExtent.eq_def]
  simp [inside, noEnd, noEscape]

theorem templateExtent_words (plain : ∀ b ∈ text, continuesWord b = true) (rest : Text) :
    templateExtent 1 (text ++ "\x7d`" ++ rest) = .closed (text ++ "\x7d`").length := by
  induction text with
  | nil =>
    have closed : templateExtent 0 (backquote :: rest) = .closed 1 := by
      rw [templateExtent.eq_def]
      exact if_pos ⟨rfl, rfl⟩
    show templateExtent 1 ('\x7d'.toUInt8 :: backquote :: rest) = _
    rw [templateExtent_inside (by decide) (by decide) (by decide), if_neg (by decide), if_pos rfl,
      closed]
    rfl
  | cons b text ih =>
    obtain ⟨first, later⟩ := List.forall_mem_cons.1 plain
    have noNul : b ≠ 0 := ne_of_continuesWord first (by decide)
    have noEscape : b ≠ backslash := ne_of_continuesWord first (by decide)
    have noOpening : b ≠ '\x7b'.toUInt8 := ne_of_continuesWord first (by decide)
    have noClosing : b ≠ '\x7d'.toUInt8 := ne_of_continuesWord first (by decide)
    rw [List.cons_append, List.cons_append, templateExtent_inside (by decide) noNul noEscape,
      if_neg noOpening, if_neg noClosing, ih later, Extent.after, List.length_cons, Nat.add_comm]

theorem templateExtent_interpolation (plain : ∀ b ∈ text, continuesWord b = true) (rest : Text) :
    templateExtent 0 ("$\x7b" ++ (text ++ "\x7d`") ++ rest) =
      .closed ("$\x7b" ++ (text ++ "\x7d`")).length := by
  have ordinary : '$'.toUInt8 ≠ backquote ∧ '$'.toUInt8 ≠ 0 ∧ '$'.toUInt8 ≠ backslash := by decide
  have opens (later : Text) :
      templateExtent 0 ("$\x7b" ++ later) = (templateExtent 1 later).after 2 := by
    show templateExtent 0 ('$'.toUInt8 :: '\x7b'.toUInt8 :: later) = _
    rw [templateExtent.eq_def]
    simp [ordinary]
  have length : ("$\x7b" ++ (text ++ "\x7d`") : Text).length = 2 + (text ++ "\x7d`").length := by
    rw [List.length_append]
    rfl
  rw [List.append_assoc, opens, templateExtent_words plain, length]
  rfl

/-! ## Steps of reading -/

theorem literal_eq_ok {kind : Text → Lexeme} {cause : Cause} {opening : UInt8} {rest : Text}
    {extent : Extent} {l : Lexeme} {more : Nat}
    (h : literal kind cause opening rest extent = .ok (l, more)) :
    extent = .closed more ∧ l = kind (opening :: rest.take more) := by
  cases extent with
  | closed n =>
    cases h
    exact ⟨rfl, rfl⟩
  | unclosed n => cases h

theorem text_of_mark? {rest : Text} {m : Mark} (found : mark? (b :: rest) = some m) :
    m.text = b :: rest.take (m.text.length - 1) ∧ m.text.length - 1 ≤ rest.length := by
  have starts : m.text.isPrefixOf (b :: rest) = true :=
    List.find?_some (p := fun m : Mark => m.text.isPrefixOf (b :: rest)) found
  obtain ⟨t, whole⟩ := List.isPrefixOf_iff_prefix.1 starts
  have nonempty : m.text ≠ [] := by cases m <;> decide
  obtain ⟨c, u, eq⟩ := List.exists_cons_of_ne_nil nonempty
  rw [eq, List.cons_append] at whole
  obtain ⟨rfl, rfl⟩ := List.cons.inj whole
  simp [eq]

theorem lexeme_eq_ok {b : UInt8} {rest : Text} {l : Lexeme} {more : Nat}
    (h : lexeme b rest = .ok (l, more)) :
    (startsWord b = true ∧ l = .word (b :: rest.takeWhile continuesWord) ∧
      more = (rest.takeWhile continuesWord).length) ∨
    (isDigit b = true ∧ l = .number (b :: rest.takeWhile continuesNumber) ∧
      more = (rest.takeWhile continuesNumber).length) ∨
    ((b = singleQuote ∨ b = doubleQuote) ∧ stringExtent b rest = .closed more ∧
      l = .string (b :: rest.take more)) ∨
    (b = backquote ∧ templateExtent 0 rest = .closed more ∧ l = .template (b :: rest.take more)) ∨
    ∃ m, l = .mark m ∧ mark? (b :: rest) = some m ∧ more = m.text.length - 1 := by
  unfold lexeme at h
  split at h
  · rename_i starts
    cases h
    exact .inl ⟨starts, rfl, rfl⟩
  · split at h
    · rename_i digit
      cases h
      exact .inr (.inl ⟨digit, rfl, rfl⟩)
    · split at h
      · rename_i quote
        obtain ⟨closed, rfl⟩ := literal_eq_ok h
        exact .inr (.inr (.inl ⟨quote, closed, rfl⟩))
      · split at h
        · rename_i quote
          obtain ⟨closed, rfl⟩ := literal_eq_ok h
          exact .inr (.inr (.inr (.inl ⟨quote, closed, rfl⟩)))
        · split at h
          · rename_i m found
            cases h
            exact .inr (.inr (.inr (.inr ⟨m, rfl, found, rfl⟩)))
          · cases h

/-! The first byte of a lexeme tells which of these ways it is read. -/

theorem lexeme_of_startsWord (starts : startsWord b = true) : lexeme b source =
    .ok (.word (b :: source.takeWhile continuesWord), (source.takeWhile continuesWord).length) :=
  if_pos starts

theorem lexeme_of_digit (digit : isDigit b = true) : lexeme b source =
    .ok (.number (b :: source.takeWhile continuesNumber),
      (source.takeWhile continuesNumber).length) := by
  rw [lexeme, if_neg (by simp [startsWord_of_digit digit]), if_pos digit]

theorem lexeme_of_quote (quote : b = singleQuote ∨ b = doubleQuote) :
    lexeme b source = literal .string .unterminatedString b source (stringExtent b source) := by
  rcases quote with rfl | rfl <;> rfl

theorem lexeme_quoted (nulFree : 0 ∉ text) (rest : Text) :
    lexeme singleQuote ((text.flatMap escaped ++ "'") ++ rest) =
      .ok (.string (quoted text), (text.flatMap escaped ++ "'").length) := by
  rw [lexeme_of_quote (.inl rfl), stringExtent_quoted nulFree, literal, List.take_left]
  rfl

theorem lexeme_of_backquote : lexeme backquote source =
    literal .template .unterminatedTemplate backquote source (templateExtent 0 source) := rfl

theorem lexeme_of_mark {m : Mark} (found : mark? (b :: source) = some m) :
    lexeme b source = .ok (.mark m, m.text.length - 1) := by
  have first : b = m.text.head?.getD 0 := by rw [(text_of_mark? found).1]; rfl
  have other : startsWord b = false ∧ isDigit b = false ∧ ¬ (b = singleQuote ∨ b = doubleQuote) ∧
      b ≠ backquote := by
    rw [first]
    cases m <;> decide
  obtain ⟨noWord, noDigit, noQuote, noTemplate⟩ := other
  rw [lexeme, if_neg (by simp [noWord]), if_neg (by simp [noDigit]), if_neg noQuote,
    if_neg noTemplate, found]

theorem tokensFrom_nil (offset : Nat) : tokensFrom offset [] = .ok [] := by rw [tokensFrom]

theorem tokensFrom_blank {offset : Nat} (blank : isBlank b = true) :
    tokensFrom offset (b :: source) = tokensFrom (offset + 1) source := by
  rw [tokensFrom, if_pos blank]

theorem tokensFrom_next {offset more : Nat} {l : Lexeme} (visible : isBlank b = false)
    (read : lexeme b source = .ok (l, more)) : tokensFrom offset (b :: source) =
      (tokensFrom (offset + 1 + more) (source.drop more)).map (⟨l, offset⟩ :: ·) := by
  rw [tokensFrom, if_neg (by simp [visible]), read]

namespace Lexes

theorem append (first : Lexes source ls middle) (last : Lexes middle ms rest) :
    Lexes source (ls ++ ms) rest := by
  induction first with
  | done => exact last
  | blank blank _ ih => exact .blank blank (ih last)
  | next visible read _ ih => exact .next visible read (ih last)

theorem single {more : Text} {l : Lexeme} (visible : isBlank b = false)
    (read : lexeme b (more ++ rest) = .ok (l, more.length)) :
    Lexes (b :: (more ++ rest)) [l] rest := by
  refine .next visible read ?_
  rw [List.drop_left]
  exact .done

theorem word (word : isWord w = true) (stops : Stops rest) : Lexes (w ++ rest) [.word w] rest := by
  have continues := continuesWord_of_isWord word
  cases w with
  | nil => cases word
  | cons b more =>
    obtain ⟨first, later⟩ := List.forall_mem_cons.1 continues
    have starts : startsWord b = true := by simp_all [isWord]
    have read : lexeme b (more ++ rest) = .ok (.word (b :: more), more.length) := by
      rw [lexeme_of_startsWord starts, takeWhile_append_of_stops later stops]
    exact single (not_blank_of_continuesWord first) read

/-- The literal of a value without NUL bytes is one string literal. -/
theorem quoted (nulFree : 0 ∉ text) (rest : Text) :
    Lexes (quoted text ++ rest) [.string (quoted text)] rest :=
  single rfl (lexeme_quoted nulFree rest)

theorem string (plain : ∀ b ∈ text, continuesWord b = true) (rest : Text) :
    Lexes ("'" ++ text ++ "'" ++ rest) [.string ("'" ++ text ++ "'")] rest := by
  have nulFree : 0 ∉ text := fun mem => absurd (plain 0 mem) (by decide)
  rw [← quoted_of_continuesWord plain]
  exact quoted nulFree rest

theorem template (plain : ∀ b ∈ text, continuesWord b = true) (rest : Text) :
    Lexes ("`$\x7b" ++ text ++ "\x7d`" ++ rest)
      [.template ("`$\x7b" ++ text ++ "\x7d`")] rest := by
  have read : lexeme backquote (("$\x7b" ++ (text ++ "\x7d`")) ++ rest) =
      .ok (.template ("`$\x7b" ++ text ++ "\x7d`"), ("$\x7b" ++ (text ++ "\x7d`")).length) := by
    rw [lexeme_of_backquote, templateExtent_interpolation plain, literal, List.take_left]
    rfl
  exact single rfl read

theorem mark (m : Mark) (alone : m.standsAlone = true) (rest : Text) :
    Lexes (m.text ++ rest) [.mark m] rest := by
  cases m <;> first
    | exact .next rfl rfl .done
    | cases alone

theorem tokensFrom (h : Lexes source ls rest) (empty : rest = []) (offset : Nat) :
    ∃ ts, tokensFrom offset source = .ok ts ∧ ts.map (·.lexeme) = ls := by
  induction h generalizing offset with
  | done =>
    subst empty
    exact ⟨[], tokensFrom_nil offset, rfl⟩
  | blank blank _ ih =>
    obtain ⟨ts, read, lexemes⟩ := ih empty (offset + 1)
    exact ⟨ts, by rw [tokensFrom_blank blank, read], lexemes⟩
  | @next b source l more ls rest visible read _ ih =>
    obtain ⟨ts, later, lexemes⟩ := ih empty (offset + 1 + more)
    refine ⟨⟨l, offset⟩ :: ts, ?_, by rw [List.map_cons, lexemes]⟩
    rw [tokensFrom_next visible read, later]
    rfl

end Lexes

end SchemaTypes.TypeExpr
