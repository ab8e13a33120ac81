import SchemaTypes.Proofs.Results
import SchemaTypes.Proofs.TypeExpr.Lexing

/-!
# Texts one after the other

Where a text that has tokens is followed by one that goes on with none of its lexemes, the two are
read one after the other, each as by itself.
-/

namespace SchemaTypes.TypeExpr

open Text

/-- The token as many bytes further on. -/
def Token.shifted (n : Nat) (t : Token) : Token := { t with offset := n + t.offset }

/-- What comes next goes on with no word, no number and no mark that ends here. A literal ends with
its own delimiter. -/
def Seam (rest : Text) : Prop :=
  ∀ b ∈ rest.head?, continuesWord b = false ∧ b ≠ '.'.toUInt8 ∧ b ≠ '>'.toUInt8

variable {source rest : Text} {b : UInt8} {offset more : Nat} {ts : List Token}

theorem seam_cons (h : continuesWord b = false ∧ b ≠ '.'.toUInt8 ∧ b ≠ '>'.toUInt8) :
    Seam (b :: rest) := by
  intro c mem
  obtain rfl : b = c := by simpa using mem
  exact h

theorem templateExtent_escaped {depth : Nat} {c : UInt8} :
    templateExtent depth (backslash :: c :: rest) = (templateExtent depth rest).after 2 := by
  have noEnd : backslash ≠ backquote ∧ backslash ≠ 0 := by decide
  rw [templateExtent.eq_def]
  simp [noEnd]

theorem templateExtent_outside {c : UInt8} (noQuote : b ≠ backquote) (noEnd : b ≠ 0)
    (noEscape : b ≠ backslash) :
    templateExtent 0 (b :: c :: rest) =
      if b = '$'.toUInt8 ∧ c = '\x7b'.toUInt8 then (templateExtent 1 rest).after 2
      else (templateExtent 0 (c :: rest)).after 1 := by
  rw [templateExtent.eq_def]
  simp [noQuote, noEnd, noEscape]

theorem stringExtent_of_closed {quote : UInt8} (h : stringExtent quote source = .closed more) :
    more ≤ source.length ∧
      ∀ rest, stringExtent quote (source.take more ++ rest) = .closed more := by
  fun_induction stringExtent quote source generalizing more with
  | case1 | case3 | case4 => cases h
  | case2 source =>
    cases h
    refine ⟨by simp, fun rest => ?_⟩
    rw [List.take_succ_cons, List.take_zero, List.cons_append, stringExtent.eq_def]
    exact if_pos rfl
  | case5 c later noQuote _ ih =>
    obtain ⟨m, closed, rfl⟩ := after_eq_closed h
    obtain ⟨short, same⟩ := ih closed
    refine ⟨Nat.add_le_add_right short 2, fun rest => ?_⟩
    rw [List.take_succ_cons, List.take_succ_cons, List.cons_append, List.cons_append,
      stringExtent_escaped noQuote, same, after_closed]
  | case6 b source noQuote noEnd noEscape ih =>
    obtain ⟨m, closed, rfl⟩ := after_eq_closed h
    obtain ⟨short, same⟩ := ih closed
    refine ⟨Nat.add_le_add_right short 1, fun rest => ?_⟩
    rw [List.take_succ_cons, List.cons_append, stringExtent_cons noQuote (not_or.1 noEnd) noEscape,
      same, after_closed]

theorem templateExtent_of_closed {depth : Nat} (h : templateExtent depth source = .closed more) :
    more ≤ source.length ∧
      ∀ rest, templateExtent depth (source.take more ++ rest) = .closed more := by
  fun_induction templateExtent depth source generalizing more with
  | case1 | case3 | case4 | case6 => cases h
  | case2 depth b source closes =>
    cases h
    refine ⟨by simp, fun rest => ?_⟩
    rw [List.take_succ_cons, List.take_zero, List.cons_append, templateExtent.eq_def]
    exact if_pos closes
  | case5 depth c later _ _ ih =>
    obtain ⟨m, closed, rfl⟩ := after_eq_closed h
    obtain ⟨short, same⟩ := ih closed
    refine ⟨Nat.add_le_add_right short 2, fun rest => ?_⟩
    rw [List.take_succ_cons, List.take_succ_cons, List.cons_append, List.cons_append,
      templateExtent_escaped, same, after_closed]
  | case7 b noEnd noEscape c later opens noQuote ih =>
    obtain ⟨m, closed, rfl⟩ := after_eq_closed h
    obtain ⟨short, same⟩ := ih closed
    refine ⟨Nat.add_le_add_right short 2, fun rest => ?_⟩
    rw [List.take_succ_cons, List.take_succ_cons, List.cons_append, List.cons_append,
      templateExtent_outside (fun quote => noQuote ⟨rfl, quote⟩) noEnd noEscape, if_pos opens,
      same, after_closed]
  | case8 b noEnd noEscape c later plain noQuote ih =>
    obtain ⟨m, closed, rfl⟩ := after_eq_closed h
    obtain ⟨short, same⟩ := ih closed
    refine ⟨Nat.add_le_add_right short 1, fun rest => ?_⟩
    cases m with
    | zero => cases same []
    | succ m =>
      have same := same rest
      rw [List.take_succ_cons, List.cons_append] at same
      rw [List.take_succ_cons, List.take_succ_cons, List.cons_append, List.cons_append,
        templateExtent_outside (fun quote => noQuote ⟨rfl, quote⟩) noEnd noEscape, if_neg plain,
        same, after_closed]
  | case9 depth source inside _ noEnd noEscape ih =>
    obtain ⟨m, closed, rfl⟩ := after_eq_closed h
    obtain ⟨short, same⟩ := ih closed
    refine ⟨Nat.add_le_add_right short 1, fun rest => ?_⟩
    rw [List.take_succ_cons, List.cons_append, templateExtent_inside inside noEnd noEscape,
      if_pos rfl, same, after_closed]
  | case10 depth source inside _ noEnd noEscape noOpening ih =>
    obtain ⟨m, closed, rfl⟩ := after_eq_closed h
    obtain ⟨short, same⟩ := ih closed
    refine ⟨Nat.add_le_add_right short 1, fun rest => ?_⟩
    rw [List.take_succ_cons, List.cons_append, templateExtent_inside inside noEnd noEscape,
      if_neg noOpening, if_pos rfl, same, after_closed]
  | case11 depth b source _ noEnd noEscape inside noOpening noClosing ih =>
    obtain ⟨m, closed, rfl⟩ := after_eq_closed h
    obtain ⟨short, same⟩ := ih closed
    refine ⟨Nat.add_le_add_right short 1, fun rest => ?_⟩
    rw [List.take_succ_cons, List.cons_append, templateExtent_inside inside noEnd noEscape,
      if_neg noOpening, if_neg noClosing, same, after_closed]

theorem lexeme_string (quote : b = singleQuote ∨ b = doubleQuote)
    (closed : stringExtent b source = .closed more) (rest : Text) :
    lexeme b (source.take more ++ rest) = .ok (.string (b :: source.take more), more) := by
  obtain ⟨short, same⟩ := stringExtent_of_closed closed
  have length : (source.take more).length = more := List.length_take_of_le short
  rw [lexeme_of_quote quote, same, literal, List.take_left' length]

theorem lexeme_template (closed : templateExtent 0 source = .closed more) (rest : Text) :
    lexeme backquote (source.take more ++ rest) =
      .ok (.template (backquote :: source.take more), more) := by
  obtain ⟨short, same⟩ := templateExtent_of_closed closed
  have length : (source.take more).length = more := List.length_take_of_le short
  rw [lexeme_of_backquote, same, literal, List.take_left' length]

theorem isPrefixOf_mark (seam : Seam rest) (m : Mark) :
    m.text.isPrefixOf (b :: (source ++ rest)) = m.text.isPrefixOf (b :: source) := by
  have noPoint (b : UInt8) (mem : b ∈ rest.head?) : ('.'.toUInt8 == b) = false :=
    beq_eq_false_iff_ne.2 (seam b mem).2.1.symm
  have noGreater (b : UInt8) (mem : b ∈ rest.head?) : ('>'.toUInt8 == b) = false :=
    beq_eq_false_iff_ne.2 (seam b mem).2.2.symm
  cases m
  case arrow =>
    show ['='.toUInt8, '>'.toUInt8].isPrefixOf _ = ['='.toUInt8, '>'.toUInt8].isPrefixOf _
    rcases source with _ | ⟨c, source⟩
    · rcases rest with _ | ⟨c, rest⟩
      · rfl
      · simp [List.isPrefixOf, noGreater c rfl]
    · rfl
  case ellipsis =>
    show ['.'.toUInt8, '.'.toUInt8, '.'.toUInt8].isPrefixOf _ =
      ['.'.toUInt8, '.'.toUInt8, '.'.toUInt8].isPrefixOf _
    rcases source with _ | ⟨c, _ | ⟨d, source⟩⟩
    · rcases rest with _ | ⟨c, rest⟩
      · rfl
      · simp [List.isPrefixOf, noPoint c rfl]
    · rcases rest with _ | ⟨d, rest⟩
      · rfl
      · simp [List.isPrefixOf, noPoint d rfl]
    · rfl
  all_goals rfl

theorem mark?_append (seam : Seam rest) : mark? (b :: (source ++ rest)) = mark? (b :: source) := by
  unfold mark?
  simp only [isPrefixOf_mark seam]

/-- A lexeme is the same whatever comes behind the text that it is in. -/
theorem lexeme_append (seam : Seam rest) {l : Lexeme} (read : lexeme b source = .ok (l, more)) :
    lexeme b (source ++ rest) = .ok (l, more) ∧ more ≤ source.length := by
  have noWord : ∀ b ∈ rest.head?, continuesWord b = false := fun b mem => (seam b mem).1
  have noNumber : ∀ b ∈ rest.head?, continuesNumber b = false := by
    intro b mem
    obtain ⟨word, point, -⟩ := seam b mem
    have noDigit : isDigit b = false := (Bool.or_eq_false_iff.1 word).2
    simp [continuesNumber, noDigit, point]
  have whole : source ++ rest = source.take more ++ (source.drop more ++ rest) := by
    rw [← List.append_assoc, List.take_append_drop]
  rcases lexeme_eq_ok read with ⟨starts, rfl, rfl⟩ | ⟨digit, rfl, rfl⟩ | ⟨quote, closed, rfl⟩ |
    ⟨rfl, closed, rfl⟩ | ⟨m, rfl, found, rfl⟩
  · rw [lexeme_of_startsWord starts, takeWhile_append noWord]
    exact ⟨rfl, (List.takeWhile_prefix _).length_le⟩
  · rw [lexeme_of_digit digit, takeWhile_append noNumber]
    exact ⟨rfl, (List.takeWhile_prefix _).length_le⟩
  · rw [whole]
    exact ⟨lexeme_string quote closed _, (stringExtent_of_closed closed).1⟩
  · rw [whole]
    exact ⟨lexeme_template closed _, (templateExtent_of_closed closed).1⟩
  · exact ⟨lexeme_of_mark ((mark?_append seam).trans found), (text_of_mark? found).2⟩

theorem more_le_of_lexeme {l : Lexeme} (read : lexeme b source = .ok (l, more)) :
    more ≤ source.length :=
  (lexeme_append (by simp [Seam] : Seam []) read).2

/-- Two texts are read one after the other. -/
theorem tokensFrom_append (seam : Seam rest) (read : tokensFrom offset source = .ok ts) :
    tokensFrom offset (source ++ rest) =
      (tokensFrom (offset + source.length) rest).map (ts ++ ·) := by
  fun_induction tokensFrom offset source generalizing ts with
  | case1 offset =>
    cases read
    show tokensFrom offset rest = (tokensFrom offset rest).map ([] ++ ·)
    cases tokensFrom offset rest <;> rfl
  | case2 offset b source blank ih =>
    rw [List.cons_append, tokensFrom_blank blank, ih read, List.length_cons, Nat.add_right_comm,
      Nat.add_assoc]
  | case3 => cases read
  | case4 offset b source visible l more found ih =>
    obtain ⟨later, tail, rfl⟩ := map_eq_ok.1 read
    obtain ⟨same, short⟩ := lexeme_append seam found
    have length : offset + 1 + more + (source.drop more).length =
        offset + (b :: source).length := by
      rw [List.length_drop, List.length_cons]
      omega
    rw [List.cons_append, tokensFrom_next (by simpa using visible) same,
      List.drop_append_of_le_length short, ih tail, length]
    cases tokensFrom (offset + (b :: source).length) rest <;> rfl

theorem tokensFrom_shift (n : Nat) (read : tokensFrom offset source = .ok ts) :
    tokensFrom (n + offset) source = .ok (ts.map (·.shifted n)) := by
  fun_induction tokensFrom offset source generalizing ts with
  | case1 offset =>
    cases read
    exact tokensFrom_nil _
  | case2 offset b source blank ih => rw [tokensFrom_blank blank, Nat.add_assoc, ih read]
  | case3 => cases read
  | case4 offset b source visible l more found ih =>
    obtain ⟨later, tail, rfl⟩ := map_eq_ok.1 read
    rw [tokensFrom_next (by simpa using visible) found, Nat.add_assoc, Nat.add_assoc,
      ← Nat.add_assoc offset, ih tail]
    rfl

end SchemaTypes.TypeExpr
