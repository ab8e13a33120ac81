import SchemaTypes.Proofs.Text.Bytes
import SchemaTypes.Proofs.TypeExpr.Coverage
import SchemaTypes.Proofs.TypeExpr.Progress

/-!
# Where errors of type expressions point

An error of the grammar points at a lexeme or at the end of the source. An error of the lexer points
at a byte that starts no lexeme, at the line feed that a string literal runs into, or at the end of
the source, if a literal is open there. But an escape that the end cuts short counts as two bytes,
so that the error points past the end then.
-/

namespace SchemaTypes.TypeExpr

open Text

/-- How many backslashes a text ends with. -/
def trailingBackslashes (t : Text) : Nat := (t.reverse.takeWhile (· == backslash)).length

/-- If a literal has no closing delimiter, reading stops at a line feed, which only a string does,
or at the end of the text. An escape that is cut short there counts as two bytes. -/
def RunsOut (string : Prop) (rest : Text) (extent : Extent) : Prop :=
  ∀ n, extent = .unclosed n →
    (string ∧ rest[n]? = some lineFeed) ∨ n = rest.length + trailingBackslashes rest % 2

/-- A literal opens where a lexeme is to be read, and it is still open at the end of the source. -/
def OpenAtEnd (source : Text) : Prop :=
  ∃ n place opening rest read, Steps (ReadRound source) n 0 place ∧
    source.drop place = opening :: rest ∧ opening ∈ delimiters ∧
    literalExtent opening rest = .unclosed read ∧ rest.length ≤ read

variable {source rest later : Text} {b c opening quote : UInt8} {string : Prop}
  {n cursor place depth : Nat} {e : SyntaxError} {lexemes ahead : List Lexeme} {cause : Cause}
  {extent : Extent}

theorem trailingBackslashes_append (front : Text) (noEscape : b ≠ backslash) :
    trailingBackslashes (front ++ b :: rest) = trailingBackslashes rest := by
  have stops : ∀ c ∈ (b :: front.reverse).head?, (c == backslash) = false := by
    simp [noEscape]
  rw [trailingBackslashes, List.reverse_append, List.reverse_cons, List.append_assoc,
    List.singleton_append, takeWhile_append stops, trailingBackslashes]

theorem trailingBackslashes_cons :
    trailingBackslashes (b :: rest) =
      if trailingBackslashes rest = rest.length ∧ b = backslash then rest.length + 1
      else trailingBackslashes rest := by
  rw [trailingBackslashes, List.reverse_cons, List.takeWhile_append]
  by_cases all : trailingBackslashes rest = rest.length
  · rw [if_pos (by simpa [trailingBackslashes] using all)]
    by_cases escape : b = backslash <;> simp [all, escape]
  · rw [if_neg (by simpa [trailingBackslashes] using all), if_neg fun both => all both.1,
      trailingBackslashes]

theorem trailingBackslashes_le : trailingBackslashes rest ≤ rest.length := by
  have short := (List.takeWhile_prefix (l := rest.reverse) (· == backslash)).length_le
  rwa [List.length_reverse] at short

/-- A backslash and the byte that it escapes leave it to the rest whether the last one escapes. -/
theorem trailingBackslashes_escape :
    trailingBackslashes (backslash :: c :: later) % 2 = trailingBackslashes later % 2 := by
  have short : trailingBackslashes later ≤ later.length := trailingBackslashes_le
  simp only [trailingBackslashes_cons, List.length_cons, and_true]
  split_ifs <;> omega

theorem after_eq_unclosed {width : Nat} (h : extent.after width = .unclosed n) :
    ∃ m, extent = .unclosed m ∧ n = width + m := by
  cases extent with
  | closed m => cases h
  | unclosed m =>
    cases h
    exact ⟨m, rfl, rfl⟩

theorem after_after (k m : Nat) : (extent.after m).after k = extent.after (k + m) := by
  cases extent <;> simp [Extent.after, Nat.add_assoc]

namespace RunsOut

theorem closed : RunsOut string rest (.closed n) := by
  rintro m ⟨⟩

theorem atEnd : RunsOut string [] (.unclosed 0) := by
  rintro m ⟨⟩
  exact .inr rfl

theorem atLine : RunsOut True (lineFeed :: rest) (.unclosed 0) := by
  rintro m ⟨⟩
  exact .inl ⟨trivial, rfl⟩

theorem cut : RunsOut string [backslash] (.unclosed 2) := by
  rintro m ⟨⟩
  exact .inr rfl

theorem plain (noEscape : b ≠ backslash) (h : RunsOut string rest extent) :
    RunsOut string (b :: rest) (extent.after 1) := by
  intro n ends
  obtain ⟨m, unclosed, rfl⟩ := after_eq_unclosed ends
  rcases h m unclosed with ⟨string, line⟩ | rfl
  · exact .inl ⟨string, by rwa [Nat.add_comm, List.getElem?_cons_succ]⟩
  · right
    have same : trailingBackslashes (b :: rest) = trailingBackslashes rest :=
      trailingBackslashes_append [] noEscape
    rw [same, List.length_cons]
    omega

theorem escape (h : RunsOut string later extent) :
    RunsOut string (backslash :: c :: later) (extent.after 2) := by
  intro n ends
  obtain ⟨m, unclosed, rfl⟩ := after_eq_unclosed ends
  rcases h m unclosed with ⟨string, line⟩ | rfl
  · exact .inl ⟨string, by rwa [Nat.add_comm, List.getElem?_cons_succ, List.getElem?_cons_succ]⟩
  · right
    rw [trailingBackslashes_escape, List.length_cons, List.length_cons]
    omega

end RunsOut

theorem string_runsOut (free : 0 ∉ rest) : RunsOut True rest (stringExtent quote rest) := by
  fun_induction stringExtent quote rest with
  | case1 => exact .atEnd
  | case2 => exact .closed
  | case3 b rest noQuote ends =>
    obtain rfl : b = lineFeed := ends.resolve_left fun nul => free (by simp [nul])
    exact .atLine
  | case4 => exact .cut
  | case5 c later noQuote noEnd ih => exact (ih (by simp_all)).escape
  | case6 b rest noQuote noEnd noEscape ih => exact (ih (by simp_all)).plain noEscape

theorem template_runsOut (free : 0 ∉ rest) : RunsOut False rest (templateExtent depth rest) := by
  fun_induction templateExtent depth rest with
  | case1 => exact .atEnd
  | case2 => exact .closed
  | case3 => simp at free
  | case4 => exact .cut
  | case5 depth c later _ _ ih => exact (ih (by simp_all)).escape
  | case6 b noEnd noEscape noQuote => exact RunsOut.atEnd.plain noEscape
  | case7 b noEnd noEscape c later opens noQuote ih =>
    have brace : c ≠ backslash := by
      rw [opens.2]
      decide
    have both := ((ih (by simp_all)).plain brace).plain noEscape
    rwa [after_after] at both
  | case8 b noEnd noEscape c later plain noQuote ih => exact (ih (by simp_all)).plain noEscape
  | case9 depth rest inside _ noEnd noEscape ih => exact (ih (by simp_all)).plain noEscape
  | case10 depth rest inside _ noEnd noEscape _ ih => exact (ih (by simp_all)).plain noEscape
  | case11 depth b rest _ noEnd noEscape _ _ _ ih => exact (ih (by simp_all)).plain noEscape

theorem literal_runsOut (opening : UInt8) (free : 0 ∉ rest) :
    RunsOut (opening ≠ backquote) rest (literalExtent opening rest) := by
  unfold literalExtent
  split
  · rename_i quote
    simpa only [quote, ne_eq, not_true_eq_false] using template_runsOut free
  · rename_i quote
    simpa only [quote, ne_eq, not_false_eq_true] using string_runsOut free

/-- The error of a source is that of what is still to be read, wherever reading has come to. -/
theorem tokensFrom_error_of_run (run : Steps (ReadRound source) n cursor place)
    (h : tokensFrom place (source.drop place) = .error e) :
    tokensFrom cursor (source.drop cursor) = .error e := by
  induction run with
  | none => exact h
  | first round _ ih =>
    have later := ih h
    cases round with
    | blank here blank =>
      rw [here, tokensFrom_blank blank, ← later]
      exact congrArg _ (drop_of_cons here 0).symm
    | lexeme here visible read =>
      rw [here, tokensFrom_next visible read, ← drop_of_cons here, later]
      rfl

theorem plain_of_delimiter (delimits : opening ∈ delimiters) :
    isBlank opening = false ∧ opening ≠ backslash := by
  have all : delimiters.all (fun b => !isBlank b && b != backslash) = true := by decide
  simpa using List.all_eq_true.1 all opening delimits

theorem trailingBackslashes_of_drop (here : source.drop place = opening :: rest)
    (delimits : opening ∈ delimiters) :
    trailingBackslashes source = trailingBackslashes rest := by
  rw [← List.take_append_drop place source, here]
  exact trailingBackslashes_append _ (plain_of_delimiter delimits).2

theorem nul_not_mem_of_drop (free : 0 ∉ source) (here : source.drop place = b :: rest) :
    0 ∉ rest := by
  intro mem
  refine free (List.mem_of_mem_drop (i := place) ?_)
  rw [here]
  exact .tail _ mem

/-- An error of the lexer points at the byte that is wrong, unless a literal is open at the end. -/
theorem lexer_points (free : 0 ∉ source) (h : tokens source = .error e) :
    (∃ b, source[e.offset]? = some b ∧
      (e.cause = .unexpectedByte b ∨ b = lineFeed ∧ e.cause = .unterminatedString)) ∨
    (OpenAtEnd source ∧ (e.cause = .unterminatedString ∨ e.cause = .unterminatedTemplate) ∧
      e.offset = source.length + trailingBackslashes source % 2) := by
  obtain ⟨n, place, run, result⟩ := exists_last_round (rfl : source.drop 0 = source) (Nat.zero_le _)
  rcases result with ⟨-, ts, made⟩ | ⟨opening, rest, cause, read, here, -, refused, made⟩
  · cases h.symm.trans made
  · cases h.symm.trans made
    have length := lt_length_of_drop here
    rcases lexeme_eq_error refused with ⟨rfl, rfl⟩ | ⟨delimits, m, unclosed, rfl, rfl⟩
    · refine .inl ⟨opening, ?_, .inl rfl⟩
      rw [Nat.add_zero, ← List.head?_drop, here, List.head?_cons]
    · rcases literal_runsOut opening (nul_not_mem_of_drop free here) m unclosed with
        ⟨string, line⟩ | atEnd
      · refine .inl ⟨lineFeed, ?_, .inr ⟨rfl, if_neg string⟩⟩
        rw [← List.getElem?_drop, here, Nat.add_comm, List.getElem?_cons_succ, line]
      · refine .inr ⟨⟨n, place, opening, rest, m, run, here, delimits, unclosed, by omega⟩, ?_, ?_⟩
        · unfold openCause
          split <;> simp
        · rw [trailingBackslashes_of_drop here delimits]
          dsimp only
          omega

theorem OpenAtEnd.tokens_eq_error (free : 0 ∉ source) (h : OpenAtEnd source) :
    ∃ cause, tokens source =
      .error ⟨cause, source.length + trailingBackslashes source % 2⟩ := by
  obtain ⟨n, place, opening, rest, read, run, here, delimits, unclosed, reaches⟩ := h
  have length := lt_length_of_drop here
  obtain ⟨kind, made⟩ := lexeme_of_delimiter delimits rest
  have refused : lexeme opening rest = .error (openCause opening, 1 + read) := by
    rw [made, unclosed, literal]
  have stops := literal_runsOut opening (nul_not_mem_of_drop free here) read unclosed
  have atEnd : read = rest.length + trailingBackslashes rest % 2 := by
    refine stops.resolve_left fun line => ?_
    have inside := (List.getElem?_eq_some_iff.1 line.2).1
    omega
  have offset : place + (1 + read) = source.length + trailingBackslashes source % 2 := by
    rw [trailingBackslashes_of_drop here delimits]
    omega
  refine ⟨openCause opening, tokensFrom_error_of_run run ?_⟩
  rw [here, tokensFrom, if_neg (by simp [(plain_of_delimiter delimits).1]), refused]
  dsimp only
  rw [offset]

theorem lexer_cause_free (free : 0 ∉ source) (h : tokens source = .error e) :
    0 ∉ e.cause.text := by
  rcases lexer_points free h with ⟨b, here, cause | ⟨-, cause⟩⟩ | ⟨-, cause | cause, -⟩ <;>
    rw [cause]
  · have other : b ≠ 0 := ne_of_mem_of_not_mem (List.mem_of_getElem? here) free
    have quotes : 0 ∉ ("unexpected character '" : Text) ∧ 0 ∉ ("'" : Text) := by decide
    simp [Cause.text, quotes, other.symm]
  all_goals decide

theorem refuse_cause_free {g : Goal} (h : g.predict ahead = .refuse cause) : 0 ∉ cause.text := by
  have marks : ∀ m, 0 ∉ (Cause.expectedMark m).text := by
    intro m
    cases m <;> decide
  have others : ∀ c ∈ [Cause.expectedIdentifier, .expectedType, .expectedPropertyName],
      0 ∉ c.text := by decide
  revert h
  fun_cases Goal.predict g ahead <;> rintro ⟨⟩ <;> first | exact marks _ | exact others _ (by simp)

theorem meet_cause_free {goals : List Goal} {failure : Goal.Failure}
    (h : Goal.meet goals ahead = .error failure) : 0 ∉ failure.cause.text := by
  fun_induction Goal.meet goals ahead with
  | case1 => cases h
  | case2 ahead g later first move ih => exact ih h
  | case3 ahead g later first move ih => exact ih h
  | case4 ahead g later cause move =>
    cases h
    exact refuse_cause_free move

/-- The recognizer fails at one of the lexemes or at their end, and cites no other text. -/
theorem recognize_eq_error {failure : Goal.Failure} (h : recognize lexemes = .error failure) :
    failure.rest <:+ lexemes ∧
    (0 ∉ failure.cause.text ∨ ∃ l ∈ lexemes, failure.cause = .unexpected l) := by
  unfold recognize at h
  split at h
  · cases h
    exact ⟨List.suffix_rfl, .inl (by decide)⟩
  · split at h
    · rename_i failed
      cases h
      exact ⟨Goal.suffix_of_failure failed, .inl (meet_cause_free failed)⟩
    · cases h
    · rename_i l rest met
      cases h
      have suffix := (Goal.suffix_of_meet met).1
      exact ⟨suffix, .inr ⟨l, suffix.subset (.head _), rfl⟩⟩

theorem check_eq_error (h : check source = .error e) :
    tokens source = .error e ∨ ∃ ts failure, tokens source = .ok ts ∧
      recognize (ts.map (·.lexeme)) = .error failure ∧
      e = ⟨failure.cause, offsetFromEnd ts source.length failure.rest.length⟩ := by
  unfold check at h
  split at h
  · rename_i read
    cases h
    exact .inl read
  · rename_i ts read
    split at h
    · cases h
    · rename_i failure failed
      cases h
      exact .inr ⟨ts, failure, read, failed, rfl⟩

theorem check_cause_free (free : 0 ∉ source) (h : check source = .error e) :
    0 ∉ e.cause.text := by
  rcases check_eq_error h with failed | ⟨ts, failure, read, failed, rfl⟩
  · exact lexer_cause_free free failed
  · rcases (recognize_eq_error failed).2 with plain | ⟨l, mem, cause⟩
    · exact plain
    · obtain ⟨t, inside, rfl⟩ := List.mem_map.1 mem
      have text := ((lossless_tokens read).texts t inside).2.2
      have noNul : 0 ∉ t.lexeme.text := by
        rw [← text]
        exact fun nul => free (List.mem_of_mem_drop (List.mem_of_mem_take nul))
      have quotes : 0 ∉ ("unexpected '" : Text) ∧ 0 ∉ ("'" : Text) := by decide
      simp [cause, Cause.text, quotes, noNul]

theorem message_of_free (h : 0 ∉ e.cause.text) :
    e.message = e.cause.text ++ " at offset " ++ decimal e.offset := by
  have words : 0 ∉ (" at offset " : Text) := by decide
  refine untilNul_of_free ?_
  simp only [List.mem_append, not_or]
  exact ⟨⟨h, words⟩, nul_not_mem_decimal _⟩

/-! ## Where errors point -/

theorem mem_places_of_check {ts : List Token} (h : check source = .error e)
    (read : tokens source = .ok ts) : e.offset ∈ places source ts := by
  rcases check_eq_error h with failed | ⟨us, failure, read', failed, rfl⟩
  · cases read.symm.trans failed
  · cases read.symm.trans read'
    have short := (recognize_eq_error failed).1.length_le
    rw [List.length_map] at short
    exact List.mem_of_getElem? (places_offsetFromEnd short)

theorem le_of_mem_places {ts : List Token} (read : tokens source = .ok ts)
    (mem : place ∈ places source ts) : place ≤ source.length := by
  rcases List.mem_append.1 mem with inside | atEnd
  · obtain ⟨t, token, rfl⟩ := List.mem_map.1 inside
    have stop := ((lossless_tokens read).texts t token).2.1
    exact (Nat.le_add_right ..).trans stop
  · exact (List.mem_singleton.1 atEnd).le

/-- **Errors point inside the source, unless a backslash at its end is behind an open literal.** The
message of a rejected source ends with the offset. If there are tokens, that is the offset of one of
them or the end of the source. If there are none, it is that of the wrong byte, or the end of the
source where a literal is open there; but then the offset is one more if the last backslash has
nothing to escape, and only then does an error point past the end. -/
theorem check_points (free : 0 ∉ source) (rejected : check source = .error e) :
    e.message = e.cause.text ++ " at offset " ++ decimal e.offset ∧
    (∀ ts, tokens source = .ok ts → e.offset ∈ places source ts) ∧
    (tokens source = .error e →
      (∃ b, source[e.offset]? = some b ∧
        (e.cause = .unexpectedByte b ∨ b = lineFeed ∧ e.cause = .unterminatedString)) ∨
      (OpenAtEnd source ∧ (e.cause = .unterminatedString ∨ e.cause = .unterminatedTemplate) ∧
        e.offset = source.length + trailingBackslashes source % 2)) ∧
    (e.offset ≤ source.length ↔ ¬ (OpenAtEnd source ∧ trailingBackslashes source % 2 = 1)) := by
  refine ⟨message_of_free (check_cause_free free rejected),
    fun ts read => mem_places_of_check rejected read, lexer_points free, ?_⟩
  constructor
  · rintro inside ⟨isOpen, odd⟩
    obtain ⟨cause, failed⟩ := isOpen.tokens_eq_error free
    rcases check_eq_error rejected with same | ⟨ts, failure, read, -⟩
    · cases failed.symm.trans same
      dsimp only at inside
      omega
    · cases failed.symm.trans read
  · intro noCut
    rcases check_eq_error rejected with failed | ⟨ts, failure, read, -⟩
    · rcases lexer_points free failed with ⟨b, here, -⟩ | ⟨isOpen, -, offset⟩
      · exact (List.getElem?_eq_some_iff.1 here).1.le
      · have even := mt (And.intro isOpen) noCut
        omega
    · exact le_of_mem_places read (mem_places_of_check rejected read)

/-- A bar where an intersection is wanted is the lexeme that is pointed at. -/
theorem check_points_at_bar :
    check "T | | null" = .error ⟨.expectedType, 4⟩ ∧
    (⟨.expectedType, 4⟩ : SyntaxError).message = "expected a type at offset 4" ∧
    4 ≤ ("T | | null" : Text).length := by
  have free : 0 ∉ ("T | | null" : Text) := by decide
  have rejected : check "T | | null" = .error ⟨.expectedType, 4⟩ :=
    error?_eq_some_iff.1 (by decide +kernel)
  obtain ⟨message, -, -, inside⟩ := check_points free rejected
  exact ⟨rejected, message, inside.2 fun cut => absurd cut.2 (by decide)⟩

/-- An open string of one backslash has two bytes, and its error points one past their end. -/
theorem check_points_past_backslash :
    0 ∉ ("'\\" : Text) ∧ ("'\\" : Text).length = 2 ∧
    check "'\\" = .error ⟨.unterminatedString, 3⟩ ∧
    (⟨.unterminatedString, 3⟩ : SyntaxError).message =
      "unterminated string literal at offset 3" :=
  ⟨by decide, by decide, error?_eq_some_iff.1 (by decide +kernel), by decide⟩

end SchemaTypes.TypeExpr
