import SchemaTypes.Proofs.Steps
import SchemaTypes.Proofs.TypeExpr.Seams

/-!
# Reading with a cursor

Lexemes are read by loops that move a cursor on. An escape at the very end of a text takes the
cursor past it, where only NUL bytes are seen; no round of a loop starts there, so every loop ends.
-/

namespace SchemaTypes.TypeExpr

open Text

/-- The byte at a cursor. From the end of the text on there are NUL bytes only. -/
def byteAt (text : Text) (cursor : Nat) : UInt8 := text.getD cursor 0

/-- The bytes that open a literal. -/
abbrev delimiters : Text := [singleQuote, doubleQuote, backquote]

/-- One look at a literal behind its opening delimiter, inside `depth` braces of an interpolation:
by how many bytes to move on and how many braces are open then, or nothing where reading ends. Only
template literals have interpolations, and only string literals end at a line feed. -/
def scan (opening : UInt8) (depth : Nat) (b next : UInt8) : Option (Nat × Nat) :=
  if depth = 0 ∧ b = opening then none
  else if b = 0 ∨ opening ≠ backquote ∧ b = lineFeed then none
  else if b = backslash then some (2, depth)
  else if opening ≠ backquote then some (1, depth)
  else if depth = 0 then
    if b = '$'.toUInt8 ∧ next = '\x7b'.toUInt8 then some (2, 1) else some (1, 0)
  else if b = '\x7b'.toUInt8 then some (1, depth + 1)
  else if b = '\x7d'.toUInt8 then some (1, depth - 1)
  else some (1, depth)

/-- One round of reading a literal: the cursor and the depth before it and after it. -/
inductive ScanRound (opening : UInt8) (text : Text) : Nat × Nat → Nat × Nat → Prop where
  | move {cursor depth width inside} :
      scan opening depth (byteAt text cursor) (byteAt text (cursor + 1)) = some (width, inside) →
      ScanRound opening text (cursor, depth) (cursor + width, inside)

/-- How far the literal behind an opening delimiter reaches. -/
def literalExtent (opening : UInt8) (text : Text) : Extent :=
  if opening = backquote then templateExtent 0 text else stringExtent opening text

/-- What is wrong with a literal that is not closed. -/
def openCause (opening : UInt8) : Cause :=
  if opening = backquote then .unterminatedTemplate else .unterminatedString

/-- One round of reading a source: a blank is passed, or a lexeme is read. -/
inductive ReadRound (source : Text) : Nat → Nat → Prop where
  | blank {cursor b rest} : source.drop cursor = b :: rest → isBlank b = true →
      ReadRound source cursor (cursor + 1)
  | lexeme {cursor b rest l more} : source.drop cursor = b :: rest → isBlank b = false →
      lexeme b rest = .ok (l, more) → ReadRound source cursor (cursor + 1 + more)

variable {opening quote b next : UInt8} {text source rest : Text}
  {cursor depth width inside n : Nat} {p q : Nat × Nat} {e : Extent}

theorem byteAt_of_le (h : text.length ≤ cursor) : byteAt text cursor = 0 := by
  simp [byteAt, List.getD_eq_getElem?_getD, h]

theorem byteAt_cons (h : text.drop cursor = b :: rest) : byteAt text cursor = b := by
  have there : text[cursor]? = some b := by rw [← List.head?_drop, h, List.head?_cons]
  simp [byteAt, List.getD_eq_getElem?_getD, there]

theorem drop_of_cons (h : text.drop cursor = b :: rest) (n : Nat) :
    text.drop (cursor + 1 + n) = rest.drop n := by
  rw [Nat.add_assoc, ← List.drop_drop, h, Nat.add_comm 1 n, List.drop_succ_cons]

theorem lt_length_of_drop (h : text.drop cursor = b :: rest) :
    cursor + 1 + rest.length = text.length := by
  have length := congrArg List.length h
  rw [List.length_drop, List.length_cons] at length
  omega

theorem byteAt_nil (h : text.drop cursor = []) : byteAt text cursor = 0 :=
  byteAt_of_le (List.drop_eq_nil_iff.1 h)

theorem scan_nul : scan opening depth 0 next = none := by simp [scan]

theorem scan_backslash (inside : ¬ (depth = 0 ∧ backslash = opening)) :
    scan opening depth backslash next = some (2, depth) := by
  have noEnd : ¬ (backslash = 0 ∨ opening ≠ backquote ∧ backslash = lineFeed) := by
    rintro (nul | ⟨-, line⟩)
    · exact absurd nul (by decide)
    · exact absurd line (by decide)
  rw [scan, if_neg inside, if_neg noEnd, if_pos rfl]

theorem scan_outside (noQuote : b ≠ backquote) (noEnd : b ≠ 0) (noEscape : b ≠ backslash) :
    scan backquote 0 b next =
      if b = '$'.toUInt8 ∧ next = '\x7b'.toUInt8 then some (2, 1) else some (1, 0) := by
  simp [scan, noQuote, noEnd, noEscape]

theorem width_of_scan (h : scan opening depth b next = some (width, inside)) :
    width = 1 ∨ width = 2 := by
  unfold scan at h
  split_ifs at h <;> cases h <;> simp

theorem ScanRound.bounds (h : ScanRound opening text p q) :
    p.1 < text.length ∧ p.1 < q.1 ∧ q.1 ≤ p.1 + 2 := by
  obtain @⟨cursor, depth, width, inside, moves⟩ := h
  have before : cursor < text.length := by
    by_contra past
    rw [byteAt_of_le (Nat.le_of_not_lt past), scan_nul] at moves
    cases moves
  have width := width_of_scan moves
  dsimp only
  omega

/-- The loop takes at most one round for each byte, and leaves the text by one byte at most. -/
theorem ScanRound.steps_le (run : Steps (ScanRound opening text) n p q)
    (start : p.1 ≤ text.length + 1) : n ≤ text.length - p.1 ∧ q.1 ≤ text.length + 1 := by
  constructor
  · exact run.le_places_left (·.1) fun p q round => ⟨round.bounds.1, round.bounds.2.1⟩
  · refine run.keeps (p := fun p => p.1 ≤ text.length + 1) (fun p q round _ => ?_) start
    have bounds := round.bounds
    omega

/-- The loop ends where the extent of a literal says: at the closing delimiter, or where there is
none. -/
def ScansTo (opening : UInt8) (text : Text) (cursor depth : Nat) (e : Extent) : Prop :=
  ∃ n last inside, Steps (ScanRound opening text) n (cursor, depth) (cursor + last, inside) ∧
    scan opening inside (byteAt text (cursor + last)) (byteAt text (cursor + last + 1)) = none ∧
    e = if inside = 0 ∧ byteAt text (cursor + last) = opening then .closed (last + 1)
      else .unclosed last

namespace ScansTo

theorem closed (first : byteAt text cursor = opening) :
    ScansTo opening text cursor 0 (.closed 1) :=
  ⟨0, 0, 0, .none, by simp [scan, first], (if_pos ⟨rfl, first⟩).symm⟩

theorem unclosed (first : byteAt text cursor = b) (inside : ¬ (depth = 0 ∧ b = opening))
    (ends : scan opening depth b (byteAt text (cursor + 1)) = none) :
    ScansTo opening text cursor depth (.unclosed 0) := by
  subst first
  exact ⟨0, 0, depth, .none, ends, (if_neg inside).symm⟩

theorem round (first : byteAt text cursor = b)
    (moves : scan opening depth b (byteAt text (cursor + 1)) = some (width, inside))
    (later : ScansTo opening text (cursor + width) inside e) :
    ScansTo opening text cursor depth (e.after width) := by
  subst first
  obtain ⟨n, last, depth', run, ends, rfl⟩ := later
  rw [Nat.add_assoc] at run ends
  refine ⟨n + 1, width + last, depth', .first (.move moves) run, ends, ?_⟩
  rw [Nat.add_assoc]
  split
  · exact congrArg Extent.closed (Nat.add_assoc width last 1)
  · rfl

theorem nul (noNul : opening ≠ 0) (first : byteAt text cursor = 0) :
    ScansTo opening text cursor depth (.unclosed 0) :=
  unclosed first (fun closes => noNul closes.2.symm) scan_nul

end ScansTo

theorem string_scansTo (quote_ne : quote ≠ 0 ∧ quote ≠ backquote) (h : text.drop cursor = rest) :
    ScansTo quote text cursor 0 (stringExtent quote rest) := by
  obtain ⟨noNul, noTemplate⟩ := quote_ne
  fun_induction stringExtent quote rest generalizing cursor with
  | case1 => exact .nul noNul (byteAt_nil h)
  | case2 source => exact .closed (byteAt_cons h)
  | case3 b source noQuote ends =>
    refine .unclosed (byteAt_cons h) (fun closes => noQuote closes.2) ?_
    simp [scan, noQuote, noTemplate, ends]
  | case4 noQuote noEnd =>
    have past : ScansTo quote text (cursor + 2) 0 (.unclosed 0) :=
      .nul noNul (byteAt_nil (drop_of_cons h 1))
    exact past.round (byteAt_cons h) (scan_backslash fun closes => noQuote closes.2)
  | case5 c later noQuote noEnd ih =>
    exact (ih (drop_of_cons h 1)).round (byteAt_cons h)
      (scan_backslash fun closes => noQuote closes.2)
  | case6 b source noQuote noEnd noEscape ih =>
    refine (ih (drop_of_cons h 0)).round (byteAt_cons h) ?_
    simp [scan, noQuote, noEnd, noEscape, noTemplate]

theorem template_scansTo (h : text.drop cursor = rest) :
    ScansTo backquote text cursor depth (templateExtent depth rest) := by
  have noNul : backquote ≠ 0 := by decide
  have noEscape : backslash ≠ backquote := by decide
  fun_induction templateExtent depth rest generalizing cursor with
  | case1 depth => exact .nul noNul (byteAt_nil h)
  | case2 depth b source closes =>
    obtain ⟨rfl, rfl⟩ := closes
    exact .closed (byteAt_cons h)
  | case3 depth source inside => exact .nul noNul (byteAt_cons h)
  | case4 depth =>
    have past : ScansTo backquote text (cursor + 2) depth (.unclosed 0) :=
      .nul noNul (byteAt_nil (drop_of_cons h 1))
    exact past.round (byteAt_cons h) (scan_backslash fun closes => noEscape closes.2)
  | case5 depth c later _ _ ih =>
    exact (ih (drop_of_cons h 1)).round (byteAt_cons h)
      (scan_backslash fun closes => noEscape closes.2)
  | case6 b noEnd noEscape noQuote =>
    have next : byteAt text (cursor + 1) = 0 := byteAt_nil (drop_of_cons h 0)
    have past : ScansTo backquote text (cursor + 1) 0 (.unclosed 0) := .nul noNul next
    refine past.round (byteAt_cons h) ?_
    rw [scan_outside (fun quote => noQuote ⟨rfl, quote⟩) noEnd noEscape, next]
    exact if_neg fun opens => absurd opens.2 (by decide)
  | case7 b noEnd noEscape c later opens noQuote ih =>
    refine (ih (drop_of_cons h 1)).round (byteAt_cons h) ?_
    rw [scan_outside (fun quote => noQuote ⟨rfl, quote⟩) noEnd noEscape,
      byteAt_cons (drop_of_cons h 0)]
    exact if_pos opens
  | case8 b noEnd noEscape c later plain noQuote ih =>
    refine (ih (drop_of_cons h 0)).round (byteAt_cons h) ?_
    rw [scan_outside (fun quote => noQuote ⟨rfl, quote⟩) noEnd noEscape,
      byteAt_cons (drop_of_cons h 0)]
    exact if_neg plain
  | case9 depth source inside _ noEnd noEscape ih =>
    refine (ih (drop_of_cons h 0)).round (byteAt_cons h) ?_
    simp [scan, noEnd, noEscape, inside]
  | case10 depth source inside _ noEnd noEscape noOpening ih =>
    refine (ih (drop_of_cons h 0)).round (byteAt_cons h) ?_
    simp [scan, noEnd, noEscape, inside, noOpening]
  | case11 depth b source _ noEnd noEscape inside noOpening noClosing ih =>
    refine (ih (drop_of_cons h 0)).round (byteAt_cons h) ?_
    simp [scan, noEnd, noEscape, inside, noOpening, noClosing]

theorem literal_scansTo (delimits : opening ∈ delimiters)
    (text : Text) : ScansTo opening text 0 0 (literalExtent opening text) := by
  unfold literalExtent
  split
  · subst opening
    exact template_scansTo rfl
  · have noNul : opening ≠ 0 := by
      rintro rfl
      exact absurd delimits (by decide)
    exact string_scansTo ⟨noNul, ‹_›⟩ rfl

theorem le_of_unclosed (delimits : opening ∈ delimiters)
    (h : literalExtent opening text = .unclosed n) : n ≤ text.length + 1 := by
  obtain ⟨_, last, inside, run, -, extent⟩ := literal_scansTo delimits text
  rw [h] at extent
  split at extent
  · cases extent
  · cases extent
    simpa using (ScanRound.steps_le run (Nat.zero_le _)).2

theorem literal_eq_error {kind : Text → Lexeme} {cause cause' : Cause} {read : Nat}
    (h : literal kind cause b rest e = .error (cause', read)) :
    ∃ n, e = .unclosed n ∧ cause' = cause ∧ read = 1 + n := by
  cases e with
  | closed n => cases h
  | unclosed n =>
    cases h
    exact ⟨n, rfl, rfl, rfl⟩

theorem lexeme_of_delimiter (delimits : opening ∈ delimiters) (rest : Text) :
    ∃ kind, lexeme opening rest =
      literal kind (openCause opening) opening rest (literalExtent opening rest) := by
  by_cases template : opening = backquote
  · subst template
    exact ⟨.template, rfl⟩
  · have quote : opening = singleQuote ∨ opening = doubleQuote := by simpa [template] using delimits
    refine ⟨.string, ?_⟩
    rw [lexeme_of_quote quote, openCause, if_neg template, literalExtent, if_neg template]

/-- The ways to find no lexeme: a byte that starts none, or a literal that is not closed. -/
theorem lexeme_eq_error {cause : Cause} {read : Nat} (h : lexeme b rest = .error (cause, read)) :
    (cause = .unexpectedByte b ∧ read = 0) ∨
    (b ∈ delimiters ∧ ∃ n, literalExtent b rest = .unclosed n ∧ cause = openCause b ∧
      read = 1 + n) := by
  by_cases delimits : b ∈ delimiters
  · obtain ⟨kind, made⟩ := lexeme_of_delimiter delimits rest
    exact .inr ⟨delimits, literal_eq_error (made ▸ h)⟩
  · left
    simp only [List.mem_cons, List.not_mem_nil, or_false, not_or] at delimits
    obtain ⟨noSingle, noDouble, noTemplate⟩ := delimits
    rw [lexeme, if_neg (not_or.2 ⟨noSingle, noDouble⟩), if_neg noTemplate] at h
    split at h
    · cases h
    · split at h
      · cases h
      · split at h
        · cases h
        · cases h
          exact ⟨rfl, rfl⟩

theorem read_le_of_error {cause : Cause} {read : Nat}
    (h : lexeme b rest = .error (cause, read)) : read ≤ rest.length + 2 := by
  rcases lexeme_eq_error h with ⟨-, rfl⟩ | ⟨delimits, n, unclosed, -, rfl⟩
  · exact Nat.zero_le _
  · have short := le_of_unclosed delimits unclosed
    omega

/-! ## Sources -/

theorem ReadRound.bounds {next : Nat} (h : ReadRound source cursor next) :
    cursor < next ∧ next ≤ source.length := by
  cases h with
  | blank here _ =>
    have length := lt_length_of_drop here
    omega
  | lexeme here _ read =>
    have length := lt_length_of_drop here
    have short := more_le_of_lexeme read
    omega

theorem not_readRound {next : Nat} {failure : Cause × Nat} (here : source.drop cursor = b :: rest)
    (visible : isBlank b = false) (refused : lexeme b rest = .error failure) :
    ¬ ReadRound source cursor next := by
  intro round
  cases round with
  | blank there blank =>
    obtain ⟨rfl, rfl⟩ := List.cons.inj (here.symm.trans there)
    cases visible.symm.trans blank
  | lexeme there _ read =>
    obtain ⟨rfl, rfl⟩ := List.cons.inj (here.symm.trans there)
    cases refused.symm.trans read

/-- The loop takes at most one round for each byte, and stays within the source. -/
theorem ReadRound.steps_le {next : Nat} (run : Steps (ReadRound source) n cursor next)
    (start : cursor ≤ source.length) : n ≤ source.length - cursor ∧ next ≤ source.length := by
  constructor
  · refine run.le_places_left (fun c => c) fun c d round => ?_
    obtain ⟨moves, inside⟩ := round.bounds
    exact ⟨Nat.lt_of_lt_of_le moves inside, moves⟩
  · exact run.keeps (p := (· ≤ source.length)) (fun _ _ round _ => round.bounds.2) start

/-- The loop ends with the tokens of the source, or where it finds no lexeme. -/
theorem exists_last_round (here : source.drop cursor = rest) (inside : cursor ≤ source.length) :
    ∃ n last, Steps (ReadRound source) n cursor last ∧
      ((last = source.length ∧ ∃ ts, tokensFrom cursor rest = .ok ts) ∨
        ∃ b later cause read, source.drop last = b :: later ∧ isBlank b = false ∧
          lexeme b later = .error (cause, read) ∧
          tokensFrom cursor rest = .error ⟨cause, last + read⟩) := by
  fun_induction tokensFrom cursor rest with
  | case1 cursor =>
    have past := List.drop_eq_nil_iff.1 here
    exact ⟨0, cursor, .none, .inl ⟨Nat.le_antisymm inside past, [], rfl⟩⟩
  | case2 cursor b rest blank ih =>
    have round : ReadRound source cursor (cursor + 1) := .blank here blank
    obtain ⟨n, last, run, result⟩ := ih (drop_of_cons here 0) round.bounds.2
    exact ⟨n + 1, last, .first round run, result⟩
  | case3 cursor b rest visible cause read refused =>
    exact ⟨0, cursor, .none,
      .inr ⟨b, rest, cause, read, here, by simpa using visible, refused, rfl⟩⟩
  | case4 cursor b rest visible l more found ih =>
    have round : ReadRound source cursor (cursor + 1 + more) :=
      .lexeme here (by simpa using visible) found
    obtain ⟨n, last, run, result⟩ := ih (drop_of_cons here more) round.bounds.2
    refine ⟨n + 1, last, .first round run, ?_⟩
    rcases result with ⟨atEnd, ts, made⟩ | ⟨c, later, cause, read, there, visible', refused, made⟩
    · exact .inl ⟨atEnd, _, by rw [made]; rfl⟩
    · exact .inr ⟨c, later, cause, read, there, visible', refused, by rw [made]; rfl⟩

end SchemaTypes.TypeExpr
