import SchemaTypes.Proofs.TypeExpr.Acceptance
import SchemaTypes.Proofs.TypeExpr.Seams

/-!
# Blanks between lexemes

A lexeme is read from its own text alone, so it does not matter which blanks stand between lexemes.
-/

namespace SchemaTypes.TypeExpr

open Text

variable {source rest : Text} {b : UInt8} {l : Lexeme} {ts : List Token} {more : Nat}

theorem mark?_text (m : Mark) : mark? m.text = some m := by cases m <;> rfl

theorem lexeme_take (read : lexeme b source = .ok (l, more)) :
    l.text = b :: source.take more ∧ lexeme b (source.take more) = .ok (l, more) := by
  rcases lexeme_eq_ok read with ⟨starts, rfl, rfl⟩ | ⟨digit, rfl, rfl⟩ | ⟨quote, closed, rfl⟩ |
    ⟨rfl, closed, rfl⟩ | ⟨m, rfl, found, rfl⟩
  · rw [take_takeWhile, lexeme_of_startsWord starts, List.takeWhile_idem]
    exact ⟨rfl, rfl⟩
  · rw [take_takeWhile, lexeme_of_digit digit, List.takeWhile_idem]
    exact ⟨rfl, rfl⟩
  · have alone := lexeme_string quote closed []
    rw [List.append_nil] at alone
    exact ⟨rfl, alone⟩
  · have alone := lexeme_template closed []
    rw [List.append_nil] at alone
    exact ⟨rfl, alone⟩
  · have text := (text_of_mark? found).1
    exact ⟨text, lexeme_of_mark (text ▸ mark?_text m)⟩

/-- The text of a lexeme is read as that lexeme. -/
def Lexeme.Readable (l : Lexeme) : Prop :=
  ∃ b more, l.text = b :: more ∧ isBlank b = false ∧ lexeme b more = .ok (l, more.length)

theorem readable_of_tokensFrom {offset : Nat} (read : tokensFrom offset source = .ok ts) :
    ∀ t ∈ ts, t.lexeme.Readable := by
  fun_induction tokensFrom offset source generalizing ts with
  | case1 =>
    cases read
    simp
  | case2 offset b source blank ih => exact ih read
  | case3 => cases read
  | case4 offset b source visible l more found ih =>
    obtain ⟨later, tail, rfl⟩ := map_eq_ok.1 read
    refine List.forall_mem_cons.2 ⟨?_, ih tail⟩
    obtain ⟨text, alone⟩ := lexeme_take found
    have length : (source.take more).length = more :=
      List.length_take_of_le (more_le_of_lexeme found)
    exact ⟨b, source.take more, text, by simpa using visible, by rw [length, alone]⟩

/-- Lexemes with blanks before, between and behind them. -/
structure Layout (ls : List Lexeme) where
  before : Text
  /-- Each lexeme with the blanks behind it. -/
  pieces : List (Lexeme × Text)
  lexemes : pieces.map (·.1) = ls
  blank_before : ∀ b ∈ before, isBlank b = true
  blank_behind : ∀ p ∈ pieces, ∀ b ∈ p.2, isBlank b = true
  apart : ∀ p ∈ pieces.dropLast, p.2 ≠ []

def piecesText (pieces : List (Lexeme × Text)) : Text := pieces.flatMap fun p => p.1.text ++ p.2

def Layout.text {ls : List Lexeme} (layout : Layout ls) : Text :=
  layout.before ++ piecesText layout.pieces

theorem seam_blank (blank : isBlank b = true) : Seam (b :: rest) := by
  simp only [isBlank, Bool.or_eq_true, beq_iff_eq] at blank
  rcases blank with ((rfl | rfl) | rfl) | rfl <;> exact seam_cons (by decide)

namespace Lexes

variable {ls : List Lexeme}

theorem blanks {gap : Text} (blank : ∀ b ∈ gap, isBlank b = true) (h : Lexes source ls rest) :
    Lexes (gap ++ source) ls rest := by
  induction gap with
  | nil => exact h
  | cons b gap ih =>
    obtain ⟨first, later⟩ := List.forall_mem_cons.1 blank
    exact .blank first (ih later)

theorem readable (h : l.Readable) (seam : Seam rest) : Lexes (l.text ++ rest) [l] rest := by
  obtain ⟨b, more, text, visible, read⟩ := h
  rw [text]
  exact .single visible (lexeme_append seam read).1

/-- Readable lexemes with blanks between them are read as they are. -/
theorem pieces {pieces : List (Lexeme × Text)} (readable : ∀ p ∈ pieces, p.1.Readable)
    (blank : ∀ p ∈ pieces, ∀ b ∈ p.2, isBlank b = true) (apart : ∀ p ∈ pieces.dropLast, p.2 ≠ []) :
    Lexes (piecesText pieces) (pieces.map (·.1)) [] := by
  induction pieces with
  | nil => exact .done
  | cons p pieces ih =>
    obtain ⟨first, later⟩ := List.forall_mem_cons.1 readable
    obtain ⟨gap, gaps⟩ := List.forall_mem_cons.1 blank
    have rest : Lexes (piecesText pieces) (pieces.map (·.1)) [] := by
      refine ih later gaps fun q mem => apart q ?_
      cases pieces with
      | nil => cases mem
      | cons => exact .tail _ mem
    -- A lexeme without blanks behind it is the last one.
    have seam : Seam (p.2 ++ piecesText pieces) := by
      cases behind : p.2 with
      | cons b more => exact seam_blank (gap b (behind ▸ .head _))
      | nil =>
        cases pieces with
        | nil => simp [piecesText, Seam]
        | cons => exact absurd behind (apart p (.head _))
    have text : piecesText (p :: pieces) = p.1.text ++ (p.2 ++ piecesText pieces) := by
      simp [piecesText]
    rw [text]
    exact (Lexes.readable first seam).append (rest.blanks gap)

end Lexes

theorem problem?_eq_none_congr {source' : Text} {ts' : List Token} (read : tokens source = .ok ts)
    (read' : tokens source' = .ok ts') (same : ts'.map (·.lexeme) = ts.map (·.lexeme)) :
    problem? source' = none ↔ problem? source = none := by
  unfold problem? check
  rw [read, read']
  simp only [same]
  cases recognize (ts.map (·.lexeme)) <;> simp

/-- **Blanks do not change what is read.** If a source has tokens, then so has every text that lays
out their lexemes with other blanks, at least one between each two. The lexemes are the same, and
such a text is a type expression exactly if the source is one. -/
theorem tokens_layout (read : tokens source = .ok ts) (layout : Layout (ts.map (·.lexeme))) :
    (∃ ts', tokens layout.text = .ok ts' ∧ ts'.map (·.lexeme) = ts.map (·.lexeme)) ∧
    (problem? layout.text = none ↔ problem? source = none) := by
  have readable : ∀ p ∈ layout.pieces, p.1.Readable := by
    intro p mem
    have inside : p.1 ∈ ts.map (·.lexeme) := by
      rw [← layout.lexemes]
      exact List.mem_map_of_mem mem
    obtain ⟨t, mem', same⟩ := List.mem_map.1 inside
    exact same ▸ readable_of_tokensFrom read t mem'
  have lexes : Lexes layout.text (layout.pieces.map (·.1)) [] :=
    (Lexes.pieces readable layout.blank_behind layout.apart).blanks layout.blank_before
  rw [layout.lexemes] at lexes
  obtain ⟨ts', read', same⟩ := lexes.tokensFrom rfl 0
  exact ⟨⟨ts', read', same⟩, problem?_eq_none_congr read read' same⟩

/-- The lexemes of `'a b'|T[1.5]`, with a line for each of its two parts. -/
def twoLines : Layout [.string "'a b'", .mark .bar, .word "T", .mark .leftBracket, .number "1.5",
    .mark .rightBracket] where
  before := "\n\t"
  pieces := [(.string "'a b'", "\r\n\t"), (.mark .bar, " "), (.word "T", " "),
    (.mark .leftBracket, "  "), (.number "1.5", "\t"), (.mark .rightBracket, "")]
  lexemes := rfl
  blank_before := by decide +kernel
  blank_behind := by decide +kernel
  apart := by decide

/-- The lexemes are read alike on one line without blanks and on two lines. -/
theorem tokens_twoLines : tokens "'a b'|T[1.5]" = .ok [⟨.string "'a b'", 0⟩, ⟨.mark .bar, 5⟩,
      ⟨.word "T", 6⟩, ⟨.mark .leftBracket, 7⟩, ⟨.number "1.5", 8⟩, ⟨.mark .rightBracket, 11⟩] ∧
    twoLines.text = "\n\t'a b'\r\n\t| T [  1.5\t]" ∧
    (∃ ts, tokens twoLines.text = .ok ts ∧ ts.map (·.lexeme) = [.string "'a b'", .mark .bar,
      .word "T", .mark .leftBracket, .number "1.5", .mark .rightBracket]) ∧
    problem? twoLines.text = none := by
  have read : tokens "'a b'|T[1.5]" = .ok [⟨.string "'a b'", 0⟩, ⟨.mark .bar, 5⟩,
      ⟨.word "T", 6⟩, ⟨.mark .leftBracket, 7⟩, ⟨.number "1.5", 8⟩, ⟨.mark .rightBracket, 11⟩] :=
    eq_ok_of_toOption (by decide +kernel)
  obtain ⟨again, verdict⟩ := tokens_layout read twoLines
  exact ⟨read, by decide +kernel, again, verdict.2 (by decide +kernel)⟩

end SchemaTypes.TypeExpr
