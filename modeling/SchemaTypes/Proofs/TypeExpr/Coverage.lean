import SchemaTypes.Proofs.TypeExpr.Cursor
import SchemaTypes.Proofs.TypeExpr.Layout

/-!
# Tokens cover a source

Reading the tokens of a source loses nothing: each is a part of the source at its offset, they do
not overlap, and only blanks are left out.
-/

namespace SchemaTypes.TypeExpr

open Text

/-- The offset behind a token. -/
def Token.stop (t : Token) : Nat := t.offset + t.lexeme.text.length

/-- From an offset on, a text is made of tokens with blanks before, between and behind them. -/
inductive Covers : Nat → Text → List Token → Prop where
  | done {offset} : Covers offset [] []
  | blank {offset b rest ts} : isBlank b = true → Covers (offset + 1) rest ts →
      Covers offset (b :: rest) ts
  | token {offset l rest ts} : l.text ≠ [] → Covers (offset + l.text.length) rest ts →
      Covers offset (l.text ++ rest) (⟨l, offset⟩ :: ts)

/-- The offsets at which something stands: the tokens, and the end of the source behind them. -/
def places (source : Text) (ts : List Token) : List Nat := ts.map (·.offset) ++ [source.length]

/-- What tokens tell of their source. -/
structure Lossless (source : Text) (ts : List Token) : Prop where
  texts : ∀ t ∈ ts, t.lexeme.text ≠ [] ∧ t.stop ≤ source.length ∧
    (source.drop t.offset).take t.lexeme.text.length = t.lexeme.text
  disjoint : ts.Pairwise fun t u => t.stop ≤ u.offset
  blanks : ∀ i b, source[i]? = some b → (∀ t ∈ ts, ¬ (t.offset ≤ i ∧ i < t.stop)) →
    b ∈ ([space, tab, lineFeed, carriageReturn] : Text)
  ascending : (places source ts).Pairwise (· < ·)
  located : ∀ remaining ≤ ts.length,
    (places source ts)[ts.length - remaining]? = some (offsetFromEnd ts source.length remaining)

variable {source : Text} {offset : Nat} {ts : List Token}

theorem covers_tokensFrom (read : tokensFrom offset source = .ok ts) : Covers offset source ts := by
  fun_induction tokensFrom offset source generalizing ts with
  | case1 =>
    cases read
    exact .done
  | case2 offset b source blank ih => exact .blank blank (ih read)
  | case3 => cases read
  | case4 offset b source visible l more found ih =>
    obtain ⟨later, tail, rfl⟩ := map_eq_ok.1 read
    have text := (lexeme_take found).1
    have whole : b :: source = l.text ++ source.drop more := by
      rw [text, List.cons_append, List.take_append_drop]
    have length : l.text.length = 1 + more := by
      rw [text, List.length_cons, List.length_take_of_le (more_le_of_lexeme found), Nat.add_comm]
    have rest := ih tail
    rw [Nat.add_assoc, ← length] at rest
    rw [whole]
    exact .token (by simp [text]) rest

namespace Covers

/-- A token is a part of the text at its offset. -/
theorem exists_split (h : Covers offset source ts) : ∀ t ∈ ts, t.lexeme.text ≠ [] ∧
    ∃ before after, source = before ++ (t.lexeme.text ++ after) ∧
      t.offset = offset + before.length := by
  induction h with
  | done => simp
  | @blank offset b rest ts _ _ ih =>
    intro t mem
    obtain ⟨nonempty, before, after, rfl, place⟩ := ih t mem
    refine ⟨nonempty, b :: before, after, rfl, ?_⟩
    rw [place, List.length_cons]
    omega
  | @token offset l rest ts nonempty _ ih =>
    refine List.forall_mem_cons.2 ⟨⟨nonempty, [], rest, rfl, rfl⟩, fun t mem => ?_⟩
    obtain ⟨nonempty, before, after, rfl, place⟩ := ih t mem
    refine ⟨nonempty, l.text ++ before, after, (List.append_assoc ..).symm, ?_⟩
    rw [place, List.length_append, Nat.add_assoc]

theorem le_offset (h : Covers offset source ts) : ∀ t ∈ ts, offset ≤ t.offset := by
  intro t mem
  obtain ⟨-, before, after, -, place⟩ := h.exists_split t mem
  omega

theorem disjoint (h : Covers offset source ts) : ts.Pairwise fun t u => t.stop ≤ u.offset := by
  induction h with
  | done => exact .nil
  | blank _ _ ih => exact ih
  | token _ rest ih => exact .cons rest.le_offset ih

theorem isBlank_of_uncovered (h : Covers offset source ts) {i : Nat} {b : UInt8}
    (here : source[i]? = some b)
    (uncovered : ∀ t ∈ ts, ¬ (t.offset ≤ offset + i ∧ offset + i < t.stop)) :
    isBlank b = true := by
  induction h generalizing i with
  | done => cases here
  | @blank offset c rest ts blank _ ih =>
    cases i with
    | zero =>
      obtain rfl : c = b := by simpa using here
      exact blank
    | succ i =>
      refine ih (by simpa using here) ?_
      rwa [Nat.add_assoc, Nat.add_comm 1 i]
  | @token offset l rest ts _ _ ih =>
    obtain ⟨first, later⟩ := List.forall_mem_cons.1 uncovered
    have past : l.text.length ≤ i := by
      simp only [Token.stop] at first
      omega
    rw [List.getElem?_append_right past] at here
    refine ih here ?_
    rwa [Nat.add_assoc, Nat.add_sub_cancel' past]

end Covers

theorem places_offsetFromEnd {remaining : Nat} (inside : remaining ≤ ts.length) :
    (places source ts)[ts.length - remaining]? =
      some (offsetFromEnd ts source.length remaining) := by
  unfold offsetFromEnd
  split
  · rename_i none
    have all := List.drop_eq_nil_iff.1 none
    have last : ts.length - remaining = ts.length := by omega
    rw [last, places, List.getElem?_append_right (by simp)]
    simp
  · rename_i t later here
    have there : ts[ts.length - remaining]? = some t := by
      rw [← List.head?_drop, here, List.head?_cons]
    have short := (List.getElem?_eq_some_iff.1 there).1
    rw [places, List.getElem?_append_left (by simpa using short), List.getElem?_map, there]
    rfl

theorem isBlank_iff {b : UInt8} :
    isBlank b = true ↔ b ∈ ([space, tab, lineFeed, carriageReturn] : Text) := by
  simp [isBlank, or_assoc]

theorem lossless_tokens (read : tokens source = .ok ts) : Lossless source ts := by
  have covers : Covers 0 source ts := covers_tokensFrom read
  have texts : ∀ t ∈ ts, t.lexeme.text ≠ [] ∧ t.stop ≤ source.length ∧
      (source.drop t.offset).take t.lexeme.text.length = t.lexeme.text := by
    intro t mem
    obtain ⟨nonempty, before, after, rfl, place⟩ := covers.exists_split t mem
    rw [Nat.zero_add] at place
    refine ⟨nonempty, ?_, ?_⟩
    · simp only [Token.stop, place, List.length_append]
      omega
    · rw [place, List.drop_left, List.take_left]
  have reaches : ∀ t ∈ ts, t.offset < t.stop := fun t mem =>
    Nat.lt_add_of_pos_right (List.length_pos_iff.2 (texts t mem).1)
  refine ⟨texts, covers.disjoint, fun i b here uncovered => ?_, ?_, fun _ => places_offsetFromEnd⟩
  · refine isBlank_iff.1 (covers.isBlank_of_uncovered here ?_)
    simpa using uncovered
  · refine List.pairwise_append.2 ⟨?_, List.pairwise_singleton .., ?_⟩
    · refine List.pairwise_map.2 (covers.disjoint.imp_of_mem fun {t u} mem _ apart => ?_)
      exact Nat.lt_of_lt_of_le (reaches t mem) apart
    · intro place mem stop mem'
      obtain ⟨t, inside, rfl⟩ := List.mem_map.1 mem
      rw [List.mem_singleton.1 mem']
      exact Nat.lt_of_lt_of_le (reaches t inside) (texts t inside).2.1

/-- **Reading tokens loses nothing, and ends.** The tokens of a source are its parts at their
offsets, one behind the other, with blanks alone in none of them, and the end of the source is the
one place behind them. Whether there are tokens or an error, the loop over the lexemes takes at most
one round for each byte and stays within the source. The loop over the bytes of a literal ends where
the literal does or at most one byte past the text, where an escape at the very end takes it. -/
theorem tokens_lossless (source : Text) :
    (∀ ts, tokens source = .ok ts → Lossless source ts) ∧
    (∀ n cursor, Steps (ReadRound source) n 0 cursor →
      n ≤ source.length ∧ cursor ≤ source.length) ∧
    (∃ n last, Steps (ReadRound source) n 0 last ∧ (∀ next, ¬ ReadRound source last next) ∧
      ((last = source.length ∧ ∃ ts, tokens source = .ok ts) ∨
        ∃ e, tokens source = .error e ∧ last < source.length ∧
          last ≤ e.offset ∧ e.offset ≤ source.length + 1)) ∧
    ∀ opening ∈ delimiters, ∀ text,
      ScansTo opening text 0 0 (literalExtent opening text) ∧
      ∀ n cursor depth, Steps (ScanRound opening text) n (0, 0) (cursor, depth) →
        n ≤ text.length ∧ cursor ≤ text.length + 1 := by
  refine ⟨fun ts read => lossless_tokens read,
    fun n cursor run => ReadRound.steps_le run (Nat.zero_le _), ?_, fun opening delimits text =>
      ⟨literal_scansTo delimits text, fun n cursor depth run => ?_⟩⟩
  · obtain ⟨n, last, run, result⟩ :=
      exists_last_round (rfl : source.drop 0 = source) (Nat.zero_le _)
    rcases result with ⟨rfl, ts, made⟩ | ⟨b, later, cause, read, there, visible, refused, made⟩
    · refine ⟨n, source.length, run, fun next round => ?_, .inl ⟨rfl, ts, made⟩⟩
      have bounds := round.bounds
      omega
    · have length := lt_length_of_drop there
      have short := read_le_of_error refused
      refine ⟨n, last, run, fun next => not_readRound there visible refused,
        .inr ⟨_, made, by omega, Nat.le_add_right .., ?_⟩⟩
      dsimp only
      omega
  · exact ScanRound.steps_le run (Nat.zero_le _)

/-- An escaped quote and the braces of an interpolation are parts of their literals. -/
theorem lossless_literals :
    tokens " 'a\\'' |\n`$\x7bT\x7d`" =
      .ok [⟨.string "'a\\''", 1⟩, ⟨.mark .bar, 7⟩, ⟨.template "`$\x7bT\x7d`", 9⟩] ∧
    Lossless " 'a\\'' |\n`$\x7bT\x7d`"
      [⟨.string "'a\\''", 1⟩, ⟨.mark .bar, 7⟩, ⟨.template "`$\x7bT\x7d`", 9⟩] := by
  have read : tokens " 'a\\'' |\n`$\x7bT\x7d`" =
      .ok [⟨.string "'a\\''", 1⟩, ⟨.mark .bar, 7⟩, ⟨.template "`$\x7bT\x7d`", 9⟩] :=
    eq_ok_of_toOption (by decide +kernel)
  exact ⟨read, (tokens_lossless _).1 _ read⟩

end SchemaTypes.TypeExpr
