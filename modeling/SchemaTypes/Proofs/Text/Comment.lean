import Mathlib.Data.List.Chain
import SchemaTypes.Proofs.Text.Bytes
import SchemaTypes.Text.Basic

namespace SchemaTypes.Text

/-- Two bytes that are no closer one after the other. -/
def Apart (a b : UInt8) : Prop := ¬ (a = '*'.toUInt8 ∧ b = '/'.toUInt8)

instance (a b : UInt8) : Decidable (Apart a b) := inferInstanceAs (Decidable (¬ _))

/-- No comment is closed in a text. -/
def Open (t : Text) : Prop := t.IsChain Apart

/-- No comment is closed in a text, nor right before it. -/
structure Inert (t : Text) : Prop where
  isOpen : Open t
  noSlash : ∀ b ∈ t.head?, b ≠ '/'.toUInt8

/-- The texts between the line feeds of a text. A line feed at the very end starts no more. -/
def separated (t : Text) : List Text :=
  if t.getLast? = some lineFeed then (t.splitOn lineFeed).dropLast else t.splitOn lineFeed

/-- A line with each `*/` in it written `*\/`: the same pieces, with other texts between them. -/
def ReplacesClosers (line written : Text) : Prop :=
  ∃ pieces, (∀ p ∈ pieces, ¬ ("*/" : Text) <:+: p) ∧
    line = joined "*/" pieces ∧ written = joined "*\\/" pieces

/-- A line of a block comment without its frame. -/
def unframedLine (pad line : Text) : Option Text :=
  match line.dropPrefix? (pad ++ " *") with
  | none => none
  | some [] => some []
  | some (b :: rest) => if b = space then some rest else none

/-- The lines that a comment with an indent is made of. -/
def unframed (indent : Nat) (written : Text) : Option (List Text) :=
  match written.dropPrefix? (spaces indent ++ "/**") with
  | none => none
  | some [] => none
  | some (b :: rest) =>
    if b = space then (rest.dropSuffix? " */\n").map ([·])
    else if b = lineFeed then
      match rest.dropSuffix? (spaces indent ++ " */\n") with
      | none => none
      | some block => (block.splitOn lineFeed).dropLast.mapM (unframedLine (spaces indent))
    else none

variable {a b : UInt8} {t x y front : Text}

theorem open_iff : Open t ↔ ¬ ("*/" : Text) <:+: t := by
  unfold Open
  rw [List.isChain_iff_forall_rel_of_append_cons_cons]
  constructor
  · rintro apart ⟨before, after, whole⟩
    have split : t = before ++ '*'.toUInt8 :: '/'.toUInt8 :: after := by
      rw [← whole, List.append_assoc]
      rfl
    exact apart split ⟨rfl, rfl⟩
  · rintro none a b before after rfl ⟨rfl, rfl⟩
    refine none ⟨before, after, ?_⟩
    rw [List.append_assoc]
    rfl

theorem Apart.of_not_star (h : a ≠ '*'.toUInt8) : Apart a b := fun closer => h closer.1

theorem Apart.of_not_slash (h : b ≠ '/'.toUInt8) : Apart a b := fun closer => h closer.2

theorem Open.append (hx : Open x) (hy : Inert y) : Open (x ++ y) :=
  List.isChain_append.2 ⟨hx, hy.isOpen, fun _ _ b mem => .of_not_slash (hy.noSlash b mem)⟩

theorem Inert.append (hx : Inert x) (hy : Inert y) : Inert (x ++ y) where
  isOpen := hx.isOpen.append hy
  noSlash := by
    intro b mem
    rw [List.head?_append] at mem
    cases x with
    | nil => exact hy.noSlash b mem
    | cons c x => exact hx.noSlash b mem

theorem Open.cons (noStar : b ≠ '*'.toUInt8) (h : Open t) : Open (b :: t) :=
  List.IsChain.cons h fun _ _ => .of_not_star noStar

theorem inert_cons (noStar : b ≠ '*'.toUInt8) (noSlash : b ≠ '/'.toUInt8) (h : Open t) :
    Inert (b :: t) where
  isOpen := h.cons noStar
  noSlash := by
    intro c mem
    obtain rfl : b = c := by simpa using mem
    exact noSlash

theorem inert_blank (h : Open t) : Inert (space :: t) := inert_cons (by decide) (by decide) h

theorem inert_lineFeed : Inert "\n" := inert_cons (by decide) (by decide) .nil

theorem eq_space_of_mem_spaces {n : Nat} (mem : b ∈ spaces n) : b = space :=
  List.eq_of_mem_replicate mem

theorem inert_spaces (n : Nat) : Inert (spaces n) where
  isOpen := List.isChain_replicate_of_rel n (by decide)
  noSlash := by
    intro b mem
    rw [eq_space_of_mem_spaces (List.mem_of_mem_head? mem)]
    decide

theorem open_opening (n : Nat) : Open (spaces n ++ ("/**" : Text)) := by
  refine List.isChain_append.2 ⟨(inert_spaces n).isOpen, by decide, fun a mem _ _ => ?_⟩
  rw [eq_space_of_mem_spaces (List.mem_of_mem_getLast? mem)]
  exact .of_not_star (by decide)

theorem inert_nil : Inert [] := ⟨.nil, by simp⟩

theorem inert_flatMap {α : Type} {f : α → Text} {l : List α} (each : ∀ a ∈ l, Inert (f a)) :
    Inert (l.flatMap f) := by
  induction l with
  | nil => exact inert_nil
  | cons a l ih =>
    obtain ⟨first, later⟩ := List.forall_mem_cons.1 each
    rw [List.flatMap_cons]
    exact first.append (ih later)

/-- If a text has no closer before its last one, it has no other. -/
theorem eq_of_closer {before after : Text} (free : Open (front ++ "*"))
    (same : front ++ "*/\n" = before ++ "*/" ++ after) : after = "\n" := by
  have inside (more : Text) : front ++ "*" ≠ before ++ "*/" ++ more :=
    fun eq => open_iff.1 free ⟨before, more, eq.symm⟩
  have split : front ++ "*/\n" = front ++ "*" ++ "/\n" := by
    rw [List.append_assoc]
    rfl
  rw [split] at same
  rcases List.append_eq_append_iff.1 same with ⟨more, eq, eq'⟩ | ⟨more, eq, -⟩
  · rcases more with _ | ⟨b, more⟩
    · exact absurd (by simpa using eq.symm) (inside [])
    · obtain ⟨rfl, rest⟩ := List.cons.inj eq'
      rcases List.append_eq_singleton_iff.1 rest.symm with ⟨-, last⟩ | ⟨rfl, -⟩
      · exact last
      · -- The other closer would end with the line feed.
        have last := congrArg List.getLast? eq
        simp only [List.getLast?_append] at last
        cases last
  · exact absurd eq (inside more)

/-! ## Lines without closers -/

theorem head?_withoutClosers (t : Text) : (withoutClosers t).head? = t.head? := by
  fun_cases withoutClosers t with
  | case1 a b rest closer =>
    obtain ⟨rfl, rfl⟩ := closer
    rfl
  | case2 => rfl
  | case3 => rfl

theorem open_of_short (short : ∀ a b rest, t ≠ a :: b :: rest) : Open t := by
  rcases t with _ | ⟨a, _ | ⟨b, rest⟩⟩
  · exact .nil
  · exact .singleton a
  · exact absurd rfl (short a b rest)

theorem open_withoutClosers (t : Text) : Open (withoutClosers t) := by
  fun_induction withoutClosers t with
  | case1 a b rest closer ih =>
    have behind : Open ('/'.toUInt8 :: withoutClosers rest) := ih.cons (by decide)
    have escape : Inert ('\\'.toUInt8 :: '/'.toUInt8 :: withoutClosers rest) :=
      inert_cons (by decide) (by decide) behind
    exact Open.append (x := "*") (.singleton _) escape
  | case2 a b rest apart ih =>
    refine List.IsChain.cons ih fun c mem => ?_
    rw [head?_withoutClosers] at mem
    cases mem
    exact apart
  | case3 t short => exact open_of_short short

theorem lineFeed_of_withoutClosers (mem : lineFeed ∈ withoutClosers t) : lineFeed ∈ t := by
  fun_induction withoutClosers t with
  | case1 a b rest _ ih =>
    rcases List.mem_append.1 mem with escape | later
    · exact absurd escape (by decide)
    · exact .tail _ (.tail _ (ih later))
  | case2 a b rest _ ih =>
    rcases List.mem_cons.1 mem with rfl | later
    · exact .head _
    · exact .tail _ (ih later)
  | case3 => exact mem

/-- The pieces between the closers of a text stay as they are. -/
theorem exists_pieces (t : Text) : ∃ p ps, (∀ q ∈ p :: ps, Open q) ∧
    t = joined "*/" (p :: ps) ∧ withoutClosers t = joined "*\\/" (p :: ps) := by
  fun_induction withoutClosers t with
  | case1 a b rest closer ih =>
    obtain ⟨p, ps, free, line, written⟩ := ih
    obtain ⟨rfl, rfl⟩ := closer
    refine ⟨[], p :: ps, List.forall_mem_cons.2 ⟨.nil, free⟩, ?_, ?_⟩
    · rw [joined_cons, List.flatMap_cons, List.append_assoc, ← joined_cons, ← line]
      rfl
    · rw [joined_cons, List.flatMap_cons, List.append_assoc, ← joined_cons, ← written]
      rfl
  | case2 a b rest apart ih =>
    obtain ⟨p, ps, free, line, written⟩ := ih
    obtain ⟨first, later⟩ := List.forall_mem_cons.1 free
    -- The byte belongs to the first piece, which goes on with the next one if it goes on at all.
    have longer : Open (a :: p) := by
      refine List.IsChain.cons first fun c mem => ?_
      rw [joined_cons] at line
      rcases p with _ | ⟨d, p⟩
      · cases mem
      · cases mem
        obtain ⟨rfl, -⟩ := List.cons.inj line
        exact apart
    refine ⟨a :: p, ps, List.forall_mem_cons.2 ⟨longer, later⟩, ?_, ?_⟩
    · rw [line, joined_cons, joined_cons, List.cons_append]
    · rw [written, joined_cons, joined_cons, List.cons_append]
  | case3 t short =>
    have free : ∀ q ∈ [t], Open q := List.forall_mem_singleton.2 (open_of_short short)
    exact ⟨t, [], free, (List.append_nil t).symm, (List.append_nil t).symm⟩

theorem replacesClosers_withoutClosers (t : Text) : ReplacesClosers t (withoutClosers t) := by
  obtain ⟨p, ps, free, line, written⟩ := exists_pieces t
  exact ⟨p :: ps, fun q mem => open_iff.1 (free q mem), line, written⟩

theorem lines_ne_nil (nonempty : t ≠ []) : lines t ≠ [] := by
  cases t with
  | nil => exact absurd rfl nonempty
  | cons b t =>
    unfold lines
    split
    · simp
    · split <;> simp

theorem lineFeed_of_mem_lines {line : Text} (mem : line ∈ lines t) : lineFeed ∉ line := by
  fun_induction lines t generalizing line with
  | case1 => cases mem
  | case2 rest ih =>
    rcases List.mem_cons.1 mem with rfl | later
    · simp
    · exact ih later
  | case3 b rest other none ih =>
    obtain rfl := List.mem_singleton.1 mem
    simpa using Ne.symm other
  | case4 b rest other first more eq ih =>
    rw [eq] at ih
    rcases List.mem_cons.1 mem with rfl | later
    · have plain : lineFeed ∉ first := ih (.head _)
      simpa [plain] using Ne.symm other
    · exact ih (.tail _ later)

theorem lineFeed_not_mem_escaped {line : Text} (mem : line ∈ (lines t).map withoutClosers) :
    lineFeed ∉ line := by
  intro feed
  obtain ⟨line, inside, rfl⟩ := List.mem_map.1 mem
  exact lineFeed_of_mem_lines inside (lineFeed_of_withoutClosers feed)

/-- A text falls into its lines and, if a line feed ends it, an empty rest. -/
theorem splitOn_lineFeed (t : Text) : t.splitOn lineFeed =
    lines t ++ if t.getLast?.getD lineFeed = lineFeed then [[]] else [] := by
  induction t with
  | nil => rfl
  | cons b t ih =>
    rw [List.splitOn_cons_eq_if_modifyHead, ih, List.getLast?_cons, lines]
    by_cases feed : b = lineFeed
    · simp [feed]
    · rw [if_neg (by simpa using feed), if_neg feed]
      rcases t with _ | ⟨c, t⟩
      · simp [lines, feed]
      · obtain ⟨first, more, eq⟩ := List.exists_cons_of_ne_nil (lines_ne_nil (List.cons_ne_nil c t))
        rw [eq, List.getLast?_cons]
        rfl

theorem separated_eq_lines (nonempty : t ≠ []) : separated t = lines t := by
  have last : t.getLast?.getD lineFeed = t.getLast nonempty := by
    rw [List.getLast?_eq_some_getLast nonempty, Option.getD_some]
  unfold separated
  rw [splitOn_lineFeed, last, List.getLast?_eq_some_getLast nonempty]
  by_cases feed : t.getLast nonempty = lineFeed
  · rw [if_pos (congrArg some feed), if_pos feed, List.dropLast_concat]
  · rw [if_neg (feed ∘ Option.some.inj), if_neg feed, List.append_nil]

/-! ## Frames -/

/-- A line of a block comment without the line feed at its end. -/
def starred (pad line : Text) : Text := pad ++ " *" ++ if line = [] then [] else space :: line

theorem blockLine_eq (pad line : Text) : blockLine pad line = starred pad line ++ "\n" := by
  unfold blockLine starred
  split
  · rw [List.append_nil, List.append_assoc]
    rfl
  · simp only [List.append_assoc]
    rfl

theorem dropPrefix?_append (x t : Text) : (x ++ t).dropPrefix? x = some t :=
  List.dropPrefix?_append_of_beq t (beq_self_eq_true x)

theorem dropSuffix?_append (t x : Text) : (t ++ x).dropSuffix? x = some t :=
  List.dropSuffix?_eq_some_iff.2 ⟨x, rfl, beq_self_eq_true x⟩

theorem unframedLine_starred (pad line : Text) :
    unframedLine pad (starred pad line) = some line := by
  rw [unframedLine, starred, dropPrefix?_append]
  split_ifs with empty
  · rw [empty]
  · rfl

theorem mapM_starred (pad : Text) (block : List Text) :
    (block.map (starred pad)).mapM (unframedLine pad) = some block := by
  induction block with
  | nil => rfl
  | cons line block ih =>
    rw [List.map_cons, List.mapM_cons, unframedLine_starred, ih]
    rfl

theorem unframed_line (indent : Nat) (line : Text) :
    unframed indent (spaces indent ++ "/** " ++ line ++ " */\n") = some [line] := by
  have whole : spaces indent ++ "/** " ++ line ++ " */\n" =
      (spaces indent ++ "/**") ++ space :: (line ++ " */\n") := by
    simp only [List.append_assoc]
    rfl
  rw [unframed, whole, dropPrefix?_append]
  dsimp only
  rw [if_pos rfl, dropSuffix?_append]
  rfl

theorem lineFeed_not_mem_spaces (n : Nat) : lineFeed ∉ spaces n :=
  fun mem => absurd (eq_space_of_mem_spaces mem) (by decide)

theorem lineFeed_not_mem_starred {pad line : Text} (noFeed : lineFeed ∉ pad)
    (plain : lineFeed ∉ line) : lineFeed ∉ starred pad line := by
  have star : lineFeed ∉ (" *" : Text) ∧ lineFeed ≠ space := by decide
  unfold starred
  split
  · simp [noFeed, star]
  · simp [noFeed, star, plain]

theorem splitOn_starred (pad : Text) (noFeed : lineFeed ∉ pad) {block : List Text}
    (plain : ∀ line ∈ block, lineFeed ∉ line) :
    (block.flatMap (blockLine pad)).splitOn lineFeed = block.map (starred pad) ++ [[]] := by
  induction block with
  | nil => rfl
  | cons line block ih =>
    obtain ⟨first, later⟩ := List.forall_mem_cons.1 plain
    have free : lineFeed ∉ starred pad line := lineFeed_not_mem_starred noFeed first
    rw [List.flatMap_cons, blockLine_eq, List.append_assoc, List.map_cons, List.cons_append]
    show (starred pad line ++ lineFeed :: block.flatMap (blockLine pad)).splitOn lineFeed = _
    rw [List.splitOn_append_cons_self_of_not_mem free, ih later]

theorem unframed_block {block : List Text} (indent : Nat)
    (plain : ∀ line ∈ block, lineFeed ∉ line) :
    unframed indent (spaces indent ++ "/**\n" ++ block.flatMap (blockLine (spaces indent)) ++
      spaces indent ++ " */\n") = some block := by
  have whole : spaces indent ++ "/**\n" ++ block.flatMap (blockLine (spaces indent)) ++
      spaces indent ++ " */\n" = (spaces indent ++ "/**") ++
        lineFeed :: (block.flatMap (blockLine (spaces indent)) ++ (spaces indent ++ " */\n")) := by
    simp only [List.append_assoc]
    rfl
  rw [unframed, whole, dropPrefix?_append]
  dsimp only
  rw [if_neg (by decide), if_pos rfl, dropSuffix?_append]
  dsimp only
  rw [splitOn_starred _ (lineFeed_not_mem_spaces indent) plain, List.dropLast_concat, mapM_starred]

/-- Every comment is made in one of two ways. -/
theorem comment_cases {description : Text} (nonempty : description ≠ []) (indent : Nat) :
    (∃ line, (lines description).map withoutClosers = [line] ∧
      comment description indent = spaces indent ++ "/** " ++ line ++ " */\n") ∨
    comment description indent = spaces indent ++ "/**\n" ++
      ((lines description).map withoutClosers).flatMap (blockLine (spaces indent)) ++
        spaces indent ++ " */\n" := by
  unfold comment
  dsimp only
  rw [if_neg nonempty]
  split
  · rename_i line eq
    exact .inl ⟨line, eq, rfl⟩
  · exact .inr rfl

theorem inert_blockLine (pad : Text) (inert : Inert pad) {line : Text} (h : Open line) :
    Inert (blockLine pad line) := by
  have star : Inert " *" := inert_blank (.singleton _)
  rw [blockLine_eq]
  refine ((inert.append star).append ?_).append inert_lineFeed
  split
  · exact inert_nil
  · exact inert_blank h

/-- What stands in a comment, with the star of its closer, closes no comment. -/
theorem exists_inside {description : Text} (nonempty : description ≠ []) (indent : Nat) :
    ∃ inside, comment description indent = spaces indent ++ "/**" ++ inside ++ "*/\n" ∧
      Inert (inside ++ "*") := by
  have star : Inert " *" := inert_blank (.singleton _)
  have free : ∀ line ∈ (lines description).map withoutClosers, Open line := by
    intro line mem
    obtain ⟨line, -, rfl⟩ := List.mem_map.1 mem
    exact open_withoutClosers line
  rcases comment_cases nonempty indent with ⟨line, single, eq⟩ | eq
  · refine ⟨" " ++ line ++ " ", ?_, ?_⟩
    · rw [eq]
      simp only [List.append_assoc]
      rfl
    · rw [List.append_assoc]
      exact (inert_blank (free line (single ▸ .head _))).append star
  · refine ⟨"\n" ++ ((lines description).map withoutClosers).flatMap (blockLine (spaces indent)) ++
      spaces indent ++ " ", ?_, ?_⟩
    · rw [eq]
      simp only [List.append_assoc]
      rfl
    · have block := inert_flatMap fun line mem =>
        inert_blockLine _ (inert_spaces indent) (free line mem)
      have whole := ((inert_lineFeed.append block).append (inert_spaces indent)).append star
      simp only [List.append_assoc] at whole ⊢
      exact whole

theorem unframed_comment {description : Text} (nonempty : description ≠ []) (indent : Nat) :
    unframed indent (comment description indent) =
      some ((lines description).map withoutClosers) := by
  rcases comment_cases nonempty indent with ⟨line, single, eq⟩ | eq
  · rw [eq, single, unframed_line]
  · rw [eq]
    exact unframed_block indent fun line mem => lineFeed_not_mem_escaped mem

/-- **A comment is closed once, at its end, and holds all of its description.** -/
theorem comment_contained (description : Text) (indent : Nat) :
    (comment description indent = [] ↔ description = []) ∧
    (description ≠ [] →
      spaces indent ++ ("/**" : Text) <+: comment description indent ∧
      ("*/\n" : Text) <:+ comment description indent ∧
      (∀ before after, comment description indent = before ++ ("*/" : Text) ++ after →
        after = "\n") ∧
      ∃ contents, unframed indent (comment description indent) = some contents ∧
        List.Forall₂ ReplacesClosers (separated description) contents) := by
  constructor
  · constructor
    · intro empty
      by_contra nonempty
      obtain ⟨inside, eq, -⟩ := exists_inside nonempty indent
      have nothing := eq.symm.trans empty
      simp only [List.append_eq_nil_iff] at nothing
      cases nothing.2
    · rintro rfl
      rfl
  · intro nonempty
    obtain ⟨inside, eq, inert⟩ := exists_inside nonempty indent
    refine ⟨⟨inside ++ "*/\n", ?_⟩, ⟨_, eq.symm⟩, ?_, ?_⟩
    · rw [eq, List.append_assoc (spaces indent ++ ("/**" : Text))]
    · intro before after same
      have free : Open (spaces indent ++ "/**" ++ inside ++ "*") := by
        rw [List.append_assoc (spaces indent ++ ("/**" : Text))]
        exact (open_opening indent).append inert
      exact eq_of_closer free (eq.symm.trans same)
    · refine ⟨_, unframed_comment nonempty indent, ?_⟩
      rw [separated_eq_lines nonempty, List.forall₂_map_right_iff, List.forall₂_same]
      exact fun line _ => replacesClosers_withoutClosers line

/-- Two lines in which closers and what looks like parts of them run into one another. -/
def closers : Text := "**//\n*/*/ /"

/-- They stay in their comment, with its only closer at the end. -/
theorem closers_contained : closers ≠ [] ∧
    (∀ before after, comment closers 2 = before ++ ("*/" : Text) ++ after → after = "\n") ∧
    unframed 2 (comment closers 2) = some (["**\\//", "*\\/*\\/ /"] : List Text) := by
  have nonempty : closers ≠ [] := by decide
  obtain ⟨-, -, only, -⟩ := (comment_contained closers 2).2 nonempty
  exact ⟨nonempty, only, by decide +kernel⟩

end SchemaTypes.Text
