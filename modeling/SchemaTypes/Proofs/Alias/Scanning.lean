import Mathlib.Data.List.TakeWhile
import SchemaTypes.Alias.Basic
import SchemaTypes.Proofs.Results
import SchemaTypes.Proofs.TypeExpr.Adjacency
import SchemaTypes.Proofs.TypeExpr.Lexing
import SchemaTypes.Proofs.TypeExpr.Reference

/-!
# Two ways to read a body

The checker reads a body as tokens; to find what it mentions, it is scanned byte by byte. The two
agree where no template literal has an interpolation.
-/

namespace SchemaTypes

open Text TypeExpr

namespace Identifiers

/-- Where the byte after a text stands. -/
def Region.run (r : Region) (t : Text) : Region := t.foldl (fun r b => r.after b) r

theorem Region.run_cons (r : Region) (b : UInt8) (t : Text) :
    r.run (b :: t) = (r.after b).run t := rfl

theorem Region.run_append (r : Region) (x y : Text) : r.run (x ++ y) = (r.run x).run y :=
  List.foldl_append ..

theorem blanked_append (r : Region) (x y : Text) :
    blanked r (x ++ y) = blanked r x ++ blanked (r.run x) y := by
  induction x generalizing r with
  | nil => rfl
  | cons b x ih =>
    rw [List.cons_append, blanked, blanked, ih, Region.run_cons, List.cons_append]

theorem run_code {x : Text} (h : ∀ b ∈ x, isDelimiter b = false) :
    Region.code.run x = .code := by
  induction x with
  | nil => rfl
  | cons b x ih =>
    rw [Region.run_cons, Region.after, if_neg (by simp [h b (.head _)])]
    exact ih fun c mem => h c (.tail _ mem)

theorem not_part_of_delimiter {b : UInt8} (h : isDelimiter b = true) : isPart b = false := by
  simp only [isDelimiter, Bool.or_eq_true, beq_iff_eq] at h
  rcases h with (rfl | rfl) | rfl <;> decide

theorem not_delimiter_of_part {b : UInt8} (h : isPart b = true) : isDelimiter b = false := by
  cases delimiter : isDelimiter b with
  | false => rfl
  | true =>
    rw [not_part_of_delimiter delimiter] at h
    cases h

theorem isPart_eq (b : UInt8) : isPart b = continuesWord b := by
  simp only [isPart, continuesWord, startsWord]
  rw [Bool.or_right_comm (isLetter b), Bool.or_right_comm]

theorem blank_facts {b : UInt8} (h : isBlank b = true) :
    isPart b = false ∧ isDelimiter b = false := by
  simp only [isBlank, Bool.or_eq_true, beq_iff_eq] at h
  rcases h with ((rfl | rfl) | rfl) | rfl <;> decide

theorem mark_facts (m : Mark) : ∀ b ∈ m.text, isPart b = false ∧ isDelimiter b = false := by
  cases m <;> decide +kernel

theorem not_delimiter_of_number {b : UInt8} (h : continuesNumber b = true) :
    isDelimiter b = false := by
  simp only [continuesNumber, Bool.or_eq_true, beq_iff_eq] at h
  rcases h with digit | rfl
  · exact not_delimiter_of_part (by simp [isPart, digit])
  · decide

theorem blanked_code {x : Text} (h : ∀ b ∈ x, isDelimiter b = false) : blanked .code x = x := by
  induction x with
  | nil => rfl
  | cons b x ih =>
    have code := h b (.head _)
    have stays : Region.code.after b = .code := if_neg (by simp [code])
    rw [blanked, if_pos ⟨rfl, by simp [code]⟩, stays, ih fun c mem => h c (.tail _ mem)]

theorem blanked_cons_not_part {b : UInt8} (h : isPart b = false) (r : Region) (t : Text) :
    ∃ c u, blanked r (b :: t) = c :: u ∧ isPart c = false := by
  refine ⟨_, _, rfl, ?_⟩
  split
  · exact h
  · decide

/-- The text is empty or ends with a byte that is no part of an identifier. -/
def Cut (pre : Text) : Prop := pre = [] ∨ ∃ init last, pre = init ++ [last] ∧ isPart last = false

/-- The text is empty or starts with a byte that is no part of an identifier. -/
def CutAhead (post : Text) : Prop := ∀ b t, post = b :: t → isPart b = false

/-- A word in code with no other bytes of identifiers around it is a run. -/
theorem mem_runs {pre w post : Text} (code : Region.code.run pre = .code)
    (parts : ∀ b ∈ w, isPart b = true) (left : Cut pre) (right : CutAhead post) :
    w ∈ runs (pre ++ (w ++ post)) := by
  have delimiters : ∀ b ∈ w, isDelimiter b = false :=
    fun b mem => not_delimiter_of_part (parts b mem)
  have whole : ∀ b ∈ w, (!isPart b) = false := fun b mem => by simp [parts b mem]
  have rest : w ∈ (w ++ blanked .code post).splitOnP (!isPart ·) := by
    cases post with
    | nil =>
      rw [blanked, List.append_nil, List.splitOnP_eq_singleton whole]
      exact .head _
    | cons b t =>
      obtain ⟨c, u, eq, stop⟩ := blanked_cons_not_part (right b t rfl) .code t
      rw [eq, List.splitOnP_append_cons_of_forall_mem whole c (by simp [stop])]
      exact .head _
  rw [runs, blanked_append, code, blanked_append, run_code delimiters,
    blanked_code delimiters]
  rcases left with rfl | ⟨init, last, rfl, stop⟩
  · exact rest
  · obtain ⟨c, u, eq, stop'⟩ := blanked_cons_not_part stop (Region.code.run init) []
    obtain rfl : u = [] := (List.cons.inj eq).2.symm
    rw [blanked_append, eq, List.append_assoc, List.singleton_append,
      List.splitOnP_append_cons _ _ (by simp [stop'])]
    exact List.mem_append_right _ rest

/-! ## Literals -/

/-- A text closes a literal with its last byte. -/
def Closes (delimiter : UInt8) (t : Text) : Prop :=
  (Region.literal delimiter).run t = .code ∧ ∃ init, t = init ++ [delimiter]

namespace Closes

variable {d : UInt8} {t : Text}

theorem last (d : UInt8) : Closes d [d] := ⟨if_pos rfl, [], rfl⟩

theorem cons {b : UInt8} (h : Closes d t) (other : b ≠ d) (plain : b ≠ backslash) :
    Closes d (b :: t) := by
  obtain ⟨run, init, rfl⟩ := h
  refine ⟨?_, b :: init, rfl⟩
  rw [Region.run_cons, Region.after, if_neg other, if_neg plain]
  exact run

theorem escape (h : Closes d t) (other : backslash ≠ d) (c : UInt8) :
    Closes d (backslash :: c :: t) := by
  obtain ⟨run, init, rfl⟩ := h
  refine ⟨?_, backslash :: c :: init, rfl⟩
  rw [Region.run_cons, Region.run_cons, Region.after, if_neg other, if_pos rfl]
  exact run

end Closes

/-- The rest of a literal, up to the first delimiter that no backslash stands before. -/
inductive Ending (d : UInt8) : Text → Prop where
  | last : Ending d [d]
  | cons {b t} : Ending d t → b ≠ d → b ≠ backslash → Ending d (b :: t)
  | escape {t} : Ending d t → backslash ≠ d → ∀ c, Ending d (backslash :: c :: t)

namespace Ending

variable {d : UInt8} {t : Text}

theorem closes (h : Ending d t) : Closes d t := by
  induction h with
  | last => exact .last d
  | cons _ other plain ih => exact ih.cons other plain
  | escape _ other c ih => exact ih.escape other c

theorem hidden (h : Ending d t) : ∀ b ∈ blanked (.literal d) t, isPart b = false := by
  have blank : isPart space = false := by decide
  induction h with
  | last => simpa [blanked] using blank
  | cons _ other plain ih => simpa [blanked, Region.after, other, plain, blank] using ih
  | escape _ other c ih => simpa [blanked, Region.after, other, blank] using ih

end Ending

theorem ending_string {quote : UInt8} {t : Text} {n : Nat} (other : backslash ≠ quote)
    (h : stringExtent quote t = .closed n) : Ending quote (t.take n) := by
  fun_induction stringExtent quote t generalizing n with
  | case1 => cases h
  | case2 rest =>
    cases h
    exact .last
  | case3 b rest differs stop => cases h
  | case4 => cases h
  | case5 c later differs stop ih =>
    obtain ⟨m, closed, rfl⟩ := after_eq_closed h
    exact (ih closed).escape other c
  | case6 b rest differs stop plain ih =>
    obtain ⟨m, closed, rfl⟩ := after_eq_closed h
    exact (ih closed).cons differs plain

/-- A template literal without interpolations ends where it is closed, and one that is closed inside
an interpolation has that interpolation. -/
theorem ending_template {depth : Nat} {t current : Text} {n : Nat}
    (h : templateExtent depth t = .closed n) (none : holes depth current (t.take n) = []) :
    depth = 0 ∧ Ending backquote (t.take n) := by
  fun_induction templateExtent depth t generalizing n current with
  | case1 => cases h
  | case2 depth b rest here =>
    obtain ⟨rfl, rfl⟩ := here
    cases h
    exact ⟨rfl, .last⟩
  | case3 => cases h
  | case4 => cases h
  | case5 depth c later differs _ ih =>
    obtain ⟨m, closed, rfl⟩ := after_eq_closed h
    rw [List.take_succ_cons, List.take_succ_cons, holes, if_neg differs, if_pos rfl] at none
    obtain ⟨rfl, ending⟩ := ih closed none
    exact ⟨rfl, ending.escape (by decide) c⟩
  | case6 => cases h
  | case7 b _ plain c later opens differs ih =>
    obtain ⟨m, closed, rfl⟩ := after_eq_closed h
    rw [List.take_succ_cons, List.take_succ_cons, holes, if_neg differs, if_neg plain, if_pos rfl]
      at none
    simp only [opens, and_self, if_true] at none
    cases (ih closed none).1
  | case8 b _ plain c later opens differs ih =>
    obtain ⟨m, closed, rfl⟩ := after_eq_closed h
    have other : b ≠ backquote := fun same => differs ⟨rfl, same⟩
    cases m with
    | zero =>
      have nothing : holes 0 [] ((c :: later).take 0) = [] := rfl
      cases (ih closed nothing).2
    | succ m =>
      rw [List.take_succ_cons, List.take_succ_cons, holes, if_neg differs, if_neg plain, if_pos rfl]
        at none
      simp only [opens, if_false] at none
      exact ⟨rfl, (ih closed none).2.cons other plain⟩
  | case9 depth rest inside differs _ plain ih =>
    obtain ⟨m, closed, rfl⟩ := after_eq_closed h
    rw [List.take_succ_cons, holes_inside inside plain, if_pos rfl] at none
    cases (ih closed none).1
  | case10 depth rest inside differs _ plain noOpen ih =>
    obtain ⟨m, closed, rfl⟩ := after_eq_closed h
    rw [List.take_succ_cons, holes_inside inside plain, if_neg noOpen, if_pos rfl] at none
    split at none
    · cases none
    · have := (ih closed none).1
      omega
  | case11 depth b rest differs _ plain inside noOpen noClose ih =>
    obtain ⟨m, closed, rfl⟩ := after_eq_closed h
    rw [List.take_succ_cons, holes_inside inside plain, if_neg noOpen, if_neg noClose] at none
    exact absurd (ih closed none).1 inside

theorem cutAhead_dropWhile (t : Text) : CutAhead (t.dropWhile continuesWord) := by
  intro b rest eq
  have stop := List.head?_dropWhile_not continuesWord t
  rw [eq, List.head?_cons] at stop
  rw [isPart_eq]
  simpa using stop

theorem lexeme_word {b : UInt8} {rest w : Text} {more : Nat}
    (h : lexeme b rest = .ok (.word w, more)) :
    w = b :: rest.take more ∧ (∀ c ∈ w, isPart c = true) ∧ CutAhead (rest.drop more) := by
  rcases lexeme_eq_ok h with ⟨starts, eq, rfl⟩ | ⟨-, eq, -⟩ | ⟨-, -, eq⟩ | ⟨-, -, eq⟩ | ⟨m, eq, -⟩
  · cases eq
    rw [take_takeWhile, drop_takeWhile]
    refine ⟨rfl, fun c mem => ?_, cutAhead_dropWhile rest⟩
    rw [isPart_eq]
    rcases List.mem_cons.1 mem with rfl | later
    · simp [continuesWord, starts]
    · exact List.mem_takeWhile_imp later
  · cases eq
  · cases eq
  · cases eq
  · cases eq

theorem Closes.scanned {d : UInt8} {t : Text} (h : Closes d t) (delimiter : isDelimiter d = true) :
    Region.code.run (d :: t) = .code ∧ Cut (d :: t) := by
  obtain ⟨run, init, rfl⟩ := h
  refine ⟨?_, .inr ⟨d :: init, d, rfl, not_part_of_delimiter delimiter⟩⟩
  rw [Region.run_cons, Region.after, if_pos delimiter]
  exact run

/-- After a lexeme without interpolations the scan is back in code, and a word behind it stands
apart from it unless it is a number. -/
theorem lexeme_scanned {b : UInt8} {rest : Text} {l : Lexeme} {more : Nat}
    (h : lexeme b rest = .ok (l, more)) (plain : NoHoles [l]) :
    Region.code.run (b :: rest.take more) = .code ∧
      (¬ l.IsNumber → Cut (b :: rest.take more) ∨ CutAhead (rest.drop more)) := by
  rcases lexeme_eq_ok h with ⟨-, rfl, -⟩ | ⟨digit, rfl, rfl⟩ | ⟨quote, closed, rfl⟩ |
    ⟨rfl, closed, rfl⟩ | ⟨m, rfl, found, rfl⟩
  · obtain ⟨eq, parts, stop⟩ := lexeme_word h
    rw [← eq]
    exact ⟨run_code fun c mem => not_delimiter_of_part (parts c mem), fun _ => .inr stop⟩
  · refine ⟨run_code fun c mem => not_delimiter_of_number ?_, fun word => absurd trivial word⟩
    rw [take_takeWhile] at mem
    rcases List.mem_cons.1 mem with rfl | later
    · simp [continuesNumber, digit]
    · exact List.mem_takeWhile_imp later
  · have other : backslash ≠ b := by rcases quote with rfl | rfl <;> decide
    have delimiter : isDelimiter b = true := by rcases quote with rfl | rfl <;> decide
    obtain ⟨run, cut⟩ := (ending_string other closed).closes.scanned delimiter
    exact ⟨run, fun _ => .inl cut⟩
  · have none : holes 0 [] (rest.take more) = [] := plain _ (.head _)
    obtain ⟨run, cut⟩ := (ending_template closed none).2.closes.scanned (by decide)
    exact ⟨run, fun _ => .inl cut⟩
  · have text := (text_of_mark? found).1
    rw [← text]
    refine ⟨run_code fun c mem => (mark_facts m c mem).2, fun _ => .inl (.inr ?_)⟩
    have nonempty : m.text ≠ [] := text ▸ List.cons_ne_nil _ _
    refine ⟨m.text.dropLast, m.text.getLast nonempty, ?_, ?_⟩
    · exact (List.dropLast_append_getLast nonempty).symm
    · exact (mark_facts m _ (List.getLast_mem nonempty)).1

/-- A word among the tokens of a text is found by the scan, unless it is written right behind a
number. `pre` is what stands before the text, and `before` the lexemes between it and the word. -/
theorem word_mem_runs {offset : Nat} {source : Text} {ts : List Token}
    (h : tokensFrom offset source = .ok ts) (plain : NoHoles (ts.map (·.lexeme)))
    {before after : List Lexeme} {w : Text} (split : ts.map (·.lexeme) = before ++ .word w :: after)
    (number : ∀ l ∈ before.getLast?, ¬ l.IsNumber) {pre : Text}
    (code : Region.code.run pre = .code) (cut : before = [] → Cut pre ∨ CutAhead source) :
    w ∈ runs (pre ++ source) := by
  fun_induction tokensFrom offset source generalizing ts before pre with
  | case1 offset =>
    cases h
    simp at split
  | case2 offset b rest blank ih =>
    obtain ⟨stop, outside⟩ := blank_facts blank
    have run : Region.code.run (pre ++ [b]) = .code := by
      rw [Region.run_append, code]
      exact run_code (by simpa using outside)
    have found := ih h plain split number run fun _ => .inl (.inr ⟨pre, b, rfl, stop⟩)
    simpa using found
  | case3 => cases h
  | case4 offset b rest visible l more read ih =>
    obtain ⟨later, read', rfl⟩ := map_eq_ok.1 h
    rw [List.map_cons] at plain split
    cases before with
    | nil =>
      obtain ⟨rfl, -⟩ := List.cons.inj split
      obtain ⟨eq, parts, stop⟩ := lexeme_word read
      have whole : b :: rest = w ++ rest.drop more := by
        rw [eq, List.cons_append, List.take_append_drop]
      rw [whole]
      refine mem_runs code parts ?_ stop
      -- The source begins with the word, so only what stands before it can end a run there.
      refine (cut rfl).resolve_right fun apart => ?_
      have inside : isPart b = true := parts b (eq ▸ .head _)
      rw [apart b rest rfl] at inside
      cases inside
    | cons k before =>
      obtain ⟨rfl, split'⟩ := List.cons.inj split
      obtain ⟨run, apart⟩ := lexeme_scanned read fun text mem => plain text (by simp_all)
      have whole : pre ++ b :: rest = (pre ++ b :: rest.take more) ++ rest.drop more := by simp
      rw [whole]
      refine ih read' (fun text mem => plain text (.tail _ mem)) split' ?_ ?_ ?_
      · intro k mem
        refine number k ?_
        rw [List.getLast?_cons, Option.mem_def.1 mem]
        rfl
      · rw [Region.run_append, code]
        exact run
      · rintro rfl
        refine (apart (number _ rfl)).imp_left ?_
        rintro (empty | ⟨init, last, eq, stop⟩)
        · cases empty
        · exact .inr ⟨pre ++ init, last, by rw [eq, List.append_assoc], stop⟩

end Identifiers

/-- The scan finds every alias whose name is a word of an accepted body. -/
theorem mentionedIn_of_word {body : Text} {a : Alias} {ts : List Token}
    (read : tokens body = .ok ts) (plain : NoHoles (ts.map (·.lexeme)))
    (derived : Matches True (.form .type) (ts.map (·.lexeme)) [])
    (mem : .word a.name ∈ ts.map (·.lexeme)) : a ∈ Alias.mentionedIn body := by
  have ordinary : (Lexeme.word a.name).IsOrdinary := by
    unfold Lexeme.IsOrdinary
    cases a <;> decide
  obtain ⟨before, after, split⟩ := List.append_of_mem mem
  have separated := separated_of_type derived
  rw [split] at separated
  have number : ∀ l ∈ before.getLast?, ¬ l.IsNumber := fun l mem number =>
    (List.isChain_append.1 separated).2.2 l mem _ rfl number ordinary
  have found : a.name ∈ Identifiers.runs ([] ++ body) :=
    Identifiers.word_mem_runs read plain split number rfl fun _ => .inl (.inl rfl)
  exact List.mem_filter.2 ⟨a.mem_all, by simpa using found⟩

/-- **What a body refers to, it mentions.** If no template literal of a body has an interpolation,
the scan finds every alias that the body refers to. -/
theorem mentionedIn_of_refersTo {body : Text} {a : Alias} {ts : List Token}
    (read : tokens body = .ok ts) (plain : NoHoles (ts.map (·.lexeme)))
    (refers : RefersTo body a.name) : a ∈ Alias.mentionedIn body := by
  obtain ⟨ts', read', names⟩ := refers
  obtain rfl : ts = ts' := Except.ok.inj (read.symm.trans read')
  exact mentionedIn_of_word read plain names.matches (names.mem plain)

end SchemaTypes
