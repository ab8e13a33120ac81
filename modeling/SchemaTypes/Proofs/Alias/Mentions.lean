import SchemaTypes.Alias.Registry
import SchemaTypes.Proofs.Alias.Scanning
import SchemaTypes.Proofs.TypeExpr.Acceptance

namespace SchemaTypes

open Text TypeExpr

namespace Identifiers

/-- A run that starts with no digit does not start in a text whose bytes of identifiers are all
digits. -/
theorem mem_splitOnP_append {x y w : Text} (digits : ∀ b ∈ x, isPart b = true → isDigit b = true)
    (nonempty : w ≠ []) (named : w.head?.any isDigit = false)
    (mem : w ∈ (x ++ y).splitOnP (!isPart ·)) : w ∈ y.splitOnP (!isPart ·) := by
  induction x with
  | nil => exact mem
  | cons b x ih =>
    obtain ⟨digit, rest⟩ := List.forall_mem_cons.1 digits
    rw [List.cons_append, List.splitOnP_cons_eq_if_modifyHead] at mem
    split at mem
    · exact ih rest ((List.mem_cons.1 mem).resolve_left nonempty)
    · rename_i part
      obtain ⟨first, later, eq⟩ :=
        List.exists_cons_of_ne_nil (List.splitOnP_ne_nil (!isPart ·) (x ++ y))
      rw [eq, List.modifyHead_cons] at mem
      rcases List.mem_cons.1 mem with rfl | behind
      · have other : isDigit b = false := named
        rw [digit (by simpa using part)] at other
        cases other
      · exact ih rest (eq ▸ .tail _ behind)

/-- Of what is no word, the scan leaves no bytes of identifiers but digits. -/
theorem lexeme_digits {b : UInt8} {rest : Text} {l : Lexeme} {more : Nat}
    (read : lexeme b rest = .ok (l, more)) (plain : NoHoles [l]) (noWord : ∀ w, l ≠ .word w) :
    ∀ c ∈ blanked .code (b :: rest.take more), isPart c = true → isDigit c = true := by
  have literal {t : Text} (delimiter : isDelimiter b = true) (ending : Ending b t) :
      ∀ c ∈ blanked .code (b :: t), isPart c = true → isDigit c = true := by
    intro c mem part
    rw [blanked, if_neg (by simp [delimiter]), Region.after, if_pos delimiter] at mem
    rcases List.mem_cons.1 mem with rfl | inside
    · cases part
    · rw [ending.hidden c inside] at part
      cases part
  rcases lexeme_eq_ok read with ⟨-, rfl, -⟩ | ⟨digit, rfl, rfl⟩ | ⟨quote, closed, rfl⟩ |
    ⟨rfl, closed, rfl⟩ | ⟨m, rfl, found, rfl⟩
  · exact absurd rfl (noWord _)
  · have number : ∀ c ∈ b :: rest.takeWhile continuesNumber, continuesNumber c = true := by
      intro c mem
      rcases List.mem_cons.1 mem with rfl | later
      · simp [continuesNumber, digit]
      · exact List.mem_takeWhile_imp later
    rw [take_takeWhile, blanked_code fun c mem => not_delimiter_of_number (number c mem)]
    intro c mem part
    have shape := number c mem
    simp only [continuesNumber, Bool.or_eq_true, beq_iff_eq] at shape
    rcases shape with digit | rfl
    · exact digit
    · cases part
  · refine literal ?_ (ending_string ?_ closed)
    · rcases quote with rfl | rfl <;> decide
    · rcases quote with rfl | rfl <;> decide
  · exact literal (by decide) (ending_template closed (plain _ (.head _))).2
  · intro c mem part
    rw [← (text_of_mark? found).1, blanked_code fun c mem => (mark_facts m c mem).2] at mem
    rw [(mark_facts m c mem).1] at part
    cases part

theorem word_of_mem_runs {offset : Nat} {source w : Text} {ts : List Token}
    (h : tokensFrom offset source = .ok ts) (plain : NoHoles (ts.map (·.lexeme)))
    (nonempty : w ≠ []) (named : w.head?.any isDigit = false) (mem : w ∈ runs source) :
    .word w ∈ ts.map (·.lexeme) := by
  fun_induction tokensFrom offset source generalizing ts with
  | case1 => exact absurd (by simpa [runs, blanked] using mem) nonempty
  | case2 offset b rest blank ih =>
    obtain ⟨stop, outside⟩ := blank_facts blank
    have whole : blanked .code (b :: rest) = [b] ++ blanked .code rest := by
      rw [← List.singleton_append, blanked_append, blanked_code (by simpa using outside),
        run_code (by simpa using outside)]
    rw [runs, whole] at mem
    refine ih h plain (mem_splitOnP_append ?_ nonempty named mem)
    simp [stop]
  | case3 => cases h
  | case4 offset b rest visible l more read ih =>
    obtain ⟨later, read', rfl⟩ := map_eq_ok.1 h
    rw [List.map_cons] at plain ⊢
    have whole : b :: rest = (b :: rest.take more) ++ rest.drop more := by
      rw [List.cons_append, List.take_append_drop]
    have here : NoHoles [l] := fun text mem => plain text (List.mem_singleton.1 mem ▸ .head _)
    have code := (lexeme_scanned read here).1
    rw [runs, whole, blanked_append, code] at mem
    have behind (inside : w ∈ runs (rest.drop more)) : .word w ∈ later.map (·.lexeme) :=
      ih read' (fun text mem => plain text (.tail _ mem)) inside
    by_cases word : ∃ v, l = .word v
    · obtain ⟨v, rfl⟩ := word
      obtain ⟨eq, parts, stop⟩ := lexeme_word read
      have part : ∀ c ∈ v, (!isPart c) = false := fun c mem => by simp [parts c mem]
      rw [← eq, blanked_code fun c mem => not_delimiter_of_part (parts c mem)] at mem
      -- The word is a run by itself, and all other runs are found behind it.
      cases rest' : rest.drop more with
      | nil =>
        rw [rest', blanked, List.append_nil, List.splitOnP_eq_singleton part] at mem
        rw [List.mem_singleton.1 mem]
        exact .head _
      | cons c t =>
        obtain ⟨d, u, eq', other⟩ := blanked_cons_not_part (stop c t rest') .code t
        rw [rest', eq', List.splitOnP_append_cons_of_forall_mem part d (by simp [other])] at mem
        rcases List.mem_cons.1 mem with rfl | inside
        · exact .head _
        · refine .tail _ (behind ?_)
          rw [runs, rest', eq', List.splitOnP_cons_eq_if_modifyHead, if_pos (by simp [other])]
          exact .tail _ inside
    · have digits := lexeme_digits read here fun v eq => word ⟨v, eq⟩
      exact .tail _ (behind (mem_splitOnP_append digits nonempty named mem))

end Identifiers

/-- An accepted body without interpolations mentions exactly the aliases whose names are words of
it. -/
theorem mem_mentionedIn_iff {body : Text} {a : Alias} {ts : List Token}
    (read : tokens body = .ok ts) (plain : NoHoles (ts.map (·.lexeme)))
    (derived : Matches True (.form .type) (ts.map (·.lexeme)) []) :
    a ∈ Alias.mentionedIn body ↔ .word a.name ∈ ts.map (·.lexeme) := by
  constructor
  · intro mem
    have found : a.name ∈ Identifiers.runs body := by simpa using (List.mem_filter.1 mem).2
    exact Identifiers.word_of_mem_runs read plain (by cases a <;> decide) (by cases a <;> rfl) found
  · exact mentionedIn_of_word read plain derived

theorem noHoles_of_noBackquote {offset : Nat} {source : Text} {ts : List Token}
    (read : tokensFrom offset source = .ok ts) (free : backquote ∉ source) :
    NoHoles (ts.map (·.lexeme)) := by
  fun_induction tokensFrom offset source generalizing ts with
  | case1 =>
    cases read
    exact fun text mem => absurd mem List.not_mem_nil
  | case2 offset b rest blank ih => exact ih read fun mem => free (.tail _ mem)
  | case3 => cases read
  | case4 offset b rest visible l more first ih =>
    obtain ⟨later, read', rfl⟩ := map_eq_ok.1 read
    rintro text (_ | ⟨_, mem⟩)
    · rcases lexeme_eq_ok first with ⟨-, eq, -⟩ | ⟨-, eq, -⟩ | ⟨-, -, eq⟩ | ⟨rfl, -⟩ |
        ⟨m, eq, -⟩
      · cases eq
      · cases eq
      · cases eq
      · exact absurd (.head _) free
      · cases eq
    · exact ih read' (fun mem => free (.tail _ (List.mem_of_mem_drop mem))) text mem

namespace Registry

/-- **An accepted body without backquotes mentions its words.** An alias is a dependency exactly if
some token of the body is a word that is its name. No alias is listed twice, and they are in the
order of the aliases. -/
theorem dependencies_noBackquote (r : Registry) (a : Alias) (free : backquote ∉ r.body a)
    (accepted : problem? (r.body a) = none) :
    ∃ ts, tokens (r.body a) = .ok ts ∧
      (∀ b, b ∈ r.dependencies a ↔ ∃ t ∈ ts, t.lexeme = .word b.name) ∧
      (r.dependencies a).Nodup ∧
      (r.dependencies a).Sublist [.maybe, .inputMaybe, .fieldWrapper, .entireFieldWrapper] := by
  obtain ⟨ts, read, derived⟩ := exists_tokens_of_accepted accepted
  have ordered : (r.dependencies a).Sublist Alias.all := List.filter_sublist
  have words (b : Alias) : b ∈ r.dependencies a ↔ ∃ t ∈ ts, t.lexeme = .word b.name := by
    rw [dependencies, mem_mentionedIn_iff read (noHoles_of_noBackquote read free) derived,
      List.mem_map]
  exact ⟨ts, read, words, ordered.nodup (by decide), ordered⟩

/-- A body with the names of aliases in a literal, in a longer word and behind a number. -/
def worded : Registry where
  bodies := .ofFun fun _ => "InputMaybe<1extends T ? 'Maybe' : Maybe$> | FieldWrapper.id"
  noExport := false

/-- It mentions the two aliases that are words of it. -/
theorem dependencies_worded : backquote ∉ worded.body .maybe ∧
    problem? (worded.body .maybe) = none ∧ ∃ ts, tokens (worded.body .maybe) = .ok ts ∧
      (∀ b, b ∈ worded.dependencies .maybe ↔ ∃ t ∈ ts, t.lexeme = .word b.name) ∧
      worded.dependencies .maybe = [.inputMaybe, .fieldWrapper] := by
  have free : backquote ∉ worded.body .maybe := by decide +kernel
  have accepted : problem? (worded.body .maybe) = none := by decide +kernel
  obtain ⟨ts, read, words, -⟩ := dependencies_noBackquote worded .maybe free accepted
  exact ⟨free, accepted, ts, read, words, by decide +kernel⟩

end Registry

end SchemaTypes
