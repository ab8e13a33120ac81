import SchemaTypes.Alias.Registry
import SchemaTypes.Proofs.Alias.Scanning
import SchemaTypes.Proofs.Text.Quoting
import SchemaTypes.Proofs.TypeExpr.Seams
import SchemaTypes.Proofs.TypeExpr.Spelling

namespace SchemaTypes

open Text TypeExpr

namespace TypeExpr

variable {v rest : Text}

theorem stringExtent_nul (nul : 0 ∈ v) (rest : Text) :
    ∃ n, stringExtent singleQuote (v.flatMap escaped ++ rest) = .unclosed n := by
  induction v with
  | nil => cases nul
  | cons b v ih =>
    rw [List.flatMap_cons, List.append_assoc]
    by_cases here : b = 0
    · subst here
      refine ⟨0, ?_⟩
      show stringExtent singleQuote (0 :: _) = _
      rw [stringExtent.eq_def]
      rfl
    · obtain ⟨n, opened⟩ := ih ((List.mem_cons.1 nul).resolve_left (Ne.symm here))
      rw [stringExtent_written here, opened]
      exact ⟨_, rfl⟩

theorem tokensFrom_quoted (nulFree : 0 ∉ v) (rest : Text) (offset : Nat) :
    tokensFrom offset (quoted v ++ rest) =
      (tokensFrom (offset + (quoted v).length) rest).map (⟨.string (quoted v), offset⟩ :: ·) := by
  have text : quoted v ++ rest = singleQuote :: ((v.flatMap escaped ++ "'") ++ rest) := rfl
  have length : (quoted v).length = 1 + (v.flatMap escaped ++ "'").length := Nat.add_comm _ _
  rw [text, tokensFrom_next rfl (lexeme_quoted nulFree rest), List.drop_left, length,
    Nat.add_assoc]

theorem spells_quoted (nulFree : 0 ∉ v) : Spells .operand (quoted v) [.string (quoted v)] where
  lexes _ := .quoted nulFree _
  derives _ := Matches.operand_of_literal (by simp [Matches.IsLiteral]) _
  free _ broken := broken

theorem refused_of_nul (nul : 0 ∈ v) (rest : Text) :
    ∃ e, tokens (quoted v ++ rest) = .error e := by
  obtain ⟨n, opened⟩ := stringExtent_nul nul (singleQuote :: rest)
  have read : lexeme singleQuote (v.flatMap escaped ++ singleQuote :: rest) =
      .error (.unterminatedString, 1 + n) := by
    rw [lexeme_of_quote (.inl rfl), opened]
    rfl
  rw [quoted_append, tokens, tokensFrom, if_neg (by decide), read]
  exact ⟨_, rfl⟩

end TypeExpr

namespace Identifiers

variable {v rest : Text}

/-- The identifiers that the scan finds, in order. -/
def found (source : Text) : List Text := (runs source).filter (· ≠ [])

theorem mem_mentionedIn {a : Alias} {source : Text} :
    a ∈ Alias.mentionedIn source ↔ a.name ∈ found source := by
  have named : a.name ≠ [] := by cases a <;> decide
  simp [Alias.mentionedIn, found, Alias.mem_all, named]

theorem ending_quoted (v : Text) : Ending singleQuote (v.flatMap escaped ++ "'") := by
  induction v with
  | nil => exact .last
  | cons b v ih =>
    rw [List.flatMap_cons, List.append_assoc]
    rcases escaped_cases b with ⟨plain, eq⟩ | ⟨c, -, eq⟩
    · simp only [List.mem_cons, List.not_mem_nil, or_false, not_or] at plain
      rw [eq]
      exact ih.cons plain.1 plain.2.1
    · rw [eq]
      exact ih.escape (by decide) c

theorem filter_splitOnP_append {hidden t : Text} (none : ∀ b ∈ hidden, isPart b = false) :
    ((hidden ++ t).splitOnP (!isPart ·)).filter (· ≠ []) =
      (t.splitOnP (!isPart ·)).filter (· ≠ []) := by
  induction hidden with
  | nil => rfl
  | cons b hidden ih =>
    obtain ⟨first, later⟩ := List.forall_mem_cons.1 none
    rw [List.cons_append, List.splitOnP_cons_eq_if_modifyHead, if_pos (by simp [first])]
    exact ih later

theorem filter_splitOnP_middle {b : UInt8} (stop : isPart b = false) (x y : Text) :
    ((x ++ b :: y).splitOnP (!isPart ·)).filter (· ≠ []) =
      (x.splitOnP (!isPart ·)).filter (· ≠ []) ++ (y.splitOnP (!isPart ·)).filter (· ≠ []) := by
  rw [List.splitOnP_append_cons _ _ (by simp [stop]), List.filter_append]

/-- Where no identifier goes on from one text into the next, the scan finds what it finds in each
of the two texts. -/
theorem found_seam {x y : Text} (code : Region.code.run x = .code) (cut : Cut x ∨ CutAhead y) :
    found (x ++ y) = found x ++ found y := by
  rw [found, found, found, runs, runs, runs, blanked_append, code]
  rcases cut with (rfl | ⟨init, last, rfl, stop⟩) | ahead
  · rfl
  · obtain ⟨c, u, eq, stop'⟩ := blanked_cons_not_part stop (Region.code.run init) []
    obtain rfl : u = [] := (List.cons.inj eq).2.symm
    rw [blanked_append, eq, List.append_assoc, List.singleton_append,
      filter_splitOnP_middle stop', filter_splitOnP_middle stop']
    exact congrArg (· ++ _) (List.append_nil _).symm
  · cases y with
    | nil => simp [blanked]
    | cons b y =>
      obtain ⟨c, u, eq, stop⟩ := blanked_cons_not_part (ahead b y rfl) .code y
      rw [eq, filter_splitOnP_middle stop]
      exact congrArg _ (filter_splitOnP_middle stop [] u).symm

theorem found_append_singleton {b : UInt8} (stop : isPart b = false) (x : Text) :
    found (x ++ [b]) = found x := by
  obtain ⟨c, u, eq, stop'⟩ := blanked_cons_not_part stop (Region.code.run x) []
  obtain rfl : u = [] := (List.cons.inj eq).2.symm
  rw [found, found, runs, runs, blanked_append, eq, filter_splitOnP_middle stop']
  exact List.append_nil _

theorem found_word {w : Text} (nonempty : w ≠ []) (parts : ∀ b ∈ w, isPart b = true) :
    found w = [w] := by
  have whole : ∀ b ∈ w, (!isPart b) = false := fun b mem => by simp [parts b mem]
  rw [found, runs, blanked_code fun b mem => not_delimiter_of_part (parts b mem),
    List.splitOnP_eq_singleton whole]
  simp [nonempty]

/-- Before and behind a literal, the scan finds what it finds in each of the two texts. -/
theorem found_literal {d : UInt8} {body pre : Text} (delimiter : isDelimiter d = true)
    (ending : Ending d body) (code : Region.code.run pre = .code) (rest : Text) :
    found (pre ++ ((d :: body) ++ rest)) = found pre ++ found rest := by
  have stop := not_part_of_delimiter delimiter
  obtain ⟨back, cut⟩ := ending.closes.scanned delimiter
  have ahead : CutAhead ((d :: body) ++ rest) := by
    intro b t eq
    rw [← (List.cons.inj eq).1]
    exact stop
  have literal : found (d :: body) = [] := by
    have blanked : blanked .code (d :: body) = space :: blanked (.literal d) body := by
      rw [blanked, if_neg (by simp [delimiter]), Region.after, if_pos delimiter]
    have blank : isPart space = false := by decide
    rw [found, runs, blanked, ← List.append_nil (space :: _),
      filter_splitOnP_append (List.forall_mem_cons.2 ⟨blank, ending.hidden⟩)]
    rfl
  rw [found_seam code (.inr ahead), found_seam back (.inl cut), literal, List.nil_append]

theorem found_append {pre : Text} (code : Region.code.run pre = .code) (v rest : Text) :
    found (pre ++ (quoted v ++ rest)) = found pre ++ found rest :=
  found_literal (by decide) (ending_quoted v) code rest

end Identifiers

/-- **Both ways to read agree on quoted text.** -/
theorem quoted_scanned (v rest : Text) :
    (0 ∉ v → Lexes (quoted v ++ rest) [.string (quoted v)] rest ∧
      ∀ offset, tokensFrom offset (quoted v ++ rest) =
        (tokensFrom (offset + (quoted v).length) rest).map (⟨.string (quoted v), offset⟩ :: ·)) ∧
    (problem? (quoted v) = none ↔ 0 ∉ v) ∧
    Identifiers.found (quoted v ++ rest) = Identifiers.found rest ∧
    ∀ (r : Registry) (a : Alias) (pre : Text), Identifiers.Region.code.run pre = .code →
      r.body a = pre ++ (quoted v ++ rest) →
      ∀ b, b ∈ r.dependencies a ↔ b ∈ Alias.mentionedIn pre ∨ b ∈ Alias.mentionedIn rest := by
  refine ⟨fun nulFree => ⟨.quoted nulFree rest, tokensFrom_quoted nulFree rest⟩, ⟨?_, ?_⟩, ?_, ?_⟩
  · intro accepted nul
    obtain ⟨e, refused⟩ := refused_of_nul nul []
    obtain ⟨ts, read, -⟩ := exists_tokens_of_accepted accepted
    rw [List.append_nil, read] at refused
    cases refused
  · exact fun nulFree => problem?_of_spells (spells_type (spells_quoted nulFree))
  · have code : Identifiers.Region.code.run [] = .code := rfl
    exact Identifiers.found_append code v rest
  · intro r a pre code body b
    simp only [Registry.dependencies, body, Identifiers.mem_mentionedIn,
      Identifiers.found_append code, List.mem_append]

/-- A body with the name of an alias, a backslash and a quote in a literal. -/
def quoting : Registry where
  bodies := .ofFun fun _ => "FieldWrapper<T> | " ++ (quoted "Maybe \\'" ++ " | InputMaybe<T>")
  noExport := false

/-- The literal is one token, and only the aliases around it are mentioned. -/
theorem quoting_scanned : 0 ∉ ("Maybe \\'" : Text) ∧
    Identifiers.Region.code.run "FieldWrapper<T> | " = .code ∧
    tokens (quoted "Maybe \\'" ++ " | InputMaybe<T>") =
      (tokensFrom 12 " | InputMaybe<T>").map (⟨.string "'Maybe \\\\\\''", 0⟩ :: ·) ∧
    ∀ b, b ∈ quoting.dependencies .maybe ↔ b = .fieldWrapper ∨ b = .inputMaybe := by
  have nulFree : 0 ∉ ("Maybe \\'" : Text) := by decide +kernel
  have code : Identifiers.Region.code.run "FieldWrapper<T> | " = .code := by decide +kernel
  obtain ⟨literal, -, -, mentioned⟩ := quoted_scanned "Maybe \\'" " | InputMaybe<T>"
  refine ⟨nulFree, code, (literal nulFree).2 0, fun b => ?_⟩
  have before : Alias.mentionedIn "FieldWrapper<T> | " = [.fieldWrapper] := by decide +kernel
  have behind : Alias.mentionedIn " | InputMaybe<T>" = [.inputMaybe] := by decide +kernel
  rw [mentioned quoting .maybe _ code rfl, before, behind, List.mem_singleton, List.mem_singleton]

end SchemaTypes
