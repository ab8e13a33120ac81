import SchemaTypes.Proofs.Results
import SchemaTypes.Proofs.TypeExpr.Completeness
import SchemaTypes.Proofs.TypeExpr.Soundness
import SchemaTypes.TypeExpr.Recognizer

namespace SchemaTypes.TypeExpr

open Matches

/-- The grammar derives the lexemes, all of them, from a type. -/
def Derives (observed : Prop) (lexemes : List Lexeme) : Prop :=
  Matches observed (.form .type) lexemes []

/-- The recognizer accepts exactly the types of the grammar. -/
theorem recognize_iff {lexemes : List Lexeme} :
    recognize lexemes = .ok () ↔ Derives True lexemes := by
  constructor
  · intro h
    unfold recognize at h
    split at h
    · cases h
    · split at h
      · cases h
      · rename_i met
        exact reads_singleton.1 (meet_sound met)
      · cases h
  · intro h
    obtain ⟨l, t, rfl, -⟩ := type_starts h
    have met : Goal.meet [.type] (l :: t) = .ok [] := meet_complete (.singleton h ahead_nil)
    simp only [recognize, met]

theorem exists_tokens_of_accepted {source : Text} (accepted : problem? source = none) :
    ∃ ts, tokens source = .ok ts ∧ Derives True (ts.map (·.lexeme)) := by
  unfold problem? check at accepted
  cases read : tokens source with
  | error => simp [read] at accepted
  | ok ts =>
    cases recognized : recognize (ts.map (·.lexeme)) with
    | error => simp [read, recognized] at accepted
    | ok => exact ⟨ts, rfl, recognize_iff.1 recognized⟩

/-- **The checker accepts exactly its grammar.** A source is free of problems if it falls into
tokens and the grammar, with its rules for words, derives them from a type. -/
theorem accepts_iff (source : Text) :
    problem? source = none ↔
      ∃ ts, tokens source = .ok ts ∧ Derives True (ts.map (·.lexeme)) := by
  unfold problem? check
  constructor
  · intro h
    split at h
    · rename_i accepted
      split at accepted
      · cases accepted
      · rename_i ts read
        split at accepted
        · rename_i recognized
          exact ⟨ts, read, recognize_iff.1 recognized⟩
        · cases accepted
    · cases h
  · rintro ⟨ts, read, derived⟩
    simp only [read, recognize_iff.2 derived]

theorem Matches.plain {e : Ebnf} {a b : List Lexeme} (h : Matches True e a b) :
    Matches False e a b := by
  induction h with
  | terminal accepts => exact .terminal accepts
  | form _ ih => exact .form ih
  | empty => exact .empty
  | seq _ _ first second => exact .seq first second
  | left _ ih => exact .left ih
  | right _ ih => exact .right ih
  | done => exact .done
  | more _ _ first rest => exact .more first rest
  | enclosed _ ih => exact .enclosed ih
  | rule _ => exact .rule False.elim

/-- The rules make no difference to lexemes without the words they are about. -/
theorem Matches.observed {e : Ebnf} {a b : List Lexeme} (h : Matches False e a b)
    (free : ∀ w ∈ ruledWords, .word w ∉ a) : Matches True e a b := by
  induction h with
  | terminal accepts => exact .terminal accepts
  | form _ ih => exact .form (ih free)
  | empty => exact .empty
  | seq first _ ih ih' =>
    exact .seq (ih free) (ih' fun w ruled mem => free w ruled (first.suffix.subset mem))
  | left _ ih => exact .left (ih free)
  | right _ ih => exact .right (ih free)
  | done => exact .done
  | more first _ ih ih' =>
    exact .more (ih free) (ih' fun w ruled mem => free w ruled (first.suffix.subset mem))
  | enclosed _ ih => exact .enclosed (ih fun w ruled mem => free w ruled (.tail _ mem))
  | rule _ =>
    refine .rule fun _ broken => ?_
    obtain ⟨w, ruled, t, rfl⟩ := broken.starts
    exact free w ruled (.head _)

theorem Matches.union_word {w : Text} (unreserved : w ∉ reserved) (b : List Lexeme) :
    Matches False (.phrase .union) (.word w :: b) b := by
  have operand : Matches False (.phrase .operand) (.word w :: b) b :=
    operand_of_primary False.elim (primary_of_word unreserved False.elim b)
      (indices_iff.2 (.inr rfl))
  exact union_of_intersection (intersection_of_operand operand) (moreUnion_iff.2 (.inr rfl))

theorem Matches.type_word_plain {w : Text} (unreserved : w ∉ reserved) (b : List Lexeme) :
    Matches False (.phrase .type) (.word w :: b) b :=
  type_of_union False.elim (union_word unreserved b) (condition_iff.2 (.inr rfl))

/-- The plain grammar derives sources that the checker refuses: a type `new`, a type `typeof`, and
a type `keyof` under a condition. -/
theorem refuses_types_of_plain_grammar :
    (∃ ts, tokens "new" = .ok ts ∧ Derives False (ts.map (·.lexeme)) ∧
      problem? "new" ≠ none) ∧
    (∃ ts, tokens "typeof" = .ok ts ∧ Derives False (ts.map (·.lexeme)) ∧
      problem? "typeof" ≠ none) ∧
    ∃ ts, tokens "keyof extends A ? B : C" = .ok ts ∧ Derives False (ts.map (·.lexeme)) ∧
      problem? "keyof extends A ? B : C" ≠ none := by
  refine ⟨⟨[⟨.word "new", 0⟩], eq_ok_of_toOption (by decide +kernel), ?_, by decide +kernel⟩,
    ⟨[⟨.word "typeof", 0⟩], eq_ok_of_toOption (by decide +kernel), ?_, by decide +kernel⟩,
    ⟨[⟨.word "keyof", 0⟩, ⟨.word "extends", 6⟩, ⟨.word "A", 14⟩, ⟨.mark .question, 16⟩,
      ⟨.word "B", 18⟩, ⟨.mark .colon, 20⟩, ⟨.word "C", 22⟩],
      eq_ok_of_toOption (by decide +kernel), ?_, by decide +kernel⟩⟩
  · exact type_word_plain (by decide) []
  · exact type_word_plain (by decide) []
  · refine type_of_union False.elim (union_word (by decide) _)
      (condition_iff.2 (.inl ⟨_, rfl, ?_⟩))
    simp only [reads_cons, reads_nil, exists_eq_right, markGoal_iff]
    exact ⟨_, union_word (by decide) _, _, rfl, _, type_word_plain (by decide) _, _, rfl,
      type_word_plain (by decide) _⟩

end SchemaTypes.TypeExpr
