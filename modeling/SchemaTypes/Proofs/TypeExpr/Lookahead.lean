import SchemaTypes.Proofs.TypeExpr.Phrase

namespace SchemaTypes.TypeExpr

/-- The lexemes that a type without operators starts with. -/
def StartsPrimary : Lexeme → Prop
  | .word w => w ∉ reserved
  | .mark m => m = .minus ∨ m = .leftParen ∨ m = .leftBrace ∨ m = .leftBracket
  | _ => True

def StartsIntersection (l : Lexeme) : Prop := StartsPrimary l ∨ l = .mark .ampersand

def StartsUnion (l : Lexeme) : Prop := StartsIntersection l ∨ l = .mark .bar

def StartsType (l : Lexeme) : Prop := StartsUnion l ∨ l = .mark .less

namespace Matches

open Ebnf

variable {observed : Prop} {a b : List Lexeme}

theorem typeName_starts (h : Matches observed (phrase .typeName) a b) :
    ∃ l t, a = l :: t ∧ StartsPrimary l := by
  obtain ⟨w, unreserved, rfl⟩ := identifier_iff.1 h
  exact ⟨_, _, rfl, unreserved⟩

theorem primary_starts (h : Matches observed (phrase .primary) a b) :
    ∃ l t, a = l :: t ∧ StartsPrimary l := by
  rcases primary_iff.1 h with ⟨l, literal, rfl⟩ | ⟨t, rfl, -⟩ | ⟨t, rfl, -⟩ | ⟨t, rfl, -⟩ |
    ⟨t, rfl, -⟩ | ⟨t, rfl, -⟩ | ⟨-, reference⟩
  · refine ⟨l, b, rfl, ?_⟩
    cases l <;> simp_all [IsLiteral, StartsPrimary]
  · exact ⟨_, t, rfl, by simp [StartsPrimary]⟩
  · exact ⟨_, t, rfl, by simp [StartsPrimary]⟩
  · exact ⟨_, t, rfl, by simp [StartsPrimary]⟩
  · exact ⟨_, t, rfl, by simp [StartsPrimary]⟩
  · exact ⟨_, t, rfl, by simp only [StartsPrimary]; decide⟩
  · obtain ⟨c, named, -⟩ := reads_cons.1 reference
    exact typeName_starts named

theorem operand_starts (h : Matches observed (phrase .operand) a b) :
    ∃ l t, a = l :: t ∧ StartsPrimary l := by
  rcases operand_iff.1 h with ⟨w, t, operator, rfl, -⟩ | ⟨t, rfl, -⟩ | ⟨-, plain⟩
  · refine ⟨_, t, rfl, ?_⟩
    have unreserved : ∀ w ∈ operators, w ∉ reserved := by decide
    exact unreserved w operator
  · exact ⟨_, t, rfl, by simp only [StartsPrimary]; decide⟩
  · obtain ⟨c, primary, -⟩ := reads_cons.1 plain
    exact primary_starts primary

theorem intersection_starts (h : Matches observed (phrase .intersection) a b) :
    ∃ l t, a = l :: t ∧ StartsIntersection l := by
  obtain ⟨c, leading, rest⟩ := reads_cons.1 (intersection_iff.1 h)
  obtain ⟨d, operand, -⟩ := reads_cons.1 rest
  rcases optional_iff.1 leading with ampersand | rfl
  · exact ⟨_, c, mark_iff.1 ampersand, .inr rfl⟩
  · obtain ⟨l, t, rfl, starts⟩ := operand_starts operand
    exact ⟨l, t, rfl, .inl starts⟩

theorem union_starts (h : Matches observed (phrase .union) a b) :
    ∃ l t, a = l :: t ∧ StartsUnion l := by
  obtain ⟨c, leading, rest⟩ := reads_cons.1 (union_iff.1 h)
  obtain ⟨d, intersection, -⟩ := reads_cons.1 rest
  rcases optional_iff.1 leading with bar | rfl
  · exact ⟨_, c, mark_iff.1 bar, .inr rfl⟩
  · obtain ⟨l, t, rfl, starts⟩ := intersection_starts intersection
    exact ⟨l, t, rfl, .inl starts⟩

theorem type_starts (h : Matches observed (phrase .type) a b) :
    ∃ l t, a = l :: t ∧ StartsType l := by
  rcases type_iff.1 h with ⟨t, rfl, -⟩ | ⟨t, rfl, -⟩ | ⟨t, rfl, -⟩ | ⟨-, rest⟩
  · exact ⟨_, t, rfl, .inr rfl⟩
  · exact ⟨_, t, rfl, .inl (.inl (.inl (by simp [StartsPrimary])))⟩
  · exact ⟨_, t, rfl, .inl (.inl (.inl (by simp only [StartsPrimary]; decide)))⟩
  · obtain ⟨c, union, -⟩ := reads_cons.1 rest
    obtain ⟨l, t, rfl, starts⟩ := union_starts union
    exact ⟨l, t, rfl, .inl starts⟩

theorem signature_starts (h : Matches observed (phrase .signature) a b) :
    ∃ t, a = .mark .less :: t ∨ a = .mark .leftParen :: t := by
  rcases signature_iff.1 h with generic | plain
  · obtain ⟨c, parameters, -⟩ := reads_cons.1 generic
    obtain ⟨t, less, -⟩ := reads_cons.1 (typeParameters_iff.1 parameters)
    exact ⟨t, .inl (mark_iff.1 less)⟩
  · obtain ⟨t, paren, -⟩ := reads_cons.1 (parameters_iff.1 plain)
    exact ⟨t, .inr (mark_iff.1 paren)⟩

end Matches

theorem closesBeforeArrow_leftParen (depth : Nat) (t : List Lexeme) :
    closesBeforeArrow depth (.mark .leftParen :: t) = closesBeforeArrow (depth + 1) t := rfl

theorem closesBeforeArrow_rightParen (depth : Nat) (t : List Lexeme) :
    closesBeforeArrow (depth + 2) (.mark .rightParen :: t) = closesBeforeArrow (depth + 1) t := by
  simp [closesBeforeArrow]

theorem closesBeforeArrow_cons {l : Lexeme} (opening : l ≠ .mark .leftParen)
    (closing : l ≠ .mark .rightParen) (depth : Nat) (t : List Lexeme) :
    closesBeforeArrow depth (l :: t) = closesBeforeArrow depth t := by
  rw [closesBeforeArrow] <;> simp_all

/-- Parentheses stand in an expression only around another. -/
def Ebnf.pairsParens : Ebnf → Bool
  | .terminal t => t ≠ .mark .leftParen ∧ t ≠ .mark .rightParen
  | .seq e f => e.pairsParens && f.pairsParens
  | .alt e f => e.pairsParens && f.pairsParens
  | .many e => e.pairsParens
  | .enclosed .leftParen closing e => closing = .rightParen && e.pairsParens
  | .enclosed opening closing e =>
    opening ≠ .rightParen && closing ≠ .leftParen && closing ≠ .rightParen && e.pairsParens
  | _ => true

theorem pairsParens_production (f : Form) : (production f).pairsParens = true := by
  cases f <;> decide

/-- Whatever an expression derives has its parentheses in pairs, so that looking for the one that
closes an earlier one passes over it. -/
theorem closesBeforeArrow_eq_of_matches {observed : Prop} {e : Ebnf} {a b : List Lexeme}
    (h : Matches observed e a b) (pairs : e.pairsParens = true) (depth : Nat) :
    closesBeforeArrow (depth + 1) a = closesBeforeArrow (depth + 1) b := by
  induction h generalizing depth with
  | @terminal t l rest accepts =>
    obtain ⟨opening, closing⟩ : t ≠ .mark .leftParen ∧ t ≠ .mark .rightParen := by
      simpa [Ebnf.pairsParens] using pairs
    apply closesBeforeArrow_cons <;> rintro rfl <;> cases t <;> simp_all [Terminal.Accepts]
  | form _ ih => exact ih (pairsParens_production _) depth
  | empty | done | rule => rfl
  | seq _ _ first second =>
    obtain ⟨left, right⟩ := Bool.and_eq_true_iff.1 pairs
    exact (first left depth).trans (second right depth)
  | left _ ih => exact ih (Bool.and_eq_true_iff.1 pairs).1 depth
  | right _ ih => exact ih (Bool.and_eq_true_iff.1 pairs).2 depth
  | more _ _ first rest => exact (first pairs depth).trans (rest pairs depth)
  | @enclosed o c e a b _ ih =>
    by_cases paren : o = .leftParen
    · subst paren
      obtain ⟨rfl, inner⟩ : c = .rightParen ∧ e.pairsParens = true := by
        simpa [Ebnf.pairsParens] using pairs
      rw [closesBeforeArrow_leftParen, ih inner (depth + 1), closesBeforeArrow_rightParen]
    · obtain ⟨⟨⟨opening, closing⟩, closing'⟩, inner⟩ :
          ((o ≠ .rightParen ∧ c ≠ .leftParen) ∧ c ≠ .rightParen) ∧ e.pairsParens = true := by
        simpa [Ebnf.pairsParens, paren] using pairs
      rw [closesBeforeArrow_cons (by simpa using paren) (by simpa using opening), ih inner depth,
        closesBeforeArrow_cons (by simpa using closing) (by simpa using closing')]

/-- The lexeme ahead, if there is one, has a property. -/
def Ahead (p : Lexeme → Prop) (a : List Lexeme) : Prop := ∀ l t, a = l :: t → p l

/-- The marks that end a type. -/
def typeEnds : List Mark :=
  [.rightParen, .rightBracket, .rightBrace, .greater, .comma, .semicolon, .colon, .question,
    .equals]

/-- The lexemes that may follow a type. -/
def EndsType (l : Lexeme) : Prop := ∃ m ∈ typeEnds, l = .mark m

def EndsUnion (l : Lexeme) : Prop := EndsType l ∨ l = .word "extends"

def EndsIntersection (l : Lexeme) : Prop := EndsUnion l ∨ l = .mark .bar

/-- The lexemes that may follow an operand. -/
def EndsOperand (l : Lexeme) : Prop := EndsIntersection l ∨ l = .mark .ampersand

/-- The lexemes that may follow a type without indices. -/
def EndsPrimary (l : Lexeme) : Prop := EndsOperand l ∨ l = .mark .leftBracket

/-- The lexemes that may follow a parameter. -/
def EndsParameter (l : Lexeme) : Prop :=
  l = .mark .comma ∨ l = .mark .greater ∨ l = .mark .rightParen

/-- Whether the name of a tuple element lies ahead. -/
def Labelled : List Lexeme → Prop
  | .word _ :: .mark .colon :: _ => True
  | .word _ :: .mark .question :: .mark .colon :: _ => True
  | _ => False

/-- What may come after a goal without becoming a part of it. -/
def Follow : Goal → List Lexeme → Prop
  | .type | .condition | .bound | .member | .memberKey | .keyRest => Ahead EndsType
  | .union | .moreUnion => Ahead EndsUnion
  | .intersection | .moreIntersection => Ahead EndsIntersection
  | .operand | .indices | .index => Ahead EndsOperand
  | .primary | .qualifiers => Ahead EndsPrimary
  | .preset | .ascription => Ahead EndsParameter
  | .label => fun a => ¬ Labelled a
  | .method => Ahead fun l => l ≠ .mark .less ∧ l ≠ .mark .leftParen
  | .optional m => Ahead fun l => l ≠ .mark m
  | _ => fun _ => True

section

variable {p q : Lexeme → Prop} {l : Lexeme} {a t : List Lexeme}

@[simp] theorem ahead_nil : Ahead p [] := by simp [Ahead]

@[simp] theorem ahead_cons : Ahead p (l :: t) ↔ p l := by simp [Ahead]

theorem Ahead.imp (h : Ahead p a) (imp : ∀ l, p l → q l) : Ahead q a :=
  fun l t eq => imp l (h l t eq)

end

namespace Matches

open Ebnf

variable {observed : Prop} {a b : List Lexeme}

theorem condition_follows (h : Matches observed (phrase .condition) a b)
    (follow : Ahead EndsType b) : Ahead EndsUnion a := by
  rcases condition_iff.1 h with ⟨t, rfl, -⟩ | rfl
  · exact ahead_cons.2 (.inr rfl)
  · exact follow.imp fun _ => .inl

theorem moreUnion_follows (h : Matches observed (phrase .moreUnion) a b)
    (follow : Ahead EndsUnion b) : Ahead EndsIntersection a := by
  rcases moreUnion_iff.1 h with ⟨t, rfl, -⟩ | rfl
  · exact ahead_cons.2 (.inr rfl)
  · exact follow.imp fun _ => .inl

theorem moreIntersection_follows (h : Matches observed (phrase .moreIntersection) a b)
    (follow : Ahead EndsIntersection b) : Ahead EndsOperand a := by
  rcases moreIntersection_iff.1 h with ⟨t, rfl, -⟩ | rfl
  · exact ahead_cons.2 (.inr rfl)
  · exact follow.imp fun _ => .inl

theorem indices_follow (h : Matches observed (phrase .indices) a b)
    (follow : Ahead EndsOperand b) : Ahead EndsPrimary a := by
  rcases indices_iff.1 h with ⟨t, rfl, -⟩ | rfl
  · exact ahead_cons.2 (.inr rfl)
  · exact follow.imp fun _ => .inl

end Matches

end SchemaTypes.TypeExpr
