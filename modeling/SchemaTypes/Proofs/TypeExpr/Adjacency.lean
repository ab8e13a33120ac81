import Mathlib.Data.List.Chain
import SchemaTypes.Proofs.TypeExpr.Grammar

/-!
# Numbers before words

A number and a word may be written without a blank between them. In a type no word but `extends`
follows a number, so that such a word never names anything.
-/

namespace SchemaTypes.TypeExpr

namespace Lexeme

/-- A word other than `extends`. -/
def IsOrdinary : Lexeme → Prop
  | word w => w ≠ "extends"
  | _ => False

def IsNumber : Lexeme → Prop
  | number _ => True
  | _ => False

end Lexeme

/-- No ordinary word follows a number. -/
def Separated (p : List Lexeme) : Prop := p.IsChain fun l k => l.IsNumber → ¬ k.IsOrdinary

namespace Form

/-- The forms that may start with an ordinary word. -/
def startsWord : Form → Bool
  | typeParameters | parameters | typeArguments | signature => false
  | _ => true

/-- The forms that may end with a number. -/
def endsNumber : Form → Bool
  | typeParameters | parameters | typeArguments | signature | reference | name => false
  | _ => true

end Form

namespace Ebnf

/-- Whether an expression may derive nothing. -/
def nullable : Ebnf → Bool
  | empty | many _ | rule _ => true
  | seq e f => e.nullable && f.nullable
  | alt e f => e.nullable || f.nullable
  | terminal _ | form _ | enclosed _ _ _ => false

/-- Whether an expression may start with an ordinary word. -/
def startsWord : Ebnf → Bool
  | terminal (.keyword w) => w ≠ "extends"
  | terminal t => t = .identifier || t = .anyWord
  | form p => p.startsWord
  | seq e f => e.startsWord || (e.nullable && f.startsWord)
  | alt e f => e.startsWord || f.startsWord
  | many e => e.startsWord
  | empty | rule _ | enclosed _ _ _ => false

/-- Whether an expression may end with a number. -/
def endsNumber : Ebnf → Bool
  | terminal t => t = .number
  | form p => p.endsNumber
  | seq e f => f.endsNumber || (f.nullable && e.endsNumber)
  | alt e f => e.endsNumber || f.endsNumber
  | many e => e.endsNumber
  | empty | rule _ | enclosed _ _ _ => false

/-- Whether an expression keeps numbers and ordinary words apart. -/
def apart : Ebnf → Bool
  | seq e f => e.apart && f.apart && !(e.endsNumber && f.startsWord)
  | alt e f => e.apart && f.apart
  | many e => e.apart && !(e.endsNumber && e.startsWord)
  | enclosed _ _ e => e.apart
  | _ => true

theorem apart_production (p : Form) : (production p).apart = true := by
  cases p <;> decide

theorem nullable_production (p : Form) : (production p).nullable = false := by
  cases p <;> decide

theorem startsWord_production (p : Form) : (production p).startsWord = p.startsWord := by
  cases p <;> decide

theorem endsNumber_production (p : Form) : (production p).endsNumber = p.endsNumber := by
  cases p <;> decide

/-- What is read off an expression is true of some lexemes. -/
structure Fits (e : Ebnf) (p : List Lexeme) : Prop where
  nullable : p = [] → e.nullable = true
  starts : ∀ l ∈ p.head?, l.IsOrdinary → e.startsWord = true
  ends : ∀ l ∈ p.getLast?, l.IsNumber → e.endsNumber = true
  separated : Separated p

namespace Fits

variable {e f : Ebnf} {p q : List Lexeme}

theorem nil (h : e.nullable = true) : e.Fits [] where
  nullable _ := h
  starts := by simp
  ends := by simp
  separated := .nil

theorem seq (first : e.Fits p) (rest : f.Fits q)
    (apart : (e.endsNumber && f.startsWord) = false) : (Ebnf.seq e f).Fits (p ++ q) where
  nullable none := by
    obtain ⟨rfl, rfl⟩ := List.append_eq_nil_iff.1 none
    simp [Ebnf.nullable, first.nullable rfl, rest.nullable rfl]
  starts l mem ordinary := by
    cases p with
    | nil => simp [startsWord, first.nullable rfl, rest.starts l mem ordinary]
    | cons k p => simp [startsWord, first.starts l mem ordinary]
  ends l mem number := by
    rw [List.getLast?_append] at mem
    cases last : q.getLast? with
    | none =>
      rw [last, Option.none_or] at mem
      have none := rest.nullable (List.getLast?_eq_none_iff.1 last)
      simp [endsNumber, none, first.ends l mem number]
    | some k =>
      rw [last, Option.some_or] at mem
      simp [endsNumber, rest.ends l (last ▸ mem) number]
  separated := by
    refine List.isChain_append.2 ⟨first.separated, rest.separated, ?_⟩
    intro l last k head number ordinary
    simp [first.ends l last number, rest.starts k head ordinary] at apart

theorem left (h : e.Fits p) : (Ebnf.alt e f).Fits p where
  nullable none := by simp [Ebnf.nullable, h.nullable none]
  starts l mem ordinary := by simp [startsWord, h.starts l mem ordinary]
  ends l mem number := by simp [endsNumber, h.ends l mem number]
  separated := h.separated

theorem right (h : f.Fits p) : (Ebnf.alt e f).Fits p where
  nullable none := by simp [Ebnf.nullable, h.nullable none]
  starts l mem ordinary := by simp [startsWord, h.starts l mem ordinary]
  ends l mem number := by simp [endsNumber, h.ends l mem number]
  separated := h.separated

theorem more (first : e.Fits p) (rest : (Ebnf.many e).Fits q)
    (apart : (e.endsNumber && e.startsWord) = false) : (Ebnf.many e).Fits (p ++ q) := by
  have both := first.seq rest apart
  refine ⟨fun _ => rfl, fun l mem ordinary => ?_, fun l mem number => ?_, both.separated⟩
  · have starts := both.starts l mem ordinary
    simp only [startsWord, Bool.or_eq_true, Bool.and_eq_true] at starts ⊢
    exact starts.elim id And.right
  · have ends := both.ends l mem number
    simp only [endsNumber, Bool.or_eq_true, Bool.and_eq_true] at ends ⊢
    exact ends.elim id And.right

theorem form {r : Form} (h : (production r).Fits p) : (Ebnf.form r).Fits p where
  nullable none := by
    have := h.nullable none
    rw [nullable_production] at this
    cases this
  starts l mem ordinary := (startsWord_production r).symm.trans (h.starts l mem ordinary)
  ends l mem number := (endsNumber_production r).symm.trans (h.ends l mem number)
  separated := h.separated

theorem terminal {t : Terminal} {l : Lexeme} (h : t.Accepts l) : (Ebnf.terminal t).Fits [l] where
  nullable none := by cases none
  starts k mem ordinary := by
    obtain rfl : l = k := by simpa using mem
    cases t <;> cases l <;>
      simp_all [Terminal.Accepts, Lexeme.IsOrdinary, startsWord]
  ends k mem number := by
    obtain rfl : l = k := by simpa using mem
    cases t <;> cases l <;>
      simp_all [Terminal.Accepts, Lexeme.IsNumber, endsNumber]
  separated := .singleton l

/-- Between two marks, numbers and words are kept apart from all others. -/
theorem enclosed {o c : Mark} (h : e.Fits p) :
    (Ebnf.enclosed o c e).Fits (.mark o :: p ++ [.mark c]) where
  nullable none := by cases none
  starts l mem ordinary := by
    obtain rfl : .mark o = l := by simpa using mem
    exact ordinary.elim
  ends l mem number := by
    rw [List.getLast?_append] at mem
    obtain rfl : .mark c = l := by simpa using mem
    exact number.elim
  separated := by
    refine List.isChain_append.2 ⟨?_, .singleton _, ?_⟩
    · exact List.isChain_cons.2 ⟨fun _ _ number => number.elim, h.separated⟩
    · rintro l - k mem - ordinary
      obtain rfl : .mark c = k := by simpa using mem
      exact ordinary.elim

end Fits

end Ebnf

/-- What is read off an expression is true of whatever it derives. -/
theorem Matches.fits {observed : Prop} {e : Ebnf} {a b : List Lexeme} (h : Matches observed e a b)
    (apart : e.apart = true) : ∃ p, a = p ++ b ∧ e.Fits p := by
  induction h with
  | @terminal t l rest accepts => exact ⟨[l], rfl, .terminal accepts⟩
  | form _ ih =>
    obtain ⟨p, eq, fits⟩ := ih (Ebnf.apart_production _)
    exact ⟨p, eq, fits.form⟩
  | empty | done | rule => exact ⟨[], rfl, .nil rfl⟩
  | seq _ _ ih ih' =>
    simp only [Ebnf.apart, Bool.and_eq_true, Bool.not_eq_true'] at apart
    obtain ⟨p, rfl, first⟩ := ih apart.1.1
    obtain ⟨q, rfl, rest⟩ := ih' apart.1.2
    exact ⟨p ++ q, (List.append_assoc ..).symm, first.seq rest apart.2⟩
  | left _ ih =>
    simp only [Ebnf.apart, Bool.and_eq_true] at apart
    obtain ⟨p, eq, fits⟩ := ih apart.1
    exact ⟨p, eq, fits.left⟩
  | right _ ih =>
    simp only [Ebnf.apart, Bool.and_eq_true] at apart
    obtain ⟨p, eq, fits⟩ := ih apart.2
    exact ⟨p, eq, fits.right⟩
  | more _ _ ih ih' =>
    have all := apart
    simp only [Ebnf.apart, Bool.and_eq_true, Bool.not_eq_true'] at apart
    obtain ⟨p, rfl, first⟩ := ih apart.1
    obtain ⟨q, rfl, rest⟩ := ih' all
    exact ⟨p ++ q, (List.append_assoc ..).symm, first.more rest apart.2⟩
  | @enclosed o c e a b _ ih =>
    obtain ⟨p, rfl, fits⟩ := ih apart
    exact ⟨.mark o :: p ++ [.mark c], by simp, fits.enclosed⟩

/-- No ordinary word follows a number in a type. -/
theorem separated_of_type {observed : Prop} {lexemes : List Lexeme}
    (h : Matches observed (.form .type) lexemes []) : Separated lexemes := by
  obtain ⟨p, rfl, fits⟩ := h.fits rfl
  simpa using fits.separated

end SchemaTypes.TypeExpr
