import SchemaTypes.Proofs.TypeExpr.Grammar

/-!
# Brackets

In a type all brackets come in pairs, one pair inside the other or beside it, and semicolons stand
between braces only. So a statement that ends with a semicolon may hold a type anywhere before it.
-/

namespace SchemaTypes.TypeExpr

/-- The closing bracket for an opening one. -/
def Mark.closing? : Mark → Option Mark
  | leftParen => some rightParen
  | leftBracket => some rightBracket
  | leftBrace => some rightBrace
  | less => some greater
  | _ => none

def Mark.isBracket (m : Mark) : Bool :=
  m.closing?.isSome || ([.rightParen, .rightBracket, .rightBrace, .greater] : List Mark).contains m

/-- Brackets come in pairs, each pair inside another or beside it. A semicolon stands directly
between braces, or where `inBraces` says that braces are around the whole. -/
inductive Nested : Bool → List Lexeme → Prop where
  | nil {inBraces} : Nested inBraces []
  | plain {inBraces l rest} : (∀ m, l = .mark m → m.isBracket = false) →
      (l = .mark .semicolon → inBraces = true) → Nested inBraces rest →
      Nested inBraces (l :: rest)
  | pair {inBraces o c inside rest} : o.closing? = some c → Nested (o = .leftBrace) inside →
      Nested inBraces rest → Nested inBraces (.mark o :: (inside ++ .mark c :: rest))

/-- The brackets that are open behind a mark, each given by its closing one. There are none behind a
closing bracket that is not the next to be closed. -/
def Mark.opened (m : Mark) (opened : List Mark) : Option (List Mark) :=
  match m.closing? with
  | some c => some (c :: opened)
  | none =>
    if m.isBracket then
      if opened.head? = some m then some opened.tail else none
    else some opened

/-- What comes behind the first semicolon outside all brackets, if up to there each bracket is
closed by one of its kind. -/
def afterStatement (opened : List Mark) : List Lexeme → Option (List Lexeme)
  | [] => none
  | .mark m :: rest =>
    if m = .semicolon ∧ opened = [] then some rest
    else
      match m.opened opened with
      | some opened => afterStatement opened rest
      | none => none
  | _ :: rest => afterStatement opened rest

namespace Nested

variable {inBraces : Bool} {p q : List Lexeme}

theorem append (first : Nested inBraces p) (rest : Nested inBraces q) :
    Nested inBraces (p ++ q) := by
  induction first with
  | nil => exact rest
  | plain notBracket separator _ ih => exact .plain notBracket separator (ih rest)
  | pair closes inside _ _ ih =>
    rw [List.cons_append, List.append_assoc, List.cons_append]
    exact .pair closes inside (ih rest)

theorem weaken (h : Nested false p) : Nested inBraces p := by
  generalize outside : false = outer at h
  induction h with
  | nil => exact .nil
  | plain notBracket separator _ ih =>
    refine .plain notBracket (fun semicolon => ?_) (ih outside)
    rw [← outside] at separator
    exact absurd (separator semicolon) Bool.false_ne_true
  | pair closes inside _ _ ih => exact .pair closes inside (ih outside)

theorem singleton {l : Lexeme} (notBracket : ∀ m, l = .mark m → m.isBracket = false)
    (separator : l = .mark .semicolon → inBraces = true) : Nested inBraces [l] :=
  .plain notBracket separator .nil

theorem enclosed {o c : Mark} (closes : o.closing? = some c) (h : Nested (o = .leftBrace) p) :
    Nested inBraces (.mark o :: p ++ [.mark c]) :=
  .pair closes h .nil

end Nested

namespace Ebnf

/-- Whether an expression derives only nested lexemes, in braces or not. Forms are taken to do so
outside of braces. -/
def nests (inBraces : Bool) : Ebnf → Bool
  | terminal (.mark m) => !m.isBracket && (m ≠ .semicolon || inBraces)
  | terminal _ | form _ | empty | rule _ => true
  | seq e f | alt e f => e.nests inBraces && f.nests inBraces
  | many e => e.nests inBraces
  | enclosed o c e => o.closing? = some c && e.nests (o = .leftBrace)

theorem nests_production (p : Form) : (production p).nests false = true := by
  cases p <;> decide

end Ebnf

theorem Terminal.Accepts.nested {t : Terminal} {l : Lexeme} {inBraces : Bool} (h : t.Accepts l)
    (nests : (Ebnf.terminal t).nests inBraces = true) : Nested inBraces [l] := by
  refine .singleton (fun m same => ?_) (fun same => ?_)
  · subst same
    cases t <;> simp_all [Terminal.Accepts, Ebnf.nests]
  · subst same
    cases t <;> simp_all [Terminal.Accepts, Ebnf.nests]

theorem Matches.nested {observed : Prop} {e : Ebnf} {a b : List Lexeme} {inBraces : Bool}
    (h : Matches observed e a b) (nests : e.nests inBraces = true) :
    ∃ p, a = p ++ b ∧ Nested inBraces p := by
  induction h generalizing inBraces with
  | @terminal t l rest accepts => exact ⟨[l], rfl, accepts.nested nests⟩
  | form _ ih =>
    obtain ⟨p, eq, nested⟩ := ih (Ebnf.nests_production _)
    exact ⟨p, eq, nested.weaken⟩
  | empty | done | rule => exact ⟨[], rfl, .nil⟩
  | seq _ _ ih ih' =>
    rw [Ebnf.nests, Bool.and_eq_true] at nests
    obtain ⟨p, rfl, first⟩ := ih nests.1
    obtain ⟨q, rfl, rest⟩ := ih' nests.2
    exact ⟨p ++ q, (List.append_assoc ..).symm, first.append rest⟩
  | left _ ih =>
    rw [Ebnf.nests, Bool.and_eq_true] at nests
    exact ih nests.1
  | right _ ih =>
    rw [Ebnf.nests, Bool.and_eq_true] at nests
    exact ih nests.2
  | more _ _ ih ih' =>
    obtain ⟨p, rfl, first⟩ := ih nests
    obtain ⟨q, rfl, rest⟩ := ih' nests
    exact ⟨p ++ q, (List.append_assoc ..).symm, first.append rest⟩
  | @enclosed o c e a b _ ih =>
    rw [Ebnf.nests, Bool.and_eq_true, decide_eq_true_iff] at nests
    obtain ⟨p, rfl, inside⟩ := ih nests.2
    exact ⟨.mark o :: p ++ [.mark c], by simp, .enclosed nests.1 inside⟩

/-- The brackets of a type come in pairs, and its semicolons stand between braces. -/
theorem nested_of_type {observed : Prop} {lexemes : List Lexeme}
    (h : Matches observed (.form .type) lexemes []) : Nested false lexemes := by
  obtain ⟨p, rfl, nested⟩ : ∃ p, lexemes = p ++ [] ∧ Nested false p := h.nested rfl
  rwa [List.append_nil]

variable {opened : List Mark} {rest : List Lexeme}

theorem afterStatement_opening {o c : Mark} (closes : o.closing? = some c) :
    afterStatement opened (.mark o :: rest) = afterStatement (c :: opened) rest := by
  have noEnd : ¬ (o = .semicolon ∧ opened = []) := by
    rintro ⟨rfl, -⟩
    cases closes
  rw [afterStatement, if_neg noEnd, Mark.opened, closes]

theorem afterStatement_closing {o c : Mark} (closes : o.closing? = some c) :
    afterStatement (c :: opened) (.mark c :: rest) = afterStatement opened rest := by
  cases o <;> cases closes <;> rfl

theorem afterStatement_plain {l : Lexeme} (notBracket : ∀ m, l = .mark m → m.isBracket = false)
    (noEnd : l = .mark .semicolon → opened ≠ []) :
    afterStatement opened (l :: rest) = afterStatement opened rest := by
  cases l with
  | mark m =>
    have plain := notBracket m rfl
    have opensNone : m.closing? = none := by cases m <;> simp_all [Mark.closing?, Mark.isBracket]
    have goesOn : ¬ (m = .semicolon ∧ opened = []) := fun ⟨semicolon, outside⟩ =>
      noEnd (congrArg _ semicolon) outside
    rw [afterStatement, if_neg goesOn, Mark.opened, opensNone]
    simp only [plain, Bool.false_eq_true, if_false]
  | _ => rfl

/-- In search of the end of a statement, nested lexemes are passed over. -/
theorem Nested.afterStatement {inBraces : Bool} {p : List Lexeme} (h : Nested inBraces p)
    (inside : inBraces = true → opened ≠ []) :
    afterStatement opened (p ++ rest) = afterStatement opened rest := by
  induction h generalizing opened rest with
  | nil => rfl
  | plain notBracket separator _ ih =>
    rw [List.cons_append,
      afterStatement_plain notBracket fun semicolon => inside (separator semicolon), ih inside]
  | pair closes _ _ ih ih' =>
    rw [List.cons_append, List.append_assoc, List.cons_append, afterStatement_opening closes,
      ih fun _ => List.cons_ne_nil _ _, afterStatement_closing closes, ih' inside]

end SchemaTypes.TypeExpr
