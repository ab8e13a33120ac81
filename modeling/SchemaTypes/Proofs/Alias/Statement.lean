import SchemaTypes.Alias.Registry
import SchemaTypes.Proofs.TypeExpr.Acceptance
import SchemaTypes.Proofs.TypeExpr.Brackets
import SchemaTypes.Proofs.TypeExpr.Seams

/-!
# The declaration of an alias is one statement

The body of an alias is written into its declaration as it stands. If it is a type expression, the
declaration is one statement: its semicolon is the first outside all brackets, and what comes behind
it is read as by itself.
-/

namespace SchemaTypes

open TypeExpr

namespace Registry

/-- What stands before the body of an alias, but for the blank between the two. -/
def head (r : Registry) (a : Alias) : Text :=
  Declaration.exportQualifier r.noExport ++ "type " ++ a.name ++ "<T> ="

/-- The lexemes before the body of an alias. -/
def headLexemes (r : Registry) (a : Alias) : List Lexeme :=
  (if r.noExport then [] else [.word "export"]) ++
    [.word "type", .word a.name, .mark .less, .word "T", .mark .greater, .mark .equals]

/-- The tokens of a head, those of a body behind it, and a semicolon. -/
def statement (r : Registry) (a : Alias) (head body : List Token) : List Token :=
  let start := (r.head a).length + 1
  head ++ body.map (·.shifted start) ++ [⟨.mark .semicolon, start + (r.body a).length⟩]

/-- The declaration of an alias is one statement, made of a head with the tokens `hs` and a body
with the tokens `ts`. -/
structure OneStatement (r : Registry) (a : Alias) (hs ts : List Token) : Prop where
  head : tokens (r.head a) = .ok hs
  headLexemes : hs.map (·.lexeme) = r.headLexemes a
  body : tokens (r.body a) = .ok ts
  /-- The brackets of the body come in pairs, and its semicolons stand between braces. -/
  nested : Nested false (ts.map (·.lexeme))
  /-- The declaration is read as its head, its body and a semicolon. -/
  whole : tokens (r.declaration a).body = .ok (r.statement a hs ts)
  /-- Whatever comes behind the declaration is read as by itself. -/
  apart : ∀ later : Text, tokens ((r.declaration a).body ++ later) =
    (tokensFrom (r.declaration a).body.length later).map (r.statement a hs ts ++ ·)
  /-- The semicolon of the declaration is the first outside all brackets. -/
  ends : ∀ later : List Lexeme,
    afterStatement [] ((r.statement a hs ts).map (·.lexeme) ++ later) = some later

variable {r : Registry} {a : Alias} {hs ts : List Token}

theorem tokens_head (r : Registry) (a : Alias) :
    ∃ hs, tokens (r.head a) = .ok hs ∧ hs.map (·.lexeme) = r.headLexemes a := by
  have read : (tokens (r.head a)).toOption.map (List.map (·.lexeme)) = some (r.headLexemes a) := by
    unfold head headLexemes
    cases r.noExport <;> cases a <;> decide +kernel
  cases head : tokens (r.head a) with
  | error =>
    rw [head] at read
    cases read
  | ok hs =>
    rw [head] at read
    exact ⟨hs, rfl, Option.some.inj read⟩

theorem tokens_append (head : tokens (r.head a) = .ok hs) (body : tokens (r.body a) = .ok ts)
    (later : Text) : tokens ((r.declaration a).body ++ later) =
      (tokensFrom (r.declaration a).body.length later).map (r.statement a hs ts ++ ·) := by
  have ends : Seam (Text.space :: (r.body a ++ (";" ++ later))) := seam_cons (by decide)
  have closes : Seam (";" ++ later) := seam_cons (by decide)
  have semicolon (offset : Nat) : tokensFrom offset (";" ++ later) =
      (tokensFrom (offset + 1) later).map (⟨.mark .semicolon, offset⟩ :: ·) :=
    tokensFrom_next (b := ';'.toUInt8) rfl rfl
  have pieces : (r.declaration a).body = r.head a ++ Text.space :: (r.body a ++ ";") := by
    have blank : ("<T> = " : Text) = "<T> =" ++ [Text.space] := rfl
    simp [declaration, Registry.head, blank]
  have length : (r.declaration a).body.length = (r.head a).length + 1 + (r.body a).length + 1 := by
    have one : (";" : Text).length = 1 := rfl
    simp [pieces, one, Nat.add_assoc, Nat.add_comm 1]
  have shifted := tokensFrom_shift ((r.head a).length + 1) body
  have whole : (r.declaration a).body ++ later =
      r.head a ++ Text.space :: (r.body a ++ (";" ++ later)) := by
    simp [pieces]
  rw [whole, tokens, tokensFrom_append ends head, Nat.zero_add, tokensFrom_blank rfl,
    tokensFrom_append closes shifted, semicolon, length]
  cases tokensFrom ((r.head a).length + 1 + (r.body a).length + 1) later with
  | error => rfl
  | ok more => simp [statement, Except.map]

theorem afterStatement_statement (head : hs.map (·.lexeme) = r.headLexemes a)
    (body : Nested false (ts.map (·.lexeme))) (later : List Lexeme) :
    afterStatement [] ((r.statement a hs ts).map (·.lexeme) ++ later) = some later := by
  have before (more : List Lexeme) :
      afterStatement [] (r.headLexemes a ++ more) = afterStatement [] more := by
    unfold headLexemes
    cases r.noExport <;> rfl
  have lexemes : (r.statement a hs ts).map (·.lexeme) ++ later =
      r.headLexemes a ++ (ts.map (·.lexeme) ++ .mark .semicolon :: later) := by
    simp [statement, ← head, Function.comp_def, Token.shifted]
  rw [lexemes, before, body.afterStatement fun inBraces => absurd inBraces Bool.false_ne_true]
  rfl

theorem exists_tokens_body (accepted : problem? (r.body a) = none) :
    ∃ ts, tokens (r.body a) = .ok ts ∧ Derives True (ts.map (·.lexeme)) :=
  exists_tokens_of_accepted accepted

/-- **The body of an alias stays inside its declaration.** If the body is a type expression, the
declaration is one statement, read as its head, the body and a semicolon. -/
theorem exists_oneStatement (accepted : problem? (r.body a) = none) :
    ∃ hs ts, r.OneStatement a hs ts := by
  obtain ⟨hs, head, lexemes⟩ := tokens_head r a
  obtain ⟨ts, body, derived⟩ := exists_tokens_body accepted
  have nested := nested_of_type derived
  have whole := tokens_append head body []
  rw [List.append_nil, tokensFrom_nil] at whole
  refine ⟨hs, ts, head, lexemes, body, nested, ?_, tokens_append head body,
    afterStatement_statement lexemes nested⟩
  rw [whole]
  exact congrArg _ (List.append_nil _)

/-- A body with brackets and semicolons in literals, and with semicolons between braces. -/
def tricky : Registry where
  bodies := .ofFun fun _ => "\x7b a: T; '\x7d;': (x: ';') => T[]; \x7d | `$\x7b';'\x7d` | Array<T>"
  noExport := true

/-- It cannot leave its declaration either. -/
theorem tricky_oneStatement : problem? (tricky.body .maybe) = none ∧
    ∃ hs ts, tricky.OneStatement .maybe hs ts := by
  have accepted : problem? (tricky.body .maybe) = none := by decide +kernel
  exact ⟨accepted, exists_oneStatement accepted⟩

end Registry

end SchemaTypes
