import SchemaTypes.Proofs.TypeExpr.Grammar
import SchemaTypes.TypeExpr.Lexer

namespace SchemaTypes.TypeExpr

open Text

/-- The texts in the interpolations of a template literal after its opening backquote, where
`current` is the first part of the one that `depth` braces are open in. -/
def holes (depth : Nat) (current : Text) : Text → List Text
  | [] => []
  | b :: rest =>
    if depth = 0 ∧ b = backquote then []
    else if b = backslash then
      match rest with
      | [] => []
      | c :: later => holes depth (current ++ [b, c]) later
    else if depth = 0 then
      match rest with
      | [] => []
      | c :: later =>
        if b = '$'.toUInt8 ∧ c = '\x7b'.toUInt8 then holes 1 [] later else holes 0 [] (c :: later)
    else if b = '\x7b'.toUInt8 then holes (depth + 1) (current ++ [b]) rest
    else if b = '\x7d'.toUInt8 then
      if depth = 1 then current :: holes 0 [] rest else holes (depth - 1) (current ++ [b]) rest
    else holes depth (current ++ [b]) rest

theorem holes_inside {depth : Nat} {b : UInt8} (inside : depth ≠ 0) (plain : b ≠ backslash)
    (current rest : Text) :
    holes depth current (b :: rest) =
      if b = '\x7b'.toUInt8 then holes (depth + 1) (current ++ [b]) rest
      else if b = '\x7d'.toUInt8 then
        if depth = 1 then current :: holes 0 [] rest else holes (depth - 1) (current ++ [b]) rest
      else holes depth (current ++ [b]) rest := by
  rw [holes.eq_def]
  simp only [inside, false_and, plain, if_false]

/-- The texts in the interpolations of a template literal. -/
def interpolations (template : Text) : List Text := holes 0 [] template.tail

/-- In what an expression derives from one place up to another, a type is referred to by a name. The
type expressions in the interpolations of a template literal belong to it. -/
inductive Names (name : Text) : Ebnf → List Lexeme → List Lexeme → Prop where
  /-- The name stands for a type by itself: there is no `typeof` before it, and no point behind. -/
  | here {a b} : Matches True (.form .reference) (.word name :: a) b → name ≠ "typeof" →
      a.head? ≠ some (.mark .dot) → Names name (.form .reference) (.word name :: a) b
  | interpolated {text hole ts a} : hole ∈ interpolations text → tokens hole = .ok ts →
      Names name (.form .type) (ts.map (·.lexeme)) [] →
      Names name (.terminal .template) (.template text :: a) a
  | form {p a b} : Names name (production p) a b → Names name (.form p) a b
  | first {e f a b c} : Names name e a b → Matches True f b c → Names name (.seq e f) a c
  | second {e f a b c} : Matches True e a b → Names name f b c → Names name (.seq e f) a c
  | left {e f a b} : Names name e a b → Names name (.alt e f) a b
  | right {e f a b} : Names name f a b → Names name (.alt e f) a b
  | item {e a b c} : Names name e a b → Matches True (.many e) b c → Names name (.many e) a c
  | later {e a b c} : Matches True e a b → Names name (.many e) b c → Names name (.many e) a c
  | enclosed {o c e a b} : Names name e a (.mark c :: b) →
      Names name (.enclosed o c e) (.mark o :: a) b

/-- A source is a type expression in which a type is referred to by a name. -/
def RefersTo (source name : Text) : Prop :=
  ∃ ts, tokens source = .ok ts ∧ Names name (.form .type) (ts.map (·.lexeme)) []

/-- No template literal among the lexemes has an interpolation. -/
def NoHoles (lexemes : List Lexeme) : Prop :=
  ∀ text, .template text ∈ lexemes → interpolations text = []

variable {name : Text} {e : Ebnf} {a b : List Lexeme}

theorem Names.matches (h : Names name e a b) : Matches True e a b := by
  induction h with
  | here derived => exact derived
  | interpolated => exact .terminal trivial
  | form _ ih => exact .form ih
  | first _ rest ih => exact .seq ih rest
  | second first _ ih => exact .seq first ih
  | left _ ih => exact .left ih
  | right _ ih => exact .right ih
  | item _ rest ih => exact .more ih rest
  | later first _ ih => exact .more first ih
  | enclosed _ ih => exact .enclosed ih

theorem Names.mem (h : Names name e a b) (plain : NoHoles a) : .word name ∈ a := by
  have narrow {a b : List Lexeme} {e : Ebnf} (first : Matches True e a b) (plain : NoHoles a) :
      NoHoles b := fun text mem => plain text (first.suffix.subset mem)
  induction h with
  | here => exact .head _
  | interpolated inside =>
    rw [plain _ (.head _)] at inside
    cases inside
  | form _ ih | first _ _ ih | left _ ih | right _ ih | item _ _ ih => exact ih plain
  | second first _ ih | later first _ ih => exact first.suffix.subset (ih (narrow first plain))
  | enclosed _ ih => exact .tail _ (ih fun text mem => plain text (.tail _ mem))

end SchemaTypes.TypeExpr
