import SchemaTypes.TypeExpr.Goal

/-!
# The grammar of type expressions

The grammar in extended Backus-Naur form, apart from any way of reading it.

Three rules keep words such as `new` and `keyof` apart from type names. They are part of the
grammar, and `Matches` says whether they are observed.
-/

namespace SchemaTypes.TypeExpr

/-- A class of lexemes. -/
inductive Terminal where
  /-- This word. -/
  | keyword (text : Text)
  /-- A word that is not reserved. -/
  | identifier
  /-- Any word, reserved or not. -/
  | anyWord
  | string
  | number
  | template
  /-- This mark. -/
  | mark (mark : Mark)
  deriving DecidableEq, Repr

/-- The lexemes of a class. -/
def Terminal.Accepts : Terminal → Lexeme → Prop
  | keyword text, .word w => w = text
  | identifier, .word w => w ∉ reserved
  | anyWord, .word _ => True
  | string, .string _ => True
  | number, .number _ => True
  | template, .template _ => True
  | mark m, .mark n => n = m
  | _, _ => False

theorem Lexeme.exists {p : Lexeme → Prop} :
    (∃ l, p l) ↔ (∃ t, p (.word t)) ∨ (∃ t, p (.string t)) ∨ (∃ t, p (.number t)) ∨
      (∃ t, p (.template t)) ∨ ∃ m, p (.mark m) := by
  constructor
  · rintro ⟨l, h⟩
    cases l with
    | word t => exact .inl ⟨t, h⟩
    | string t => exact .inr (.inl ⟨t, h⟩)
    | number t => exact .inr (.inr (.inl ⟨t, h⟩))
    | template t => exact .inr (.inr (.inr (.inl ⟨t, h⟩)))
    | mark m => exact .inr (.inr (.inr (.inr ⟨m, h⟩)))
  · rintro (⟨_, h⟩ | ⟨_, h⟩ | ⟨_, h⟩ | ⟨_, h⟩ | ⟨_, h⟩) <;> exact ⟨_, h⟩

/-- The named forms of a type expression. -/
inductive Form where
  | type
  | functionType
  | typeParameters
  | typeParameter
  | parameters
  | parameter
  | union
  | intersection
  | operation
  | indexed
  | primary
  | reference
  | name
  | typeArguments
  | signature
  | element
  | member
  | property
  deriving DecidableEq, Repr

/-- A restriction on the words that name types. -/
inductive WordRule where
  /-- No type begins with a type named `new`: that word opens a constructor type there. -/
  | constructorType
  /-- No type name begins with `typeof`: that word asks for the type of a value. -/
  | query
  /-- No operator word names a type right before `extends`: it has an operand there. -/
  | operand
  deriving DecidableEq, Repr

/-- Whether what lies ahead breaks a rule, as the start of a type name. -/
def WordRule.Broken : WordRule → List Lexeme → Prop
  | constructorType, .word w :: _ => w = "new"
  | query, .word w :: _ => w = "typeof"
  | operand, .word w :: .word next :: _ => (w ∈ operators ∨ w = "infer") ∧ next = "extends"
  | _, _ => False

/-- The words that the rules are about. -/
def ruledWords : List Text := "new" :: "typeof" :: "infer" :: operators

theorem WordRule.Broken.starts {r : WordRule} {a : List Lexeme} (broken : r.Broken a) :
    ∃ w ∈ ruledWords, ∃ t, a = .word w :: t := by
  unfold WordRule.Broken at broken
  split at broken
  · exact ⟨_, broken ▸ by decide, _, rfl⟩
  · exact ⟨_, broken ▸ by decide, _, rfl⟩
  · refine ⟨_, ?_, _, rfl⟩
    rcases broken.1 with operator | rfl
    · exact .tail _ (.tail _ (.tail _ operator))
    · decide
  · exact broken.elim

theorem WordRule.Broken.second {w : Text} {a : List Lexeme}
    (broken : WordRule.operand.Broken (.word w :: a)) : ∃ next t, a = .word next :: t := by
  rcases a with _ | ⟨_ | _ | _ | _ | _, t⟩
  · exact broken.elim
  · exact ⟨_, t, rfl⟩
  · exact broken.elim
  · exact broken.elim
  · exact broken.elim
  · exact broken.elim

/-- An expression of the grammar. -/
inductive Ebnf where
  | terminal (t : Terminal)
  | form (p : Form)
  | empty
  | seq (first second : Ebnf)
  | alt (left right : Ebnf)
  /-- Any number of repetitions. -/
  | many (e : Ebnf)
  /-- An expression between two marks. -/
  | enclosed (opening closing : Mark) (e : Ebnf)
  /-- Nothing, where the rule is not broken. -/
  | rule (r : WordRule)
  deriving DecidableEq, Repr

namespace Ebnf

abbrev mark (m : Mark) : Ebnf := terminal (.mark m)

abbrev keyword (text : Text) : Ebnf := terminal (.keyword text)

/-- A word that is not reserved. -/
abbrev identifier : Ebnf := terminal .identifier

def sequence (es : List Ebnf) : Ebnf := es.foldr seq empty

def optional (e : Ebnf) : Ebnf := alt e empty

/-- Items with a separator between each two and perhaps one behind the last, or nothing. -/
def items (item separator : Ebnf) : Ebnf :=
  optional (sequence [item, many (seq separator item), optional separator])

/-- At least one item, with a comma between each two. -/
def commaSeparated (item : Ebnf) : Ebnf := seq item (many (seq (mark .comma) item))

end Ebnf

open Ebnf in
/-- What a part of a type expression stands for. -/
def production : Form → Ebnf
  | .type =>
    alt (form .functionType)
      (sequence [rule .constructorType, form .union,
        optional (sequence [keyword "extends", form .union, mark .question, form .type,
          mark .colon, form .type])])
  | .functionType =>
    sequence [optional (keyword "new"), form .signature, mark .arrow, form .type]
  | .typeParameters => enclosed .less .greater (commaSeparated (form .typeParameter))
  | .typeParameter =>
    sequence [identifier, optional (seq (keyword "extends") (form .type)),
      optional (seq (mark .equals) (form .type))]
  | .parameters => enclosed .leftParen .rightParen (items (form .parameter) (mark .comma))
  | .parameter =>
    sequence [optional (mark .ellipsis), identifier, optional (mark .question),
      optional (seq (mark .colon) (form .type))]
  | .union =>
    sequence [optional (mark .bar), form .intersection,
      many (seq (mark .bar) (form .intersection))]
  | .intersection =>
    sequence [optional (mark .ampersand), form .operation,
      many (seq (mark .ampersand) (form .operation))]
  | .operation =>
    alt (seq (alt (keyword "keyof") (alt (keyword "unique") (keyword "readonly")))
        (form .operation))
      (alt (seq (keyword "infer") identifier) (seq (rule .operand) (form .indexed)))
  | .indexed =>
    seq (form .primary)
      (many (alt (enclosed .leftBracket .rightBracket empty)
        (enclosed .leftBracket .rightBracket (form .type))))
  | .primary =>
    alt (terminal .string) (alt (terminal .number) (alt (terminal .template)
      (alt (seq (mark .minus) (terminal .number))
        (alt (enclosed .leftParen .rightParen (form .type))
          (alt (enclosed .leftBrace .rightBrace
              (items (form .member) (alt (mark .semicolon) (mark .comma))))
            (alt (enclosed .leftBracket .rightBracket (items (form .element) (mark .comma)))
              (form .reference)))))))
  | .reference =>
    sequence [alt (keyword "typeof") (rule .query), form .name, optional (form .typeArguments)]
  | .name => seq identifier (many (seq (mark .dot) identifier))
  | .typeArguments => enclosed .less .greater (commaSeparated (form .type))
  | .signature => seq (optional (form .typeParameters)) (form .parameters)
  | .element =>
    sequence [optional (mark .ellipsis),
      optional (sequence [terminal .anyWord, optional (mark .question), mark .colon]),
      form .type, optional (mark .question)]
  | .member =>
    alt (sequence [form .signature, mark .colon, form .type])
      (seq (optional (keyword "readonly")) (form .property))
  | .property =>
    alt
      (sequence [
        enclosed .leftBracket .rightBracket (sequence [identifier, keyword "in", form .type]),
        optional (mark .question), mark .colon, form .type])
      (alt
        (sequence [
          enclosed .leftBracket .rightBracket (sequence [identifier, mark .colon, form .type]),
          mark .colon, form .type])
        (sequence [alt (terminal .anyWord) (alt (terminal .string) (terminal .number)),
          optional (mark .question), optional (form .signature), mark .colon, form .type]))

/-- An expression derives the lexemes from one place up to another. The word rules count only
where they are observed. -/
inductive Matches (observed : Prop) : Ebnf → List Lexeme → List Lexeme → Prop where
  | terminal {t l rest} : t.Accepts l → Matches observed (.terminal t) (l :: rest) rest
  | form {p a b} : Matches observed (production p) a b → Matches observed (.form p) a b
  | empty {a} : Matches observed .empty a a
  | seq {e f a b c} : Matches observed e a b → Matches observed f b c →
      Matches observed (.seq e f) a c
  | left {e f a b} : Matches observed e a b → Matches observed (.alt e f) a b
  | right {e f a b} : Matches observed f a b → Matches observed (.alt e f) a b
  | done {e a} : Matches observed (.many e) a a
  | more {e a b c} : Matches observed e a b → Matches observed (.many e) b c →
      Matches observed (.many e) a c
  | enclosed {o c e a b} : Matches observed e a (.mark c :: b) →
      Matches observed (.enclosed o c e) (.mark o :: a) b
  | rule {r a} : (observed → ¬ r.Broken a) → Matches observed (.rule r) a a

namespace Matches

variable {observed : Prop} {e f : Ebnf} {a b c : List Lexeme}

theorem terminal_iff {t : Terminal} :
    Matches observed (.terminal t) a b ↔ ∃ l, t.Accepts l ∧ a = l :: b := by
  constructor
  · rintro (accepts | _)
    exact ⟨_, accepts, rfl⟩
  · rintro ⟨l, accepts, rfl⟩
    exact .terminal accepts

@[simp] theorem keyword_iff {text : Text} :
    Matches observed (.terminal (.keyword text)) a b ↔ a = .word text :: b := by
  simp [terminal_iff, Lexeme.exists, Terminal.Accepts]

@[simp] theorem identifier_iff :
    Matches observed (.terminal .identifier) a b ↔ ∃ w, w ∉ reserved ∧ a = .word w :: b := by
  simp [terminal_iff, Lexeme.exists, Terminal.Accepts]

@[simp] theorem anyWord_iff :
    Matches observed (.terminal .anyWord) a b ↔ ∃ w, a = .word w :: b := by
  simp [terminal_iff, Lexeme.exists, Terminal.Accepts]

@[simp] theorem string_iff :
    Matches observed (.terminal .string) a b ↔ ∃ text, a = .string text :: b := by
  simp [terminal_iff, Lexeme.exists, Terminal.Accepts]

@[simp] theorem number_iff :
    Matches observed (.terminal .number) a b ↔ ∃ text, a = .number text :: b := by
  simp [terminal_iff, Lexeme.exists, Terminal.Accepts]

@[simp] theorem template_iff :
    Matches observed (.terminal .template) a b ↔ ∃ text, a = .template text :: b := by
  simp [terminal_iff, Lexeme.exists, Terminal.Accepts]

@[simp] theorem mark_iff {m : Mark} :
    Matches observed (.terminal (.mark m)) a b ↔ a = .mark m :: b := by
  simp [terminal_iff, Lexeme.exists, Terminal.Accepts]

theorem form_iff {p : Form} :
    Matches observed (.form p) a b ↔ Matches observed (production p) a b :=
  ⟨fun h => by cases h; assumption, .form⟩

@[simp] theorem empty_iff : Matches observed .empty a b ↔ a = b :=
  ⟨fun h => by cases h; rfl, fun h => h ▸ .empty⟩

@[simp] theorem seq_iff :
    Matches observed (.seq e f) a c ↔ ∃ b, Matches observed e a b ∧ Matches observed f b c :=
  ⟨fun h => by cases h with | seq first second => exact ⟨_, first, second⟩,
    fun ⟨_, first, second⟩ => .seq first second⟩

@[simp] theorem alt_iff :
    Matches observed (.alt e f) a b ↔ Matches observed e a b ∨ Matches observed f a b :=
  ⟨fun h => by cases h with | left h => exact .inl h | right h => exact .inr h,
    fun h => h.elim .left .right⟩

@[simp] theorem enclosed_iff {o k : Mark} :
    Matches observed (.enclosed o k e) a b ↔
      ∃ c, a = .mark o :: c ∧ Matches observed e c (.mark k :: b) :=
  ⟨fun h => by cases h with | enclosed inner => exact ⟨_, rfl, inner⟩,
    fun ⟨_, eq, inner⟩ => eq ▸ .enclosed inner⟩

@[simp] theorem rule_iff {r : WordRule} :
    Matches observed (.rule r) a b ↔ (observed → ¬ r.Broken a) ∧ a = b :=
  ⟨fun h => by cases h with | rule kept => exact ⟨kept, rfl⟩,
    fun ⟨kept, eq⟩ => eq ▸ .rule kept⟩

theorem many_iff :
    Matches observed (.many e) a c ↔
      a = c ∨ ∃ b, Matches observed e a b ∧ Matches observed (.many e) b c := by
  constructor
  · rintro (_ | _ | _)
    · exact .inl rfl
    · exact .inr ⟨_, ‹_›, ‹_›⟩
  · rintro (rfl | ⟨b, first, rest⟩)
    · exact .done
    · exact .more first rest

@[simp] theorem optional_iff :
    Matches observed (.optional e) a b ↔ Matches observed e a b ∨ a = b := by
  simp [Ebnf.optional]

@[simp] theorem sequence_nil_iff : Matches observed (.sequence []) a b ↔ a = b := empty_iff

@[simp] theorem sequence_cons_iff {es : List Ebnf} :
    Matches observed (.sequence (e :: es)) a c ↔
      ∃ b, Matches observed e a b ∧ Matches observed (.sequence es) b c := seq_iff

/-- What is derived reaches from one place to a later one. -/
theorem suffix (h : Matches observed e a b) : b <:+ a := by
  induction h with
  | terminal => exact List.suffix_cons _ _
  | form _ ih | left _ ih | right _ ih => exact ih
  | empty | done | rule => exact List.suffix_rfl
  | seq _ _ first second => exact second.trans first
  | more _ _ first rest => exact rest.trans first
  | enclosed _ ih => exact (List.suffix_cons _ _).trans (ih.trans (List.suffix_cons _ _))

end Matches

end SchemaTypes.TypeExpr
