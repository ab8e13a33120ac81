import SchemaTypes.Proofs.TypeExpr.Grammar
import SchemaTypes.TypeExpr.Recognizer

namespace SchemaTypes.TypeExpr

namespace Ebnf

/-- What may follow an item, up to the closing mark. -/
def moreItems (item separator : Ebnf) (closing : Mark) : Ebnf :=
  sequence [many (seq separator item), optional separator, mark closing]

/-- What may follow a type in brackets, up to the closing mark. -/
def moreCommaSeparated (item : Ebnf) (closing : Mark) : Ebnf :=
  seq (many (seq (mark .comma) item)) (mark closing)

/-- Any number of indices. -/
def indices : Ebnf :=
  many (alt (enclosed .leftBracket .rightBracket empty)
    (enclosed .leftBracket .rightBracket (form .type)))

/-- What separates the members of an object type. -/
def memberSeparator : Ebnf := alt (mark .semicolon) (mark .comma)

/-- What the grammar says of a goal. -/
def phrase : Goal → Ebnf
  | .type => form .type
  | .condition =>
    optional (sequence [keyword "extends", form .union, mark .question, form .type,
      mark .colon, form .type])
  | .union => form .union
  | .moreUnion => many (seq (mark .bar) (form .intersection))
  | .intersection => form .intersection
  | .moreIntersection => many (seq (mark .ampersand) (form .operation))
  | .operand => form .operation
  | .primary => form .primary
  | .indices => indices
  | .index => seq (alt (mark .rightBracket) (seq (form .type) (mark .rightBracket))) indices
  | .numeral => terminal .number
  | .typeName => identifier
  | .qualifiers => seq (many (seq (mark .dot) identifier)) (optional (form .typeArguments))
  | .moreTypeArguments => moreCommaSeparated (form .type) .greater
  | .identifier => identifier
  | .typeParameters => form .typeParameters
  | .typeParameter => seq (commaSeparated (form .typeParameter)) (mark .greater)
  | .moreTypeParameters => moreCommaSeparated (form .typeParameter) .greater
  | .bound => optional (seq (keyword "extends") (form .type))
  | .preset => optional (seq (mark .equals) (form .type))
  | .signature => form .signature
  | .parameters => form .parameters
  | .parameterList => seq (items (form .parameter) (mark .comma)) (mark .rightParen)
  | .moreParameters => moreItems (form .parameter) (mark .comma) .rightParen
  | .ascription => optional (seq (mark .colon) (form .type))
  | .elements => seq (items (form .element) (mark .comma)) (mark .rightBracket)
  | .moreElements => moreItems (form .element) (mark .comma) .rightBracket
  | .label => optional (sequence [terminal .anyWord, optional (mark .question), mark .colon])
  | .members => seq (items (form .member) memberSeparator) (mark .rightBrace)
  | .moreMembers => moreItems (form .member) memberSeparator .rightBrace
  | .member => form .member
  | .memberKey => form .property
  | .keyRest =>
    alt
      (sequence [keyword "in", form .type, mark .rightBracket, optional (mark .question),
        mark .colon, form .type])
      (sequence [mark .colon, form .type, mark .rightBracket, mark .colon, form .type])
  | .method => optional (form .signature)
  | .mark m => mark m
  | .optional m => optional (mark m)

end Ebnf

/-- By the grammar alone, the goals lead from one place to another. -/
def Reads (observed : Prop) (goals : List Goal) : List Lexeme → List Lexeme → Prop :=
  Matches observed (.sequence (goals.map Ebnf.phrase))

section

variable {observed : Prop} {a b c t : List Lexeme} {g : Goal} {gs hs : List Goal}

@[simp] theorem reads_nil : Reads observed [] a b ↔ a = b := Matches.sequence_nil_iff

@[simp] theorem reads_cons :
    Reads observed (g :: gs) a c ↔
      ∃ b, Matches observed (.phrase g) a b ∧ Reads observed gs b c :=
  Matches.sequence_cons_iff

theorem reads_singleton : Reads observed [g] a b ↔ Matches observed (.phrase g) a b := by
  simp

theorem reads_append :
    Reads observed (gs ++ hs) a c ↔ ∃ b, Reads observed gs a b ∧ Reads observed hs b c := by
  induction gs generalizing a with
  | nil => simp
  | cons g gs ih =>
    simp only [List.cons_append, reads_cons, ih]
    grind

theorem reads_concat :
    Reads observed (gs ++ [g]) a c ↔
      ∃ b, Reads observed gs a b ∧ Matches observed (.phrase g) b c := by
  simp [reads_append]

end

namespace Matches

open Ebnf

variable {observed : Prop} {a b : List Lexeme} {item separator : Ebnf} {closing m : Mark}

theorem markGoal_iff : Matches observed (phrase (.mark m)) a b ↔ a = .mark m :: b := mark_iff

theorem optionalGoal_iff :
    Matches observed (phrase (.optional m)) a b ↔ a = .mark m :: b ∨ a = b := by
  simp only [phrase, optional_iff, mark_iff]

/-- A repetition behind a mark is nothing, or that mark, one item and such a repetition. -/
theorem repeated_iff :
    Matches observed (.many (.seq (.terminal (.mark m)) item)) a b ↔
      (∃ t, a = .mark m :: t ∧
        Matches observed (.seq item (.many (.seq (.terminal (.mark m)) item))) t b) ∨
      a = b := by
  rw [many_iff, or_comm]
  refine or_congr_left ?_
  constructor
  · rintro ⟨c, next, rest⟩
    obtain ⟨t, behind, one⟩ := seq_iff.1 next
    exact ⟨t, mark_iff.1 behind, .seq one rest⟩
  · rintro ⟨t, rfl, rest⟩
    obtain ⟨c, one, rest⟩ := seq_iff.1 rest
    exact ⟨c, .seq (mark_iff.2 rfl) one, rest⟩

theorem moreItems_iff :
    Matches observed (moreItems item separator closing) a b ↔
      (∃ t, Matches observed separator a t ∧
        Matches observed (.seq (items item separator) (mark closing)) t b) ∨
      a = .mark closing :: b := by
  simp only [moreItems, items, sequence_cons_iff, sequence_nil_iff, optional_iff, seq_iff, mark_iff,
    exists_eq_right]
  constructor
  · rintro ⟨c, more, last⟩
    rcases many_iff.1 more with rfl | ⟨d, next, rest⟩
    · rcases last with last | rfl
      · exact .inl ⟨_, last, .inr rfl⟩
      · exact .inr rfl
    · obtain ⟨t, separated, one⟩ := seq_iff.1 next
      exact .inl ⟨t, separated, .inl ⟨d, one, c, rest, last⟩⟩
  · rintro (⟨t, separated, ⟨d, one, c, more, last⟩ | rfl⟩ | rfl)
    · exact ⟨c, .more (.seq separated one) more, last⟩
    · exact ⟨a, .done, .inl separated⟩
    · exact ⟨_, .done, .inr rfl⟩

/-- Items before a closing mark are none, or one and what follows it. -/
theorem items_iff :
    Matches observed (.seq (items item separator) (mark closing)) a b ↔
      a = .mark closing :: b ∨
      ∃ t, Matches observed item a t ∧ Matches observed (moreItems item separator closing) t b := by
  simp only [moreItems, items, sequence_cons_iff, sequence_nil_iff, optional_iff, seq_iff, mark_iff,
    exists_eq_right]
  exact or_comm

theorem moreCommaSeparated_iff :
    Matches observed (moreCommaSeparated item closing) a b ↔
      (∃ t, a = .mark .comma :: t ∧
        Matches observed (.seq (commaSeparated item) (mark closing)) t b) ∨
      a = .mark closing :: b := by
  simp only [moreCommaSeparated, commaSeparated, seq_iff, mark_iff, exists_eq_right]
  rw [repeated_iff]
  simp only [seq_iff]

theorem commaSeparated_iff :
    Matches observed (.seq (commaSeparated item) (mark closing)) a b ↔
      ∃ t, Matches observed item a t ∧ Matches observed (moreCommaSeparated item closing) t b := by
  simp only [moreCommaSeparated, commaSeparated, seq_iff, mark_iff, exists_eq_right]

theorem typeParameters_iff :
    Matches observed (phrase .typeParameters) a b ↔
      Reads observed [.mark .less, .typeParameter] a b := by
  rw [phrase, form_iff]
  simp [production, phrase]

theorem typeParameter_iff :
    Matches observed (phrase .typeParameter) a b ↔
      Reads observed [.identifier, .bound, .preset, .moreTypeParameters] a b := by
  show _ ↔ Reads observed ([.identifier, .bound, .preset] ++ [.moreTypeParameters]) a b
  rw [phrase, commaSeparated_iff, reads_concat]
  exact exists_congr fun t => and_congr form_iff .rfl

theorem moreTypeParameters_iff :
    Matches observed (phrase .moreTypeParameters) a b ↔
      (∃ t, a = .mark .comma :: t ∧ Matches observed (phrase .typeParameter) t b) ∨
      a = .mark .greater :: b :=
  moreCommaSeparated_iff

theorem bound_iff :
    Matches observed (phrase .bound) a b ↔
      (∃ t, a = .word "extends" :: t ∧ Matches observed (phrase .type) t b) ∨ a = b := by
  simp [phrase]

theorem preset_iff :
    Matches observed (phrase .preset) a b ↔
      (∃ t, a = .mark .equals :: t ∧ Matches observed (phrase .type) t b) ∨ a = b := by
  simp [phrase]

theorem ascription_iff :
    Matches observed (phrase .ascription) a b ↔
      (∃ t, a = .mark .colon :: t ∧ Matches observed (phrase .type) t b) ∨ a = b := by
  simp [phrase]

theorem parameters_iff :
    Matches observed (phrase .parameters) a b ↔
      Reads observed [.mark .leftParen, .parameterList] a b := by
  rw [phrase, form_iff]
  simp [production, phrase]

theorem parameterList_iff :
    Matches observed (phrase .parameterList) a b ↔
      a = .mark .rightParen :: b ∨
      Reads observed
        [.optional .ellipsis, .identifier, .optional .question, .ascription, .moreParameters]
        a b := by
  show _ ↔ _ ∨ Reads observed
    ([.optional .ellipsis, .identifier, .optional .question, .ascription] ++ [.moreParameters]) a b
  rw [phrase, items_iff, reads_concat]
  exact or_congr .rfl (exists_congr fun t => and_congr form_iff .rfl)

theorem moreParameters_iff :
    Matches observed (phrase .moreParameters) a b ↔
      (∃ t, a = .mark .comma :: t ∧ Matches observed (phrase .parameterList) t b) ∨
      a = .mark .rightParen :: b := by
  simp only [phrase, moreItems_iff, mark_iff]

theorem signature_iff :
    Matches observed (phrase .signature) a b ↔
      Reads observed [.typeParameters, .parameters] a b ∨
      Matches observed (phrase .parameters) a b := by
  rw [phrase, form_iff]
  simp [production, phrase]

theorem functionType_iff :
    Matches observed (.form .functionType) a b ↔
      (∃ t, a = .word "new" :: t ∧ Reads observed [.signature, .mark .arrow, .type] t b) ∨
      Reads observed [.signature, .mark .arrow, .type] a b := by
  rw [form_iff]
  simp [production, phrase]

theorem signature_first_iff {goals : List Goal} :
    Reads observed (.signature :: goals) a b ↔
      (∃ t, a = .mark .less :: t ∧ Reads observed (.typeParameter :: .parameters :: goals) t b) ∨
      ∃ t, a = .mark .leftParen :: t ∧ Reads observed (.parameterList :: goals) t b := by
  simp only [reads_cons, signature_iff, typeParameters_iff, parameters_iff, markGoal_iff, reads_nil,
    exists_eq_right]
  grind

theorem rule_seq_iff {r : WordRule} {e : Ebnf} :
    Matches observed (.seq (.rule r) e) a b ↔
      (observed → ¬ r.Broken a) ∧ Matches observed e a b := by
  constructor
  · intro h
    obtain ⟨c, ruled, rest⟩ := seq_iff.1 h
    obtain ⟨kept, rfl⟩ := rule_iff.1 ruled
    exact ⟨kept, rest⟩
  · rintro ⟨kept, rest⟩
    exact .seq (.rule kept) rest

theorem type_iff :
    Matches observed (phrase .type) a b ↔
      (∃ t, a = .mark .less :: t ∧
        Reads observed [.typeParameter, .parameters, .mark .arrow, .type] t b) ∨
      (∃ t, a = .mark .leftParen :: t ∧
        Reads observed [.parameterList, .mark .arrow, .type] t b) ∨
      (∃ t, a = .word "new" :: t ∧ Reads observed [.signature, .mark .arrow, .type] t b) ∨
      (observed → ¬ WordRule.constructorType.Broken a) ∧
        Reads observed [.union, .condition] a b := by
  rw [phrase, form_iff, production, alt_iff, functionType_iff, signature_first_iff, or_assoc,
    or_left_comm, or_assoc]
  exact or_congr .rfl (or_congr .rfl (or_congr .rfl rule_seq_iff))

theorem condition_iff :
    Matches observed (phrase .condition) a b ↔
      (∃ t, a = .word "extends" :: t ∧
        Reads observed [.union, .mark .question, .type, .mark .colon, .type] t b) ∨ a = b := by
  simp [phrase]

theorem union_iff :
    Matches observed (phrase .union) a b ↔
      Reads observed [.optional .bar, .intersection, .moreUnion] a b :=
  form_iff

theorem moreUnion_iff :
    Matches observed (phrase .moreUnion) a b ↔
      (∃ t, a = .mark .bar :: t ∧ Reads observed [.intersection, .moreUnion] t b) ∨ a = b := by
  rw [phrase, repeated_iff]
  simp only [phrase, seq_iff, reads_cons, reads_nil, exists_eq_right]

theorem intersection_iff :
    Matches observed (phrase .intersection) a b ↔
      Reads observed [.optional .ampersand, .operand, .moreIntersection] a b :=
  form_iff

theorem moreIntersection_iff :
    Matches observed (phrase .moreIntersection) a b ↔
      (∃ t, a = .mark .ampersand :: t ∧ Reads observed [.operand, .moreIntersection] t b) ∨
      a = b := by
  rw [phrase, repeated_iff]
  simp only [phrase, seq_iff, reads_cons, reads_nil, exists_eq_right]

theorem indices_iff :
    Matches observed (phrase .indices) a b ↔
      (∃ t, a = .mark .leftBracket :: t ∧ Matches observed (phrase .index) t b) ∨ a = b := by
  rw [phrase, indices, many_iff]
  simp only [phrase, indices, seq_iff, alt_iff, enclosed_iff, empty_iff, mark_iff, exists_eq_right]
  grind

theorem index_iff :
    Matches observed (phrase .index) a b ↔
      (∃ t, a = .mark .rightBracket :: t ∧ Matches observed (phrase .indices) t b) ∨
      Reads observed [.type, .mark .rightBracket, .indices] a b := by
  simp only [phrase, seq_iff, alt_iff, mark_iff, reads_cons, reads_nil, exists_eq_right]
  grind

theorem operand_iff :
    Matches observed (phrase .operand) a b ↔
      (∃ w t, w ∈ operators ∧ a = .word w :: t ∧ Matches observed (phrase .operand) t b) ∨
      (∃ t, a = .word "infer" :: t ∧ Matches observed (phrase .identifier) t b) ∨
      (observed → ¬ WordRule.operand.Broken a) ∧ Reads observed [.primary, .indices] a b := by
  rw [phrase, form_iff, production, alt_iff, alt_iff, rule_seq_iff, form_iff (p := .indexed)]
  simp only [production, phrase, indices, operators, alt_iff, seq_iff, keyword_iff, identifier_iff,
    reads_cons, reads_nil, exists_eq_right, List.mem_cons, List.not_mem_nil, or_false]
  grind

theorem typeArguments_iff :
    Matches observed (.form .typeArguments) a b ↔
      ∃ t, a = .mark .less :: t ∧ Reads observed [.type, .moreTypeArguments] t b := by
  rw [form_iff, production, enclosed_iff]
  simp [phrase, moreCommaSeparated, commaSeparated]

theorem qualifiers_iff :
    Matches observed (phrase .qualifiers) a b ↔
      (∃ t, a = .mark .dot :: t ∧ Reads observed [.identifier, .qualifiers] t b) ∨
      (∃ t, a = .mark .less :: t ∧ Reads observed [.type, .moreTypeArguments] t b) ∨
      a = b := by
  simp only [phrase, seq_iff, repeated_iff (a := a), optional_iff, typeArguments_iff, reads_cons,
    reads_nil, exists_eq_right, exists_or_eq_imp']
  grind

theorem moreTypeArguments_iff :
    Matches observed (phrase .moreTypeArguments) a b ↔
      (∃ t, a = .mark .comma :: t ∧ Reads observed [.type, .moreTypeArguments] t b) ∨
      a = .mark .greater :: b := by
  rw [phrase, moreCommaSeparated_iff]
  simp only [commaSeparated_iff, reads_cons, reads_nil, exists_eq_right, phrase]

theorem reference_iff :
    Matches observed (.form .reference) a b ↔
      (∃ t, a = .word "typeof" :: t ∧ Reads observed [.typeName, .qualifiers] t b) ∨
      (observed → ¬ WordRule.query.Broken a) ∧ Reads observed [.typeName, .qualifiers] a b := by
  rw [form_iff]
  simp only [production, phrase, form_iff (p := .name), alt_iff, seq_iff, sequence_cons_iff,
    sequence_nil_iff, keyword_iff, identifier_iff, optional_iff, rule_iff, reads_cons, reads_nil,
    exists_eq_right]
  grind

/-- A literal is a type by itself. -/
def IsLiteral : Lexeme → Prop
  | .string _ => True
  | .number _ => True
  | .template _ => True
  | _ => False

theorem primary_iff :
    Matches observed (phrase .primary) a b ↔
      (∃ l, IsLiteral l ∧ a = l :: b) ∨
      (∃ t, a = .mark .minus :: t ∧ Matches observed (phrase .numeral) t b) ∨
      (∃ t, a = .mark .leftParen :: t ∧ Reads observed [.type, .mark .rightParen] t b) ∨
      (∃ t, a = .mark .leftBrace :: t ∧ Matches observed (phrase .members) t b) ∨
      (∃ t, a = .mark .leftBracket :: t ∧ Matches observed (phrase .elements) t b) ∨
      (∃ t, a = .word "typeof" :: t ∧ Reads observed [.typeName, .qualifiers] t b) ∨
      (observed → ¬ WordRule.query.Broken a) ∧ Reads observed [.typeName, .qualifiers] a b := by
  rw [phrase, form_iff]
  simp only [production, alt_iff, reference_iff, string_iff, number_iff, template_iff, seq_iff,
    mark_iff, enclosed_iff, reads_cons, reads_nil, phrase, memberSeparator, Lexeme.exists,
    IsLiteral, exists_eq_right]
  grind

theorem label_iff :
    Matches observed (phrase .label) a b ↔
      (∃ w, a = .word w :: .mark .colon :: b) ∨
      (∃ w, a = .word w :: .mark .question :: .mark .colon :: b) ∨ a = b := by
  simp only [phrase, optional_iff, sequence_cons_iff, sequence_nil_iff, anyWord_iff, mark_iff,
    exists_eq_right]
  grind

theorem elements_iff :
    Matches observed (phrase .elements) a b ↔
      a = .mark .rightBracket :: b ∨
      Reads observed
        [.optional .ellipsis, .label, .type, .optional .question, .moreElements] a b := by
  show _ ↔ _ ∨ Reads observed
    ([.optional .ellipsis, .label, .type, .optional .question] ++ [.moreElements]) a b
  rw [phrase, items_iff, reads_concat]
  exact or_congr .rfl (exists_congr fun t => and_congr form_iff .rfl)

theorem moreElements_iff :
    Matches observed (phrase .moreElements) a b ↔
      (∃ t, a = .mark .comma :: t ∧ Matches observed (phrase .elements) t b) ∨
      a = .mark .rightBracket :: b := by
  simp only [phrase, moreItems_iff, mark_iff]

theorem members_iff :
    Matches observed (phrase .members) a b ↔
      a = .mark .rightBrace :: b ∨ Reads observed [.member, .moreMembers] a b := by
  rw [phrase, items_iff]
  simp only [reads_cons, reads_nil, exists_eq_right, phrase]

theorem moreMembers_iff :
    Matches observed (phrase .moreMembers) a b ↔
      (∃ t, (a = .mark .semicolon :: t ∨ a = .mark .comma :: t) ∧
        Matches observed (phrase .members) t b) ∨
      a = .mark .rightBrace :: b := by
  simp only [phrase, moreItems_iff, memberSeparator, alt_iff, mark_iff]

theorem member_iff :
    Matches observed (phrase .member) a b ↔
      Reads observed [.signature, .mark .colon, .type] a b ∨
      (∃ t, a = .word "readonly" :: t ∧ Matches observed (phrase .memberKey) t b) ∨
      Matches observed (phrase .memberKey) a b := by
  rw [phrase, form_iff]
  simp [production, phrase]

/-- A lexeme that may name a property. -/
def IsPropertyName : Lexeme → Prop
  | .word _ => True
  | .string _ => True
  | .number _ => True
  | _ => False

theorem propertyName_iff :
    Matches observed
        (.alt (.terminal .anyWord) (.alt (.terminal .string) (.terminal .number))) a b ↔
      ∃ l, IsPropertyName l ∧ a = l :: b := by
  simp [Lexeme.exists, IsPropertyName]

theorem memberKey_iff :
    Matches observed (phrase .memberKey) a b ↔
      (∃ t, a = .mark .leftBracket :: t ∧ Reads observed [.identifier, .keyRest] t b) ∨
      ∃ l t, IsPropertyName l ∧ a = l :: t ∧
        Reads observed [.optional .question, .method, .mark .colon, .type] t b := by
  rw [phrase, form_iff, production, alt_iff, alt_iff, ← or_assoc]
  refine or_congr ?_ ?_
  · simp only [phrase, sequence_cons_iff, sequence_nil_iff, enclosed_iff, alt_iff, identifier_iff,
      keyword_iff, mark_iff, optional_iff, reads_cons, reads_nil, exists_eq_right]
    grind
  · rw [sequence_cons_iff]
    constructor
    · rintro ⟨t, key, rest⟩
      obtain ⟨l, named, rfl⟩ := propertyName_iff.1 key
      exact ⟨l, t, named, rfl, rest⟩
    · rintro ⟨l, t, named, rfl, rest⟩
      exact ⟨t, propertyName_iff.2 ⟨l, named, rfl⟩, rest⟩

theorem keyRest_iff :
    Matches observed (phrase .keyRest) a b ↔
      (∃ t, a = .word "in" :: t ∧
        Reads observed [.type, .mark .rightBracket, .optional .question, .mark .colon, .type] t b) ∨
      Reads observed [.mark .colon, .type, .mark .rightBracket, .mark .colon, .type] a b := by
  simp [phrase]

theorem method_iff :
    Matches observed (phrase .method) a b ↔
      Matches observed (phrase .signature) a b ∨ a = b := by
  simp [phrase]

/-! ## Types of one operand -/

section

variable {c : List Lexeme} {w : Text}

theorem primary_of_name (unreserved : w ∉ reserved) (free : observed → w ≠ "typeof")
    (rest : Matches observed (phrase .qualifiers) a b) :
    Matches observed (phrase .primary) (.word w :: a) b := by
  have name : Matches observed (phrase .typeName) (.word w :: a) a :=
    identifier_iff.2 ⟨w, unreserved, rfl⟩
  have reference : Reads observed [.typeName, .qualifiers] (.word w :: a) b :=
    reads_cons.2 ⟨a, name, reads_singleton.2 rest⟩
  exact primary_iff.2 (.inr (.inr (.inr (.inr (.inr (.inr ⟨free, reference⟩))))))

theorem primary_of_word (unreserved : w ∉ reserved) (free : observed → w ≠ "typeof")
    (a : List Lexeme) : Matches observed (phrase .primary) (.word w :: a) a :=
  primary_of_name unreserved free (qualifiers_iff.2 (.inr (.inr rfl)))

theorem operand_of_primary (free : observed → ¬ WordRule.operand.Broken a)
    (primary : Matches observed (phrase .primary) a b)
    (indices : Matches observed (phrase .indices) b c) :
    Matches observed (phrase .operand) a c :=
  operand_iff.2 (.inr (.inr ⟨free, reads_cons.2 ⟨b, primary, reads_singleton.2 indices⟩⟩))

theorem operand_of_literal {l : Lexeme} (literal : IsLiteral l) (a : List Lexeme) :
    Matches observed (phrase .operand) (l :: a) a := by
  have free : ¬ WordRule.operand.Broken (l :: a) := by
    cases l with
    | word | mark => exact literal.elim
    | string | number | template => exact id
  have primary : Matches observed (phrase .primary) (l :: a) a :=
    primary_iff.2 (.inl ⟨l, literal, rfl⟩)
  exact operand_of_primary (fun _ => free) primary (indices_iff.2 (.inr rfl))

theorem intersection_of_operand (operand : Matches observed (phrase .operand) a b) :
    Matches observed (phrase .intersection) a b := by
  have last : Matches observed (phrase .moreIntersection) b b := moreIntersection_iff.2 (.inr rfl)
  have rest : Reads observed [.operand, .moreIntersection] a b :=
    reads_cons.2 ⟨b, operand, reads_singleton.2 last⟩
  exact intersection_iff.2 (reads_cons.2 ⟨a, optionalGoal_iff.2 (.inr rfl), rest⟩)

theorem union_of_intersection (first : Matches observed (phrase .intersection) a b)
    (more : Matches observed (phrase .moreUnion) b c) : Matches observed (phrase .union) a c := by
  have rest : Reads observed [.intersection, .moreUnion] a c :=
    reads_cons.2 ⟨b, first, reads_singleton.2 more⟩
  exact union_iff.2 (reads_cons.2 ⟨a, optionalGoal_iff.2 (.inr rfl), rest⟩)

theorem type_of_union (free : observed → ¬ WordRule.constructorType.Broken a)
    (union : Matches observed (phrase .union) a b)
    (condition : Matches observed (phrase .condition) b c) :
    Matches observed (phrase .type) a c :=
  type_iff.2 (.inr (.inr (.inr
    ⟨free, reads_cons.2 ⟨b, union, reads_singleton.2 condition⟩⟩)))

theorem type_of_operand (free : observed → ¬ WordRule.constructorType.Broken a)
    (operand : Matches observed (phrase .operand) a b) :
    Matches observed (phrase .type) a b := by
  have union : Matches observed (phrase .union) a b :=
    union_of_intersection (intersection_of_operand operand) (moreUnion_iff.2 (.inr rfl))
  exact type_of_union free union (condition_iff.2 (.inr rfl))

end

end Matches

end SchemaTypes.TypeExpr
