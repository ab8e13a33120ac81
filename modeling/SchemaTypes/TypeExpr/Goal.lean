import SchemaTypes.TypeExpr.Token

/-!
# The grammar of type expressions, one goal at a time

A goal is a stretch of lexemes still to be read. Looking at the lexemes ahead, `Goal.predict` says
how it is met: by taking one lexeme, by becoming a list of smaller goals, or not at all. At most
three lexemes ahead matter, apart from one question: whether a `(` opens the parameters of a
function type, which its matching `)` and the mark after that decide.
-/

namespace SchemaTypes.TypeExpr

/-- A stretch of lexemes still to be read. -/
inductive Goal where
  /-- A function type, or a union that may be followed by a condition. -/
  | type
  /-- Nothing, or `extends` union `?` type `:` type. -/
  | condition
  /-- Intersections joined by `|`, with an optional leading `|`. -/
  | union
  | moreUnion
  /-- Operands joined by `&`, with an optional leading `&`. -/
  | intersection
  | moreIntersection
  /-- An operator before an operand, `infer` before a name, or a primary type with its indices. -/
  | operand
  /-- A literal, a named type, or a type in brackets. -/
  | primary
  /-- Any number of `[]` and `[` type `]`. -/
  | indices
  /-- What follows the `[` of an index. -/
  | index
  /-- The number after a minus sign. -/
  | numeral
  /-- The first identifier of a type name. -/
  | typeName
  /-- Any number of `.` identifier, then perhaps type arguments. -/
  | qualifiers
  | moreTypeArguments
  /-- A word that is not reserved. -/
  | identifier
  /-- Type parameters in angle brackets. -/
  | typeParameters
  | typeParameter
  | moreTypeParameters
  /-- Nothing, or `extends` type. -/
  | bound
  /-- Nothing, or `=` type. -/
  | preset
  /-- Optional type parameters, then parameters. -/
  | signature
  /-- Parameters in parentheses. -/
  | parameters
  /-- What follows the `(` of parameters, or a comma between them. -/
  | parameterList
  | moreParameters
  /-- Nothing, or `:` type. -/
  | ascription
  /-- What follows the `[` of a tuple, or a comma in it. -/
  | elements
  | moreElements
  /-- Nothing, or the name of a tuple element with its `:` or `?:`. -/
  | label
  /-- What follows the `{` of an object type, or a separator in it. -/
  | members
  | moreMembers
  | member
  /-- The member's name, or its key in brackets, and all that follows. -/
  | memberKey
  /-- What follows the identifier of a key in brackets. -/
  | keyRest
  /-- Nothing, or the signature of a method. -/
  | method
  /-- This mark. -/
  | mark (mark : Mark)
  /-- This mark, if it is next. -/
  | optional (mark : Mark)
  deriving DecidableEq, Repr

/-- The words that name no type, parameter or key. -/
def reserved : List Text :=
  ["extends", "implements", "function", "class", "return", "if", "else", "var", "let", "const",
    "in", "instanceof", "delete", "export", "import"]

/-- The words that are operators before an operand. -/
def operators : List Text := ["keyof", "unique", "readonly"]

/-- Whether the next lexeme may start the operand of an operator. -/
def startsOperand : List Lexeme → Bool
  | [] => false
  | .mark m :: _ =>
    m == .leftParen || m == .leftBracket || m == .leftBrace || m == .minus
  | _ => true

/-- Whether the word `readonly` before these lexemes qualifies a member, rather than naming one. -/
def startsQualified : List Lexeme → Bool
  | .mark m :: _ => m == .leftBracket
  | _ => true

/-- Whether the lexemes after `depth` open parentheses close them with `=>` right behind. -/
def closesBeforeArrow (depth : Nat) : List Lexeme → Bool
  | [] => false
  | .mark .leftParen :: rest => closesBeforeArrow (depth + 1) rest
  | .mark .rightParen :: rest =>
    if depth = 1 then rest.head? = some (.mark .arrow) else closesBeforeArrow (depth - 1) rest
  | _ :: rest => closesBeforeArrow depth rest

/-- How a goal is met. -/
inductive Move where
  /-- Take the next lexeme, then meet these goals. -/
  | take (goals : List Goal)
  /-- Meet these goals instead. -/
  | become (goals : List Goal)
  /-- The goal cannot be met. -/
  | refuse (cause : Cause)
  deriving DecidableEq, Repr

namespace Goal

/-- How a goal is met when these lexemes are ahead. -/
def predict (goal : Goal) (ahead : List Lexeme) : Move :=
  match goal with
  | type =>
    match ahead with
    | .mark .less :: _ => .take [typeParameter, parameters, mark .arrow, type]
    | .mark .leftParen :: rest =>
      if closesBeforeArrow 1 rest then .take [parameterList, mark .arrow, type]
      else .become [union, condition]
    | .word w :: _ =>
      if w = "new" then .take [signature, mark .arrow, type] else .become [union, condition]
    | _ => .become [union, condition]
  | condition =>
    match ahead with
    | .word w :: _ =>
      if w = "extends" then .take [union, mark .question, type, mark .colon, type] else .become []
    | _ => .become []
  | union => .become [optional .bar, intersection, moreUnion]
  | moreUnion =>
    match ahead with
    | .mark .bar :: _ => .take [intersection, moreUnion]
    | _ => .become []
  | intersection => .become [optional .ampersand, operand, moreIntersection]
  | moreIntersection =>
    match ahead with
    | .mark .ampersand :: _ => .take [operand, moreIntersection]
    | _ => .become []
  | operand =>
    match ahead with
    | .word w :: rest =>
      if w ∈ operators ∧ startsOperand rest then .take [operand]
      else
        match rest with
        | .word _ :: _ => if w = "infer" then .take [identifier] else .become [primary, indices]
        | _ => .become [primary, indices]
    | _ => .become [primary, indices]
  | primary =>
    match ahead with
    | .word w :: _ =>
      if w = "typeof" then .take [typeName, qualifiers] else .become [typeName, qualifiers]
    | .mark .minus :: .number _ :: _ => .take [numeral]
    | .mark .leftParen :: _ => .take [type, mark .rightParen]
    | .mark .leftBrace :: _ => .take [members]
    | .mark .leftBracket :: _ => .take [elements]
    | .mark _ :: _ => .refuse .expectedType
    | _ :: _ => .take []
    | [] => .refuse .expectedType
  | indices =>
    match ahead with
    | .mark .leftBracket :: _ => .take [index]
    | _ => .become []
  | index =>
    match ahead with
    | .mark .rightBracket :: _ => .take [indices]
    | _ => .become [type, mark .rightBracket, indices]
  | numeral =>
    match ahead with
    | .number _ :: _ => .take []
    | _ => .refuse .expectedType
  | typeName =>
    match ahead with
    | .word w :: _ => if w ∈ reserved then .refuse .expectedIdentifier else .take []
    | _ => .refuse .expectedIdentifier
  | qualifiers =>
    match ahead with
    | .mark .dot :: _ => .take [identifier, qualifiers]
    | .mark .less :: _ => .take [type, moreTypeArguments]
    | _ => .become []
  | moreTypeArguments =>
    match ahead with
    | .mark .comma :: _ => .take [type, moreTypeArguments]
    | _ => .become [mark .greater]
  | identifier =>
    match ahead with
    | .word w :: _ => if w ∈ reserved then .refuse .expectedIdentifier else .take []
    | _ => .refuse .expectedIdentifier
  | typeParameters => .become [mark .less, typeParameter]
  | typeParameter => .become [identifier, bound, preset, moreTypeParameters]
  | moreTypeParameters =>
    match ahead with
    | .mark .comma :: _ => .take [typeParameter]
    | _ => .become [mark .greater]
  | bound =>
    match ahead with
    | .word w :: _ => if w = "extends" then .take [type] else .become []
    | _ => .become []
  | preset =>
    match ahead with
    | .mark .equals :: _ => .take [type]
    | _ => .become []
  | signature =>
    match ahead with
    | .mark .less :: _ => .become [typeParameters, parameters]
    | _ => .become [parameters]
  | parameters => .become [mark .leftParen, parameterList]
  | parameterList =>
    match ahead with
    | .mark .rightParen :: _ => .take []
    | _ =>
      .become [optional .ellipsis, identifier, optional .question, ascription, moreParameters]
  | moreParameters =>
    match ahead with
    | .mark .comma :: _ => .take [parameterList]
    | _ => .become [mark .rightParen]
  | ascription =>
    match ahead with
    | .mark .colon :: _ => .take [type]
    | _ => .become []
  | elements =>
    match ahead with
    | .mark .rightBracket :: _ => .take []
    | _ =>
      .become [optional .ellipsis, label, type, optional .question, moreElements]
  | moreElements =>
    match ahead with
    | .mark .comma :: _ => .take [elements]
    | _ => .become [mark .rightBracket]
  | label =>
    match ahead with
    | .word _ :: .mark .colon :: _ => .take [mark .colon]
    | .word _ :: .mark .question :: .mark .colon :: _ => .take [mark .question, mark .colon]
    | _ => .become []
  | members =>
    match ahead with
    | .mark .rightBrace :: _ => .take []
    | _ => .become [member, moreMembers]
  | moreMembers =>
    match ahead with
    | .mark .semicolon :: _ => .take [members]
    | .mark .comma :: _ => .take [members]
    | _ => .become [mark .rightBrace]
  | member =>
    match ahead with
    | .mark .leftParen :: _ => .become [signature, mark .colon, type]
    | .mark .less :: _ => .become [signature, mark .colon, type]
    | .word w :: rest =>
      if w = "readonly" ∧ startsQualified rest then .take [memberKey] else .become [memberKey]
    | _ => .become [memberKey]
  | memberKey =>
    match ahead with
    | .mark .leftBracket :: _ => .take [identifier, keyRest]
    | .mark _ :: _ => .refuse .expectedPropertyName
    | .template _ :: _ => .refuse .expectedPropertyName
    | _ :: _ => .take [optional .question, method, mark .colon, type]
    | [] => .refuse .expectedPropertyName
  | keyRest =>
    match ahead with
    | .word w :: _ =>
      if w = "in" then
        .take [type, mark .rightBracket, optional .question, mark .colon, type]
      else .become [mark .colon, type, mark .rightBracket, mark .colon, type]
    | _ => .become [mark .colon, type, mark .rightBracket, mark .colon, type]
  | method =>
    match ahead with
    | .mark .leftParen :: _ => .become [signature]
    | .mark .less :: _ => .become [signature]
    | _ => .become []
  | mark m =>
    match ahead with
    | .mark next :: _ => if next = m then .take [] else .refuse (.expectedMark m)
    | _ => .refuse (.expectedMark m)
  | optional m =>
    match ahead with
    | .mark next :: _ => if next = m then .take [] else .become []
    | _ => .become []

/-- A bound on how much a goal can become before it takes a lexeme. -/
def weight : Goal → Nat
  | type => 13
  | condition => 1
  | union => 11
  | moreUnion => 1
  | intersection => 8
  | moreIntersection => 1
  | operand => 5
  | primary => 3
  | indices => 1
  | index => 16
  | numeral => 1
  | typeName => 1
  | qualifiers => 1
  | moreTypeArguments => 2
  | identifier => 1
  | typeParameters => 8
  | typeParameter => 6
  | moreTypeParameters => 2
  | bound => 1
  | preset => 1
  | signature => 18
  | parameters => 9
  | parameterList => 7
  | moreParameters => 2
  | ascription => 1
  | elements => 19
  | moreElements => 2
  | label => 1
  | members => 36
  | moreMembers => 2
  | member => 33
  | memberKey => 1
  | keyRest => 30
  | method => 19
  | mark _ => 1
  | optional _ => 1

/-- The weight of a list of goals. -/
def totalWeight : List Goal → Nat
  | [] => 0
  | g :: rest => g.weight + totalWeight rest

/-- More than what any one lexeme leaves to be met weighs. -/
abbrev lexemeWeight : Nat := 40

end Goal

/-- A move makes progress if it takes a lexeme and leaves less than a lexeme weighs, or takes none
and leaves less than the goal weighed. -/
def Move.Progress (goal : Goal) (ahead : List Lexeme) : Move → Prop
  | take goals => ahead ≠ [] ∧ Goal.totalWeight goals < Goal.lexemeWeight
  | become goals => Goal.totalWeight goals < goal.weight
  | refuse _ => True

namespace Goal

/-- Every move makes progress. -/
theorem predict_progress (g : Goal) (ahead : List Lexeme) :
    (g.predict ahead).Progress g ahead := by
  fun_cases predict g ahead <;> simp_all +decide [Move.Progress, totalWeight, weight]

end Goal

end SchemaTypes.TypeExpr
