import SchemaTypes.Text.Basic

/-!
# Lexemes of type expressions

A type expression is read as words, literals and marks. Nothing is a keyword by its spelling
alone: the grammar decides where a word such as `keyof` is one.
-/

namespace SchemaTypes.TypeExpr

inductive Mark where
  | bar
  | ampersand
  | leftParen
  | rightParen
  | leftBracket
  | rightBracket
  | leftBrace
  | rightBrace
  | less
  | greater
  | comma
  | colon
  | semicolon
  | question
  | dot
  | equals
  | minus
  | plus
  | arrow
  | ellipsis
  deriving DecidableEq, Repr

namespace Mark

/-- Every mark, the longer ones before those they start with. -/
def all : List Mark :=
  [.arrow, .ellipsis, .bar, .ampersand, .leftParen, .rightParen, .leftBracket, .rightBracket,
    .leftBrace, .rightBrace, .less, .greater, .comma, .colon, .semicolon, .question, .dot,
    .equals, .minus, .plus]

/-- How a mark is written. -/
def text : Mark → Text
  | bar => "|"
  | ampersand => "&"
  | leftParen => "("
  | rightParen => ")"
  | leftBracket => "["
  | rightBracket => "]"
  | leftBrace => "\x7b"
  | rightBrace => "\x7d"
  | less => "<"
  | greater => ">"
  | comma => ","
  | colon => ":"
  | semicolon => ";"
  | question => "?"
  | dot => "."
  | equals => "="
  | minus => "-"
  | plus => "+"
  | arrow => "=>"
  | ellipsis => "..."

end Mark

/-- A lexeme, with its full text as written. -/
inductive Lexeme where
  /-- An identifier or a keyword. -/
  | word (text : Text)
  /-- A quoted literal, quotes included. -/
  | string (text : Text)
  /-- Digits and points, starting with a digit. -/
  | number (text : Text)
  /-- A template literal, backquotes included. -/
  | template (text : Text)
  | mark (mark : Mark)
  deriving DecidableEq, Repr

/-- The text of a lexeme as written. -/
def Lexeme.text : Lexeme → Text
  | word t => t
  | string t => t
  | number t => t
  | template t => t
  | mark m => m.text

/-- A lexeme and the offset of its first byte in the source. -/
structure Token where
  lexeme : Lexeme
  offset : Nat
  deriving DecidableEq, Repr

/-- What is wrong with a type expression. -/
inductive Cause where
  | unterminatedString
  | unterminatedTemplate
  /-- No lexeme starts with this byte. -/
  | unexpectedByte (byte : UInt8)
  /-- There is no lexeme at all. -/
  | emptyExpression
  /-- A type is complete before this lexeme. -/
  | unexpected (lexeme : Lexeme)
  | expectedMark (mark : Mark)
  | expectedIdentifier
  | expectedType
  | expectedPropertyName
  deriving DecidableEq, Repr

def Cause.text : Cause → Text
  | unterminatedString => "unterminated string literal"
  | unterminatedTemplate => "unterminated template literal"
  | unexpectedByte b => "unexpected character '" ++ [b] ++ "'"
  | emptyExpression => "empty type expression"
  | unexpected lexeme => "unexpected '" ++ lexeme.text ++ "'"
  | expectedMark m => "expected '" ++ m.text ++ "'"
  | expectedIdentifier => "expected an identifier"
  | expectedType => "expected a type"
  | expectedPropertyName => "expected a property name"

/-- A cause and where reading stopped. -/
structure SyntaxError where
  cause : Cause
  offset : Nat
  deriving DecidableEq, Repr

def SyntaxError.message (e : SyntaxError) : Text :=
  Text.untilNul (e.cause.text ++ " at offset " ++ Text.decimal e.offset)

end SchemaTypes.TypeExpr
