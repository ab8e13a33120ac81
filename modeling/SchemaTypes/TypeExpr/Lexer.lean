import SchemaTypes.TypeExpr.Token

namespace SchemaTypes.TypeExpr

open Text

/-- The bytes that may stand between lexemes. -/
def isBlank (b : UInt8) : Bool :=
  b == space || b == tab || b == lineFeed || b == carriageReturn

/-- The first byte of a word: a letter, `_` or `$`. -/
def startsWord (b : UInt8) : Bool := isLetter b || b == '_'.toUInt8 || b == '$'.toUInt8

/-- A later byte of a word. -/
def continuesWord (b : UInt8) : Bool := startsWord b || isDigit b

/-- A later byte of a number. -/
def continuesNumber (b : UInt8) : Bool := isDigit b || b == '.'.toUInt8

/-- How far a literal reaches after its opening delimiter. -/
inductive Extent where
  /-- The closing delimiter is the last of this many bytes. -/
  | closed (length : Nat)
  /-- No closing delimiter; scanning stopped after this many bytes. -/
  | unclosed (length : Nat)
  deriving DecidableEq, Repr

/-- The extent of a literal that starts with `n` more bytes. -/
def Extent.after (n : Nat) : Extent → Extent
  | closed k => closed (n + k)
  | unclosed k => unclosed (n + k)

/-- The extent of a string literal after its opening quote. A backslash takes the next byte with
it, even where there is none; a NUL byte or a line feed leaves the literal open. -/
def stringExtent (quote : UInt8) : Text → Extent
  | [] => .unclosed 0
  | b :: rest =>
    if b = quote then .closed 1
    else if b = 0 ∨ b = lineFeed then .unclosed 0
    else if b = backslash then
      match rest with
      | [] => .unclosed 2
      | _ :: later => (stringExtent quote later).after 2
    else (stringExtent quote rest).after 1

/-- The extent of a template literal after its opening backquote, inside `depth` braces of an
interpolation. The closing backquote is the first one outside interpolations. -/
def templateExtent (depth : Nat) : Text → Extent
  | [] => .unclosed 0
  | b :: rest =>
    if depth = 0 ∧ b = backquote then .closed 1
    else if b = 0 then .unclosed 0
    else if b = backslash then
      match rest with
      | [] => .unclosed 2
      | _ :: later => (templateExtent depth later).after 2
    else if depth = 0 then
      match rest with
      | [] => .unclosed 1
      | c :: later =>
        if b = '$'.toUInt8 ∧ c = '\x7b'.toUInt8 then (templateExtent 1 later).after 2
        else (templateExtent 0 (c :: later)).after 1
    else if b = '\x7b'.toUInt8 then (templateExtent (depth + 1) rest).after 1
    else if b = '\x7d'.toUInt8 then (templateExtent (depth - 1) rest).after 1
    else (templateExtent depth rest).after 1

/-- The mark that a text starts with. -/
def mark? (source : Text) : Option Mark := Mark.all.find? (·.text.isPrefixOf source)

/-- A lexeme and the number of its bytes after the first one; or why there is none, and how many
bytes were read to find that out. -/
abbrev Reading := Except (Cause × Nat) (Lexeme × Nat)

/-- A literal made of the opening delimiter and as much as its extent says. -/
def literal (kind : Text → Lexeme) (cause : Cause) (opening : UInt8) (rest : Text) :
    Extent → Reading
  | .closed n => .ok (kind (opening :: rest.take n), n)
  | .unclosed n => .error (cause, 1 + n)

/-- The lexeme that starts with the byte `b`, which is no blank. -/
def lexeme (b : UInt8) (rest : Text) : Reading :=
  if startsWord b then
    let more := rest.takeWhile continuesWord
    .ok (.word (b :: more), more.length)
  else if isDigit b then
    let more := rest.takeWhile continuesNumber
    .ok (.number (b :: more), more.length)
  else if b = singleQuote ∨ b = doubleQuote then
    literal .string .unterminatedString b rest (stringExtent b rest)
  else if b = backquote then
    literal .template .unterminatedTemplate b rest (templateExtent 0 rest)
  else
    match mark? (b :: rest) with
    | some m => .ok (.mark m, m.text.length - 1)
    | none => .error (.unexpectedByte b, 0)

/-- The tokens of a source whose first byte has the given offset. -/
def tokensFrom (offset : Nat) : Text → Except SyntaxError (List Token)
  | [] => .ok []
  | b :: rest =>
    if isBlank b then tokensFrom (offset + 1) rest
    else
      match lexeme b rest with
      | .error (cause, read) => .error ⟨cause, offset + read⟩
      | .ok (l, more) => (tokensFrom (offset + 1 + more) (rest.drop more)).map (⟨l, offset⟩ :: ·)
termination_by source => source.length
decreasing_by all_goals simp; try omega

/-- The tokens of a source. -/
def tokens (source : Text) : Except SyntaxError (List Token) := tokensFrom 0 source

end SchemaTypes.TypeExpr
