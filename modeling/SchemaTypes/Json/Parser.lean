import SchemaTypes.Json.Basic

namespace SchemaTypes.Json

open Text

/-- A token: a mark, or a value that is no container. -/
inductive Token where
  | leftBracket
  | rightBracket
  | leftBrace
  | rightBrace
  | comma
  | colon
  | atom (value : Json)
  deriving Repr

/-- Why a text is no JSON value. -/
inductive ParseError where
  /-- The text is not UTF-8. -/
  | badEncoding
  /-- No token starts at this offset. -/
  | badToken (offset : Nat)
  /-- The token at this offset does not fit. -/
  | unexpectedToken (offset : Nat)
  | unexpectedEnd
  deriving DecidableEq, Repr

def ParseError.message : ParseError → Text
  | badEncoding => "the text is not UTF-8"
  | badToken offset => "no token starts at offset " ++ decimal offset
  | unexpectedToken offset => "unexpected token at offset " ++ decimal offset
  | unexpectedEnd => "unexpected end of text"

/-- The bytes that may stand between tokens. -/
def isBlank (b : UInt8) : Bool :=
  b == space || b == tab || b == lineFeed || b == carriageReturn

/-- The value of a hexadecimal digit. -/
def hexValue? (b : UInt8) : Option Nat :=
  if isDigit b then some (b.toNat - '0'.toNat)
  else if 'a'.toUInt8 ≤ b && b ≤ 'f'.toUInt8 then some (b.toNat - 'a'.toNat + 10)
  else if 'A'.toUInt8 ≤ b && b ≤ 'F'.toUInt8 then some (b.toNat - 'A'.toNat + 10)
  else none

/-- The number of four hexadecimal digits. -/
def codeUnit? (a b c d : UInt8) : Option Nat := do
  return (((← hexValue? a) * 16 + (← hexValue? b)) * 16 + (← hexValue? c)) * 16 + (← hexValue? d)

/-- The byte that a backslash and this byte stand for. -/
def unescape? (b : UInt8) : Option UInt8 :=
  if b = doubleQuote ∨ b = backslash ∨ b = '/'.toUInt8 then some b
  else if b = 'b'.toUInt8 then some 8
  else if b = 'f'.toUInt8 then some 12
  else if b = 'n'.toUInt8 then some lineFeed
  else if b = 'r'.toUInt8 then some carriageReturn
  else if b = 't'.toUInt8 then some tab
  else none

/-- A byte of a string as it stands, or a code unit given by its number. -/
inductive Piece where
  | byte (b : UInt8)
  | unit (n : Nat)
  deriving DecidableEq, Repr

/-- The pieces between the quotes of a string, and how many bytes they and the closing quote
take. -/
def pieces? : Text → Option (List Piece × Nat)
  | [] => none
  | b :: rest =>
    if b = doubleQuote then some ([], 1)
    else if b < 32 then none
    else if b = backslash then
      match rest with
      | [] => none
      | e :: later =>
        if e = 'u'.toUInt8 then
          match later with
          | h₁ :: h₂ :: h₃ :: h₄ :: later =>
            match codeUnit? h₁ h₂ h₃ h₄ with
            | none => none
            | some n => (pieces? later).map fun (ps, k) => (.unit n :: ps, k + 6)
          | _ => none
        else
          match unescape? e with
          | none => none
          | some c => (pieces? later).map fun (ps, k) => (.byte c :: ps, k + 2)
    else (pieces? rest).map fun (ps, k) => (.byte b :: ps, k + 1)

/-- The first of two code units that make one character. -/
def isLead (n : Nat) : Bool := 0xD800 ≤ n && n < 0xDC00

/-- The second of two code units that make one character. -/
def isTrail (n : Nat) : Bool := 0xDC00 ≤ n && n < 0xE000

/-- The bytes of some pieces. Code units beyond the first plane come in pairs. -/
def decode? : List Piece → Option Text
  | [] => some []
  | .byte b :: rest => (decode? rest).map (b :: ·)
  | .unit lead :: .unit trail :: rest =>
    if isLead lead then
      if isTrail trail then
        let code := 0x10000 + (lead - 0xD800) * 0x400 + (trail - 0xDC00)
        (decode? rest).map (String.utf8EncodeChar (Char.ofNat code) ++ ·)
      else none
    else if isTrail lead then none
    else (decode? (.unit trail :: rest)).map (String.utf8EncodeChar (Char.ofNat lead) ++ ·)
  | .unit n :: rest =>
    if isLead n || isTrail n then none
    else (decode? rest).map (String.utf8EncodeChar (Char.ofNat n) ++ ·)

/-- Digits, at least one of them, and the text after them. -/
def digits? (t : Text) : Option (Text × Text) :=
  match t.takeWhile isDigit with
  | [] => none
  | ds => some (ds, t.dropWhile isDigit)

/-- The text after an optional fraction. -/
def afterFraction? : Text → Option Text
  | b :: rest => if b = '.'.toUInt8 then (digits? rest).map (·.2) else some (b :: rest)
  | [] => some []

/-- The text after an optional exponent. -/
def afterExponent? : Text → Option Text
  | b :: rest =>
    if b = 'e'.toUInt8 ∨ b = 'E'.toUInt8 then
      match rest with
      | [] => none
      | s :: later =>
        if s = '+'.toUInt8 ∨ s = '-'.toUInt8 then (digits? later).map (·.2)
        else (digits? (s :: later)).map (·.2)
    else some (b :: rest)
  | [] => some []

/-- Whether a text is a number: an integer without leading zeros, then perhaps a fraction, then
perhaps an exponent. -/
def isNumber (t : Text) : Bool :=
  let unsigned := if t.head? = some '-'.toUInt8 then t.tail else t
  match digits? unsigned with
  | none => false
  | some (ds, rest) =>
    (ds.length = 1 || ds.head? != some '0'.toUInt8) &&
      (afterFraction? rest >>= afterExponent?) == some []

/-- The bytes that numbers and names are made of. -/
def continuesAtom (b : UInt8) : Bool :=
  isLetter b || isDigit b || b == '.'.toUInt8 || b == '+'.toUInt8 || b == '-'.toUInt8

/-- The value of a number or a name. -/
def atom? (t : Text) : Option Json :=
  if t = "null" then some .null
  else if t = "true" then some (.bool true)
  else if t = "false" then some (.bool false)
  else if isNumber t then some (.number t)
  else none

/-- The token that starts with the byte `b`, which is no blank, and how many more bytes it has. -/
def token? (b : UInt8) (rest : Text) : Option (Token × Nat) :=
  if b = '['.toUInt8 then some (.leftBracket, 0)
  else if b = ']'.toUInt8 then some (.rightBracket, 0)
  else if b = '\x7b'.toUInt8 then some (.leftBrace, 0)
  else if b = '\x7d'.toUInt8 then some (.rightBrace, 0)
  else if b = ','.toUInt8 then some (.comma, 0)
  else if b = ':'.toUInt8 then some (.colon, 0)
  else if b = doubleQuote then do
    let (ps, n) ← pieces? rest
    let value ← decode? ps
    return (.atom (.string value), n)
  else
    let more := rest.takeWhile continuesAtom
    (atom? (b :: more)).map fun v => (.atom v, more.length)

/-- The tokens of a text whose first byte has the given offset, each with its own offset. -/
def tokensFrom (offset : Nat) : Text → Except ParseError (List (Token × Nat))
  | [] => .ok []
  | b :: rest =>
    if isBlank b then tokensFrom (offset + 1) rest
    else
      match token? b rest with
      | none => .error (.badToken offset)
      | some (t, more) => (tokensFrom (offset + 1 + more) (rest.drop more)).map ((t, offset) :: ·)
termination_by source => source.length
decreasing_by all_goals simp; try omega

/-- A container that is still open. -/
inductive Frame where
  | array (done : List Json)
  /-- An object, and the key of the member whose value comes next. -/
  | object (done : List (Text × Json)) (key : Text)

/-- What the tokens so far call for. -/
inductive Awaiting where
  /-- A value, or the end of an array that has just begun. -/
  | value (begun : Bool)
  /-- A key, or the end of an object that has just begun. -/
  | key (done : List (Text × Json)) (begun : Bool)
  /-- The end of the text or what may follow a value in a container. -/
  | afterValue (value : Json)

/-- Assembles tokens into one value. -/
def assemble : Awaiting → List Frame → List (Token × Nat) → Except ParseError Json
  | .afterValue v, [], [] => .ok v
  | .afterValue v, .array done :: outer, (.comma, _) :: ts =>
    assemble (.value false) (.array (done ++ [v]) :: outer) ts
  | .afterValue v, .array done :: outer, (.rightBracket, _) :: ts =>
    assemble (.afterValue (.array (done ++ [v]))) outer ts
  | .afterValue v, .object done key :: outer, (.comma, _) :: ts =>
    assemble (.key (done ++ [(key, v)]) false) outer ts
  | .afterValue v, .object done key :: outer, (.rightBrace, _) :: ts =>
    assemble (.afterValue (ofMembers (done ++ [(key, v)]))) outer ts
  | .value _, outer, (.atom v, _) :: ts => assemble (.afterValue v) outer ts
  | .value _, outer, (.leftBracket, _) :: ts => assemble (.value true) (.array [] :: outer) ts
  | .value _, outer, (.leftBrace, _) :: ts => assemble (.key [] true) outer ts
  | .value true, .array [] :: outer, (.rightBracket, _) :: ts =>
    assemble (.afterValue (.array [])) outer ts
  | .key done _, outer, (.atom (.string key), _) :: (.colon, _) :: ts =>
    assemble (.value false) (.object done key :: outer) ts
  | .key [] true, outer, (.rightBrace, _) :: ts => assemble (.afterValue (.object [])) outer ts
  | _, _, [] => .error .unexpectedEnd
  | _, _, (_, offset) :: _ => .error (.unexpectedToken offset)

/-- The bytes that mark a text as UTF-8 and may come first. -/
def encodingMark : Text := [0xEF, 0xBB, 0xBF]

/-- The value that a text is. -/
def parse (source : Text) : Except ParseError Json :=
  if (String.fromUTF8? ⟨source.toArray⟩).isNone then .error .badEncoding
  else
    let start := if encodingMark.isPrefixOf source then encodingMark.length else 0
    match tokensFrom start (source.drop start) with
    | .error e => .error e
    | .ok ts => assemble (.value false) [] ts

end SchemaTypes.Json
