namespace SchemaTypes

/-- A string of bytes. Lengths, offsets, equality and order all go by bytes, whatever characters
the bytes encode. -/
abbrev Text := List UInt8

namespace Text

/-- The test for equal texts tells exactly the equal ones, so that membership in a list of texts can
be decided by it. -/
instance : LawfulBEq Text := List.instLawfulBEq

/-- The UTF-8 bytes of a string literal. -/
def ofString (s : String) : Text := s.toList.flatMap String.utf8EncodeChar

instance : Coe String Text := ⟨ofString⟩

abbrev lineFeed : UInt8 := 10

abbrev carriageReturn : UInt8 := 13

abbrev tab : UInt8 := 9

abbrev space : UInt8 := 32

abbrev singleQuote : UInt8 := 39

abbrev doubleQuote : UInt8 := 34

abbrev backquote : UInt8 := 96

abbrev backslash : UInt8 := 92

/-- A message is shown up to its first NUL byte. -/
def untilNul (t : Text) : Text := t.takeWhile (· != 0)

/-- The decimal digits of a number, without leading zeros. -/
def decimal (n : Nat) : Text := (Nat.toDigits 10 n).map Char.toUInt8

/-- The decimal digits of an integer, after a minus sign if it is negative. -/
def decimalInt : Int → Text
  | .ofNat n => decimal n
  | .negSucc n => "-" ++ decimal (n + 1)

def spaces (n : Nat) : Text := List.replicate n space

/-- The texts in order, with a separator between each two. -/
def joined (separator : Text) (texts : List Text) : Text := List.intercalate separator texts

def isLetter (b : UInt8) : Bool :=
  ('a'.toUInt8 ≤ b && b ≤ 'z'.toUInt8) || ('A'.toUInt8 ≤ b && b ≤ 'Z'.toUInt8)

def isDigit (b : UInt8) : Bool := '0'.toUInt8 ≤ b && b ≤ '9'.toUInt8

/-- The text with its first byte in upper case, if that is an ASCII letter. -/
def capitalized : Text → Text
  | [] => []
  | b :: rest => (if 'a'.toUInt8 ≤ b && b ≤ 'z'.toUInt8 then b - 32 else b) :: rest

/-- The lines of a text. A line feed ends a line, so one at the very end starts no further line. -/
def lines : Text → List Text
  | [] => []
  | b :: rest =>
    if b = lineFeed then [] :: lines rest
    else
      match lines rest with
      | [] => [[b]]
      | line :: more => (b :: line) :: more

/-- The text with every `*/` written `*\/`. -/
def withoutClosers : Text → Text
  | a :: b :: rest =>
    if a = '*'.toUInt8 ∧ b = '/'.toUInt8 then "*\\/" ++ withoutClosers rest
    else a :: withoutClosers (b :: rest)
  | short => short

/-- One line of a block comment. An empty line has no blank after its star. -/
def blockLine (pad line : Text) : Text :=
  if line = [] then pad ++ " *\n" else pad ++ " * " ++ line ++ "\n"

/-- The doc comment of a description, indented by `indent` spaces and ended by a line feed; no
text at all for an empty description. -/
def comment (description : Text) (indent : Nat) : Text :=
  let pad := spaces indent
  if description = [] then []
  else
    match (lines description).map withoutClosers with
    | [line] => pad ++ "/** " ++ line ++ " */\n"
    | block => pad ++ "/**\n" ++ block.flatMap (blockLine pad) ++ pad ++ " */\n"

/-- One byte of a literal's value as it is written. -/
def escaped (b : UInt8) : Text :=
  if b = singleQuote then "\\'"
  else if b = backslash then "\\\\"
  else if b = lineFeed then "\\n"
  else if b = carriageReturn then "\\r"
  else [b]

/-- The single-quoted literal of a value. -/
def quoted (value : Text) : Text := "'" ++ value.flatMap escaped ++ "'"

/-- `base`, or `base` followed by the least positive number that gives a name not taken. -/
def fresh (base : Text) (taken : List Text) : Text :=
  if base ∈ taken then
    let numbered := (List.range' 1 taken.length).map (base ++ decimal ·)
    (numbered.find? (· ∉ taken)).getD base
  else base

/-- The name that stands for values added to an enum or a union later. -/
def futureAddedValue : Text := "FUTURE_ADDED_VALUE"

/-- The catch-all arm of a union with the given members: an object type whose type name is none of
theirs. -/
def catchAllArm (members : List Text) : Text :=
  "\x7b __typename?: " ++ quoted (fresh futureAddedValue members) ++ " \x7d"

end Text

end SchemaTypes
