import SchemaTypes.Json.Basic

namespace SchemaTypes.Json

open Text

def hexDigit (n : Nat) : UInt8 := (Nat.digitChar n).toUInt8

/-- One byte of a string as it is written. -/
def escaped (b : UInt8) : Text :=
  if b = doubleQuote then "\\\""
  else if b = backslash then "\\\\"
  else if b = 8 then "\\b"
  else if b = 12 then "\\f"
  else if b = lineFeed then "\\n"
  else if b = carriageReturn then "\\r"
  else if b = tab then "\\t"
  else if b < 32 then "\\u00" ++ [hexDigit (b.toNat / 16), hexDigit (b.toNat % 16)]
  else [b]

def quoted (t : Text) : Text := "\"" ++ t.flatMap escaped ++ "\""

def boolText (b : Bool) : Text := if b then "true" else "false"

mutual

/-- A value written without blanks. -/
def compact : Json → Text
  | .null => "null"
  | .bool b => boolText b
  | .number literal => literal
  | .string t => quoted t
  | .array items => "[" ++ joined "," (compactItems items) ++ "]"
  | .object members => "\x7b" ++ joined "," (compactMembers members) ++ "\x7d"

/-- Items written without blanks. -/
def compactItems : List Json → List Text
  | [] => []
  | v :: rest => compact v :: compactItems rest

/-- Members written without blanks. -/
def compactMembers : List (Text × Json) → List Text
  | [] => []
  | (key, v) :: rest => (quoted key ++ ":" ++ compact v) :: compactMembers rest

end

abbrev indentStep : Nat := 2

/-- Lines between delimiters, indented one step more than these. -/
def block (opening closing : Text) (indent : Nat) : List Text → Text
  | [] => opening ++ closing
  | lines =>
    opening ++ "\n" ++ joined ",\n" (lines.map (spaces (indent + indentStep) ++ ·)) ++ "\n" ++
      spaces indent ++ closing

mutual

/-- A value written on indented lines, the first of which starts where the value does. -/
def indented (indent : Nat) : Json → Text
  | .null => "null"
  | .bool b => boolText b
  | .number literal => literal
  | .string t => quoted t
  | .array items => block "[" "]" indent (indentedItems (indent + indentStep) items)
  | .object members =>
    block "\x7b" "\x7d" indent (indentedMembers (indent + indentStep) members)

/-- Items on lines with the given indentation, which the first line of each lacks. -/
def indentedItems (indent : Nat) : List Json → List Text
  | [] => []
  | v :: rest => indented indent v :: indentedItems indent rest

/-- Members on lines with the given indentation, which the first line of each lacks. -/
def indentedMembers (indent : Nat) : List (Text × Json) → List Text
  | [] => []
  | (key, v) :: rest =>
    (quoted key ++ ": " ++ indented indent v) :: indentedMembers indent rest

end

end SchemaTypes.Json
