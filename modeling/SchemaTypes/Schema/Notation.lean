import SchemaTypes.Schema.Basic

/-!
# Reading type notation

A reference is a name or a reference in brackets, with an optional `!` behind it. Spaces and tabs
may stand anywhere but inside a name.

An error stands at the first byte that cannot continue a reference, except that a wrong byte in
place of a `]` has been passed already.
-/

namespace SchemaTypes

namespace Notation

open Text

/-- The bytes that may stand between the parts of a reference. -/
def isBlank (b : UInt8) : Bool := b == space || b == tab

/-- The first byte of a name: a letter or `_`. -/
def startsName (b : UInt8) : Bool := isLetter b || b == '_'.toUInt8

/-- A later byte of a name. -/
def continuesName (b : UInt8) : Bool := startsName b || isDigit b

/-- What is wrong with a notation. -/
inductive Cause where
  | expectedType
  | expectedClose
  /-- A reference is complete before this byte. -/
  | unexpected (byte : UInt8)
  deriving DecidableEq, Repr

def Cause.text : Cause → Text
  | expectedType => "expected type name or '['"
  | expectedClose => "expected ']'"
  | unexpected b => "unexpected '" ++ [b] ++ "'"

/-- A cause and the text from where it arose. -/
structure Failure where
  cause : Cause
  rest : Text
  deriving DecidableEq, Repr

/-- Reads the mark behind a level, and gives the text after it. -/
def readLevelMark (level : Bool → TypeRef) (source : Text) : TypeRef × Text :=
  match source.dropWhile isBlank with
  | [] => (level true, [])
  | b :: rest => if b = '!'.toUInt8 then (level false, rest) else (level true, b :: rest)

/-- Reads a reference, and gives the text after it. -/
def read : Text → Except Failure (TypeRef × Text)
  | [] => .error ⟨.expectedType, []⟩
  | b :: rest =>
    if isBlank b then read rest
    else if b = '['.toUInt8 then
      match read rest with
      | .error failure => .error failure
      | .ok (inner, after) =>
        match after.dropWhile isBlank with
        | [] => .error ⟨.expectedClose, []⟩
        | c :: later =>
          if c = ']'.toUInt8 then .ok (readLevelMark (.list inner) later)
          else .error ⟨.expectedClose, later⟩
    else if startsName b then
      .ok (readLevelMark (.named (b :: rest.takeWhile continuesName))
        (rest.dropWhile continuesName))
    else .error ⟨.expectedType, b :: rest⟩

/-- Reads a reference that is the whole text. -/
def readAll (source : Text) : Except Failure TypeRef :=
  match read source with
  | .error failure => .error failure
  | .ok (ref, after) =>
    match after.dropWhile isBlank with
    | [] => .ok ref
    | b :: rest => .error ⟨.unexpected b, b :: rest⟩

end Notation

/-- A notation that is no type reference: the notation, the position of the fault and its cause. -/
structure NotationError where
  source : Text
  position : Nat
  cause : Notation.Cause
  deriving DecidableEq, Repr

def NotationError.message (e : NotationError) : Text :=
  Text.untilNul ("Invalid type reference '" ++ e.source ++ "' at position " ++
    Text.decimal e.position ++ ": " ++ e.cause.text)

/-- The reference that a notation stands for. -/
def TypeRef.parse (source : Text) : Except NotationError TypeRef :=
  match Notation.readAll source with
  | .ok ref => .ok ref
  | .error failure => .error ⟨source, source.length - failure.rest.length, failure.cause⟩

end SchemaTypes
