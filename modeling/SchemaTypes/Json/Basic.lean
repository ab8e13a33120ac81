import SchemaTypes.Text.Basic

/-!
# JSON values

The values that options are given as and manifests are written as. The members of an object have
distinct keys in byte order; `Json.ofMembers` makes an object of members in any order, the last
one with a key being the one that counts.
-/

namespace SchemaTypes

inductive Json where
  | null
  | bool (value : Bool)
  /-- A number, as it is written. -/
  | number (literal : Text)
  | string (value : Text)
  | array (items : List Json)
  | object (members : List (Text × Json))
  deriving Repr, Inhabited

namespace Json

/-- Sets a member among others that are in order of their keys. -/
def insertMember (key : Text) (value : Json) : List (Text × Json) → List (Text × Json)
  | [] => [(key, value)]
  | (k, v) :: rest =>
    if k < key then (k, v) :: insertMember key value rest
    else if k = key then (key, value) :: rest
    else (key, value) :: (k, v) :: rest

/-- The object of the given members. -/
def ofMembers (members : List (Text × Json)) : Json :=
  .object (members.foldl (fun done m => insertMember m.1 m.2 done) [])

def ofNat (n : Nat) : Json := .number (Text.decimal n)

def ofTexts (texts : List Text) : Json := .array (texts.map .string)

/-- The value under a key, null for a key that is not there and for what is no object. -/
def get : Json → Text → Json
  | .object members, key => (members.lookup key).getD .null
  | _, _ => .null

end Json

end SchemaTypes
