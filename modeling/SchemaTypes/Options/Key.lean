import SchemaTypes.Json.Printer
import SchemaTypes.Options.Error

/-!
# Options and what they accept

Options are the members of a JSON object. Each key accepts values of one shape; null stands for an
option that is not given. `Key.all` lists the keys in the order in which they are read, so the
error of a faulty object is the one of the first faulty key there, and within one option the one
of its first faulty entry.
-/

namespace SchemaTypes.Options

/-- The options that are switched on by `true`. -/
inductive Flag where
  | enumsAsTypes
  | enumsAsConst
  | constEnums
  | numericEnums
  | onlyEnums
  | onlyOperationTypes
  | futureProofEnums
  | futureProofUnions
  | immutableTypes
  | noExport
  | disableDescriptions
  | useImplementingTypes
  | wrapFieldDefinitions
  | wrapEntireFieldDefinitions
  | allowEnumStringTypes
  | skipTypename
  | nonOptionalTypename
  deriving DecidableEq, Repr

def Flag.name : Flag → Text
  | enumsAsTypes => "enumsAsTypes"
  | enumsAsConst => "enumsAsConst"
  | constEnums => "constEnums"
  | numericEnums => "numericEnums"
  | onlyEnums => "onlyEnums"
  | onlyOperationTypes => "onlyOperationTypes"
  | futureProofEnums => "futureProofEnums"
  | futureProofUnions => "futureProofUnions"
  | immutableTypes => "immutableTypes"
  | noExport => "noExport"
  | disableDescriptions => "disableDescriptions"
  | useImplementingTypes => "useImplementingTypes"
  | wrapFieldDefinitions => "wrapFieldDefinitions"
  | wrapEntireFieldDefinitions => "wrapEntireFieldDefinitions"
  | allowEnumStringTypes => "allowEnumStringTypes"
  | skipTypename => "skipTypename"
  | nonOptionalTypename => "nonOptionalTypename"

/-- The flags in reading order. -/
def Flag.all : List Flag :=
  [enumsAsTypes, enumsAsConst, constEnums, numericEnums, onlyEnums, onlyOperationTypes,
    futureProofEnums, futureProofUnions, immutableTypes, noExport, disableDescriptions,
    useImplementingTypes, wrapFieldDefinitions, wrapEntireFieldDefinitions, allowEnumStringTypes,
    skipTypename, nonOptionalTypename]

/-- The kinds of members whose `?` can be avoided. -/
inductive Avoidable where
  /-- Output fields. -/
  | field
  /-- Fields of input objects. -/
  | inputValue
  /-- Arguments. -/
  | object
  /-- Input fields and arguments with a default value. -/
  | defaultValue
  deriving DecidableEq, Repr

def Avoidable.name : Avoidable → Text
  | field => "field"
  | inputValue => "inputValue"
  | object => "object"
  | defaultValue => "defaultValue"

/-- The kinds of members in reading order. -/
def Avoidable.all : List Avoidable := [field, inputValue, object, defaultValue]

inductive Key where
  | avoidOptionals
  | flag (f : Flag)
  /-- The body of an alias. -/
  | aliasBody (a : Alias)
  | defaultScalarType
  | scalars
  | enumValues
  deriving DecidableEq, Repr

def Key.name : Key → Text
  | avoidOptionals => "avoidOptionals"
  | flag f => f.name
  | aliasBody a => a.option
  | defaultScalarType => "defaultScalarType"
  | scalars => "scalars"
  | enumValues => "enumValues"

/-- The options in reading order. -/
def Key.all : List Key :=
  .avoidOptionals :: Flag.all.map .flag ++ Alias.all.map .aliasBody ++
    [.defaultScalarType, .scalars, .enumValues]

def booleanFault (option : Text) : Json → Option ConfigurationError
  | .null => none
  | .bool _ => none
  | v => some ⟨option, v.compact, .expectedBoolean⟩

def stringFault (option : Text) : Json → Option ConfigurationError
  | .null => none
  | .string _ => none
  | v => some ⟨option, v.compact, .expectedString⟩

def entryFault (option : Text) : Json → Option ConfigurationError
  | .string _ => none
  | v => some ⟨option, v.compact, .expectedString⟩

/-- The first fault among entries that should all be strings. -/
def entriesFault (option : Text) (entries : List (Text × Json)) : Option ConfigurationError :=
  entries.findSome? fun (name, v) => entryFault (option ++ "." ++ name) v

def tableFault (option : Text) : Json → Option ConfigurationError
  | .object entries => entriesFault option entries
  | v => some ⟨option, v.compact, .expectedObject⟩

/-- The fault of the value given for an option. -/
def Key.fault (k : Key) (v : Json) : Option ConfigurationError :=
  match k, v with
  | _, .null => none
  | .avoidOptionals, .bool _ => none
  | .avoidOptionals, .object entries =>
    Avoidable.all.findSome? fun a =>
      booleanFault (k.name ++ "." ++ a.name) ((Json.object entries).get a.name)
  | .avoidOptionals, v => some ⟨k.name, v.compact, .expectedBooleanOrObject⟩
  | .flag _, v => booleanFault k.name v
  | .aliasBody _, v => stringFault k.name v
  | .defaultScalarType, v => stringFault k.name v
  | .scalars, v => tableFault k.name v
  | .enumValues, .object enums =>
    enums.findSome? fun (enum, v) => tableFault (k.name ++ "." ++ enum) v
  | .enumValues, v => some ⟨k.name, v.compact, .expectedObject⟩

/-- The fault of the options as a whole. Null gives none of them. -/
def fault : Json → Option ConfigurationError
  | .null => none
  | .object members => Key.all.findSome? fun k => k.fault ((Json.object members).get k.name)
  | v => some ⟨"config", v.compact, .expectedObject⟩

/-- The names of members that are known. -/
def knownOptions : List Text :=
  ["avoidOptionals", "constEnums", "enumsAsTypes", "numericEnums", "futureProofEnums",
    "futureProofUnions", "enumsAsConst", "onlyEnums", "onlyOperationTypes", "immutableTypes",
    "maybeValue", "inputMaybeValue", "noExport", "disableDescriptions", "useImplementingTypes",
    "wrapFieldDefinitions", "fieldWrapperValue", "wrapEntireFieldDefinitions",
    "entireFieldWrapperValue", "allowEnumStringTypes", "skipTypename", "nonOptionalTypename",
    "scalars", "defaultScalarType", "enumValues"]

/-- The members with names that are not known, in order; they are ignored. -/
def unrecognized : Json → List Text
  | .object members => (members.map (·.1)).filter (· ∉ knownOptions)
  | _ => []

end SchemaTypes.Options
