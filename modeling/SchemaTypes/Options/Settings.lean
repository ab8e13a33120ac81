import SchemaTypes.Options.Key

/-!
# Settings

What the options come to. Overlapping flags are settled here: of the enum forms the first of
string unions, constant objects and constant enums that is asked for, and of the filters the
narrower one.
-/

namespace SchemaTypes

/-- How an enum is declared. -/
inductive EnumMode where
  | enum
  | constEnum
  | stringUnion
  | constObject
  deriving DecidableEq, Repr

def EnumMode.text : EnumMode → Text
  | enum => "enum"
  | constEnum => "constEnum"
  | stringUnion => "stringUnion"
  | constObject => "constObject"

/-- Which kinds of types are declared. -/
inductive TypeFilter where
  | all
  | enumsAndScalarsOnly
  | enumsOnly
  deriving DecidableEq, Repr

def TypeFilter.text : TypeFilter → Text
  | all => "all"
  | enumsAndScalarsOnly => "enumsAndScalarsOnly"
  | enumsOnly => "enumsOnly"

/-- The kinds of members that never carry a `?`. -/
structure AvoidOptionals where
  field : Bool := false
  inputValue : Bool := false
  object : Bool := false
  defaultValue : Bool := false
  deriving DecidableEq, Repr

/-- The bodies of the aliases unless overridden. -/
def Alias.defaultBody : Alias → Text
  | maybe => "T | null"
  | inputMaybe => "Maybe<T>"
  | fieldWrapper => "T"
  | entireFieldWrapper => "T | Promise<T> | (() => T | Promise<T>)"

/-- How declarations are written. -/
structure Settings where
  avoidOptionals : AvoidOptionals := {}
  enumMode : EnumMode := .enum
  /-- Enum members are numbered; only in the modes of an enum. -/
  numericEnums : Bool := false
  typeFilter : TypeFilter := .all
  futureProofEnums : Bool := false
  futureProofUnions : Bool := false
  immutableTypes : Bool := false
  noExport : Bool := false
  disableDescriptions : Bool := false
  useImplementingTypes : Bool := false
  wrapFieldDefinitions : Bool := false
  wrapEntireFieldDefinitions : Bool := false
  allowEnumStringTypes : Bool := false
  skipTypename : Bool := false
  nonOptionalTypename : Bool := false
  /-- The bodies of the aliases, checked only where an alias is needed. -/
  bodies : PerAlias Text := .ofFun Alias.defaultBody
  /-- The type of scalars without a type of their own. -/
  defaultScalarType : Text := "any"
  /-- The types of scalars, by name. -/
  scalars : List (Text × Text) := []
  /-- The literals of enum members, by enum and by member. -/
  enumValues : List (Text × List (Text × Text)) := []
  deriving DecidableEq, Repr

namespace Options

def isOn : Json → Bool
  | .bool b => b
  | _ => false

/-- The members that are avoided according to a value. -/
def avoidOptionals : Json → AvoidOptionals
  | .bool b => ⟨b, b, b, b⟩
  | v =>
    let on (a : Avoidable) : Bool := isOn (v.get a.name)
    ⟨on .field, on .inputValue, on .object, on .defaultValue⟩

/-- The text of a value, or another if it gives none. -/
def textOr (fallback : Text) : Json → Text
  | .string t => t
  | _ => fallback

def table : Json → List (Text × Text)
  | .object entries =>
    entries.filterMap fun (name, v) =>
      match v with
      | .string t => some (name, t)
      | _ => none
  | _ => []

/-- The tables of a value that have any entries. -/
def tables : Json → List (Text × List (Text × Text))
  | .object entries => (entries.map fun (name, v) => (name, table v)).filter (·.2 ≠ [])
  | _ => []

/-- The form of enums that the flags ask for. -/
def enumMode (on : Flag → Bool) : EnumMode :=
  if on .enumsAsTypes then .stringUnion
  else if on .enumsAsConst then .constObject
  else if on .constEnums then .constEnum
  else .enum

/-- The filter that the flags ask for. -/
def typeFilter (on : Flag → Bool) : TypeFilter :=
  if on .onlyEnums then .enumsOnly
  else if on .onlyOperationTypes then .enumsAndScalarsOnly
  else .all

/-- The settings that options without a fault come to. -/
def settings (raw : Json) : Settings :=
  let value (k : Key) : Json := raw.get k.name
  let on (f : Flag) : Bool := isOn (value (.flag f))
  let mode := enumMode on
  { avoidOptionals := avoidOptionals (value .avoidOptionals)
    enumMode := mode
    numericEnums := on .numericEnums && (mode == .enum || mode == .constEnum)
    typeFilter := typeFilter on
    futureProofEnums := on .futureProofEnums
    futureProofUnions := on .futureProofUnions
    immutableTypes := on .immutableTypes
    noExport := on .noExport
    disableDescriptions := on .disableDescriptions
    useImplementingTypes := on .useImplementingTypes
    wrapFieldDefinitions := on .wrapFieldDefinitions
    wrapEntireFieldDefinitions := on .wrapEntireFieldDefinitions
    allowEnumStringTypes := on .allowEnumStringTypes
    skipTypename := on .skipTypename
    nonOptionalTypename := on .nonOptionalTypename
    bodies := .ofFun fun a => textOr a.defaultBody (value (.aliasBody a))
    defaultScalarType := textOr "any" (value .defaultScalarType)
    scalars := table (value .scalars)
    enumValues := tables (value .enumValues) }

end Options

/-- The settings that options come to, or why they cannot be used. -/
def Settings.ofJson (raw : Json) : Except ConfigurationError Settings :=
  match Options.fault raw with
  | some e => .error e
  | none => .ok (Options.settings raw)

end SchemaTypes
