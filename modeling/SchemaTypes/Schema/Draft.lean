import SchemaTypes.Schema.Basic
import SchemaTypes.Schema.Notation

/-!
# Writing a schema step by step

A draft holds type definitions in the order in which they were opened. A step opens a type or adds
to the type opened last: a field, a value, or an argument or default value of the last field. A
step that does not fit is refused and changes nothing. Names are not compared until the draft is
built into a schema.
-/

namespace SchemaTypes

/-- The steps that add to what was opened last. -/
inductive Addition where
  | field
  | value
  | argument
  | defaultValue
  deriving DecidableEq, Repr

/-- The name of an addition in messages. -/
def Addition.text : Addition → Text
  | field => "field"
  | value => "value"
  | argument => "argument"
  | defaultValue => "defaultValue"

/-- Why a step is refused. -/
inductive DraftError where
  | noType (addition : Addition)
  | noField (addition : Addition) (type : Text)
  | fieldOn (kind : Kind) (type : Text)
  | valueOn (type : Text)
  | argumentOn (field : Text)
  | defaultOn (field : Text)
  | malformed (error : NotationError)
  deriving DecidableEq, Repr

def DraftError.message : DraftError → Text
  | noType addition => addition.text ++ "() called before any type was opened"
  | noField addition type =>
    Text.untilNul (addition.text ++ "() called before any field of '" ++ type ++ "'")
  | fieldOn kind type => Text.untilNul ("field() on " ++ kind.text ++ " type '" ++ type ++ "'")
  | valueOn type => Text.untilNul ("value() on non-enum type '" ++ type ++ "'")
  | argumentOn field => Text.untilNul ("argument() on input field '" ++ field ++ "'")
  | defaultOn field => Text.untilNul ("defaultValue() on output field '" ++ field ++ "'")
  | malformed error => error.message

/-- Type definitions in the order in which they were opened. -/
structure Draft where
  types : List TypeDefinition := []
  deriving Repr

namespace Draft

def current (d : Draft) (addition : Addition) : Except DraftError TypeDefinition :=
  match d.types.getLast? with
  | none => .error (.noType addition)
  | some t => .ok t

/-- The last field of the type opened last. -/
def currentField (d : Draft) (addition : Addition) : Except DraftError Field := do
  let t ← d.current addition
  match t.fields.getLast? with
  | none => .error (.noField addition t.name)
  | some f => .ok f

/-- The draft with one more type. -/
def opening (d : Draft) (t : TypeDefinition) : Draft := ⟨d.types ++ [t]⟩

/-- The draft with the type opened last replaced. -/
def replacing (d : Draft) (t : TypeDefinition) : Draft := ⟨d.types.dropLast ++ [t]⟩

/-- The draft with the last field of the type opened last replaced. -/
def replacingField (d : Draft) (t : TypeDefinition) (f : Field) : Draft :=
  d.replacing { t with fields := t.fields.dropLast ++ [f] }

/-- The reference that a notation stands for. -/
def readType (source : Text) : Except DraftError TypeRef :=
  (TypeRef.parse source).mapError .malformed

/-- Where the fields of a kind of type stand, if it has any. -/
def fieldPosition? : Kind → Option Position
  | .object => some .output
  | .interface => some .output
  | .inputObject => some .inputField
  | _ => none

/-- Adds a field to the type opened last. A malformed notation is found before a kind that has no
fields. -/
def field (d : Draft) (name type description : Text) : Except DraftError Draft := do
  let t ← d.current .field
  let ref ← readType type
  match fieldPosition? t.kind with
  | none => .error (.fieldOn t.kind t.name)
  | some position =>
    let f : Field := ⟨name, ref, position, description, none, []⟩
    .ok (d.replacing { t with fields := t.fields ++ [f] })

/-- Adds a value to the enum opened last. -/
def value (d : Draft) (name literal description : Text) : Except DraftError Draft := do
  let t ← d.current .value
  if t.kind = .enum then
    .ok (d.replacing { t with values := t.values ++ [⟨name, literal, description⟩] })
  else .error (.valueOn t.name)

/-- Adds an argument to the last field, which is an output field. -/
def argument (d : Draft) (name type : Text) (default? : Option Text) :
    Except DraftError Draft := do
  let t ← d.current .argument
  let f ← d.currentField .argument
  if f.position = .output then
    let ref ← readType type
    let a : Field := ⟨name, ref, .argument, [], default?, []⟩
    .ok (d.replacingField t { f with arguments := f.arguments ++ [a] })
  else .error (.argumentOn f.name)

/-- Gives the last field, which is in an input position, a default value. -/
def defaultValue (d : Draft) (literal : Text) : Except DraftError Draft := do
  let t ← d.current .defaultValue
  let f ← d.currentField .defaultValue
  if f.position.isInput then .ok (d.replacingField t { f with default? := some literal })
  else .error (.defaultOn f.name)

/-- One step of writing a draft. -/
inductive Step where
  | scalar (name description : Text)
  /-- An enum with some values, whose literals are their names. -/
  | enum (name : Text) (values : List Text) (description : Text)
  | object (name : Text) (interfaces : List Text) (description : Text)
  | interface (name description : Text)
  | input (name description : Text)
  | union (name : Text) (members : List Text) (description : Text)
  | field (name type description : Text)
  | value (name literal description : Text)
  | argument (name type : Text) (default? : Option Text)
  | defaultValue (literal : Text)
  deriving DecidableEq, Repr

/-- The draft after a step, or why the step is refused. -/
def apply (d : Draft) : Step → Except DraftError Draft
  | .scalar name description => .ok (d.opening { kind := .scalar, name, description })
  | .enum name values description =>
    .ok (d.opening
      { kind := .enum, name, description, values := values.map fun v => ⟨v, v, []⟩ })
  | .object name interfaces description =>
    .ok (d.opening { kind := .object, name, description, interfaces })
  | .interface name description => .ok (d.opening { kind := .interface, name, description })
  | .input name description => .ok (d.opening { kind := .inputObject, name, description })
  | .union name members description =>
    .ok (d.opening { kind := .union, name, description, members })
  | .field name type description => d.field name type description
  | .value name literal description => d.value name literal description
  | .argument name type default? => d.argument name type default?
  | .defaultValue literal => d.defaultValue literal

/-- The draft after a step that may be refused. -/
def attempt (d : Draft) (s : Step) : Draft :=
  match d.apply s with
  | .ok next => next
  | .error _ => d

/-- The schema of a draft. -/
def build (d : Draft) : Except SchemaError Schema := Schema.ofList d.types

end Draft

end SchemaTypes
