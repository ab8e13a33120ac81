import SchemaTypes.Alias.Registry
import SchemaTypes.Options.Settings
import SchemaTypes.Schema.Basic
import SchemaTypes.Text.Basic

/-!
# The text of a type

A type is written from the inside out: the text of its leaf, `FieldWrapper` around the leaf of an
output field where that is asked for, then for each level an array if it is a list and a nullable
alias if it may be null, and `EntireFieldWrapper` around the whole of an output field where that is
asked for. Only an unknown leaf is an error.
-/

namespace SchemaTypes

/-- A name that is no type of the schema, and the place that refers to it. -/
structure UnresolvedReference where
  typeName : Text
  referencedFrom : Text
  deriving DecidableEq, Repr

def UnresolvedReference.message (e : UnresolvedReference) : Text :=
  Text.untilNul ("Unknown type '" ++ e.typeName ++ "' referenced from '" ++ e.referencedFrom ++ "'")

/-- A text and the aliases used in it. -/
structure Rendered where
  text : Text
  used : AliasSet := .empty
  deriving DecidableEq, Repr

namespace Rendered

/-- The text inside an alias. -/
def wrapped (a : Alias) (r : Rendered) : Rendered := ⟨Registry.wrapped a r.text, r.used.insert a⟩

/-- The text inside an alias if a condition holds. -/
def wrappedIf (condition : Bool) (a : Alias) (r : Rendered) : Rendered :=
  if condition then r.wrapped a else r

def array (immutable : Bool) (r : Rendered) : Rendered :=
  { r with text := (if immutable then "ReadonlyArray<" else "Array<") ++ r.text ++ ">" }

end Rendered

/-- The text of a scalar: its entry in the table of scalars. -/
def scalarText (name : Text) : Text := "Scalars['" ++ name ++ "']"

/-- The text of an enum: its name, and the strings of its members where they are allowed too. -/
def enumText (s : Settings) (name : Text) : Text :=
  if s.allowEnumStringTypes && s.enumMode == .enum && !s.numericEnums then
    name ++ " | `$\x7b" ++ name ++ "\x7d`"
  else name

/-- The union of some types. -/
def unionText (arms : List Text) : Text := if arms = [] then "never" else Text.joined " | " arms

/-- The arms of a union with the given members, which may include one for members added later. -/
def Settings.arms (s : Settings) (members : List Text) : List Text :=
  if s.futureProofUnions then members ++ [Text.catchAllArm members] else members

/-- The text of an interface: its name, or the types that implement it where there are any and they
are asked for. -/
def interfaceText (schema : Schema) (s : Settings) (name : Text) : Text :=
  let implementors := (schema.implementationsOf name).map (·.name)
  if s.useImplementingTypes && !implementors.isEmpty then unionText (s.arms implementors) else name

/-- The text of a name at the inside of a type. -/
def leafText (schema : Schema) (s : Settings) (name referencedFrom : Text) :
    Except UnresolvedReference Text :=
  match schema.find? name with
  | none =>
    if name ∈ Schema.builtInScalars then .ok (scalarText name)
    else .error ⟨name, referencedFrom⟩
  | some t =>
    match t.kind with
    | .scalar => .ok (scalarText name)
    | .enum => .ok (enumText s name)
    | .interface => .ok (interfaceText schema s name)
    | .object => .ok name
    | .union => .ok name
    | .inputObject => .ok name

/-- The alias around values that may be null. -/
def Position.nullableAlias : Position → Alias
  | output => .maybe
  | inputField => .inputMaybe
  | argument => .inputMaybe

/-- The levels of a reference around the text of its leaf. -/
def levelsText (s : Settings) (p : Position) (leaf : Text) : TypeRef → Rendered
  | .named _ nullable =>
    (Rendered.wrappedIf (p == .output && s.wrapFieldDefinitions) .fieldWrapper ⟨leaf, .empty⟩)
      |>.wrappedIf nullable p.nullableAlias
  | .list inner nullable =>
    ((levelsText s p leaf inner).array s.immutableTypes).wrappedIf nullable p.nullableAlias

/-- The text of a reference at a position. -/
def typeText (schema : Schema) (s : Settings) (p : Position) (ref : TypeRef)
    (referencedFrom : Text) : Except UnresolvedReference Rendered :=
  (leafText schema s ref.leaf referencedFrom).map fun leaf =>
    (levelsText s p leaf ref).wrappedIf (p == .output && s.wrapEntireFieldDefinitions)
      .entireFieldWrapper

/-- The registry after rendering a text. A reference that leads nowhere refers to no alias. -/
def Registry.after (r : Registry) : Except UnresolvedReference Rendered → Registry
  | .ok rendered => r.referring rendered.used
  | .error _ => r

/-- The comment of a description, unless descriptions are left out. -/
def Settings.comment (s : Settings) (description : Text) (indent : Nat) : Text :=
  if s.disableDescriptions then [] else Text.comment description indent

/-- Whether the `?` of nullable members at a position is avoided. -/
def AvoidOptionals.avoids (a : AvoidOptionals) : Position → Bool
  | .output => a.field
  | .inputField => a.inputValue
  | .argument => a.object

/-- Whether a member carries a `?`: if it may be null, or has a default value in an input position,
and that is not avoided. -/
def Field.isOptional (f : Field) (avoid : AvoidOptionals) : Bool :=
  (f.type.nullable && !avoid.avoids f.position) ||
    (f.position.isInput && f.default?.isSome && !avoid.defaultValue)

/-- The qualifier of members that cannot be assigned to. -/
def Settings.readonlyQualifier (s : Settings) : Text := if s.immutableTypes then "readonly " else []

def optionalMark (isOptional : Bool) : Text := if isOptional then "?" else []

/-- A field as a member of the type of its owner. -/
def memberText (schema : Schema) (s : Settings) (owner : Text) (f : Field) :
    Except UnresolvedReference Rendered :=
  (typeText schema s f.position f.type (owner ++ "." ++ f.name)).map fun type =>
    { type with
      text :=
        s.comment f.description 2 ++ "  " ++ s.readonlyQualifier ++ f.name ++
          optionalMark (f.isOptional s.avoidOptionals) ++ ": " ++ type.text ++ ";\n" }

end SchemaTypes
