import SchemaTypes.Change
import SchemaTypes.Schema.Draft

/-!
# Writing a draft in place

The calls that write a draft change it where it stands. A call looks up what it adds to, checks what
it is given and makes its changes, one after the other; if it is refused on the way, what it has
changed by then stays changed. A draft is built into a schema without being used up, so that it can
be written on.
-/

namespace SchemaTypes.Draft

namespace Edit

variable {ε : Type}

def current (addition : Addition) : Change Draft DraftError TypeDefinition := do
  ofExcept ((← get).current addition)

/-- The last field of the type opened last. -/
def currentField (addition : Addition) : Change Draft DraftError Field := do
  ofExcept ((← get).currentField addition)

def opening (t : TypeDefinition) : Change Draft ε Unit := modify (·.opening t)

/-- Changes the type opened last, if there is one. -/
def changing (change : TypeDefinition → TypeDefinition) : Change Draft ε Unit :=
  modify fun d =>
    match d.types.getLast? with
    | none => d
    | some t => d.replacing (change t)

/-- Adds a field to the type opened last. -/
def field (name type description : Text) : Change Draft DraftError Unit := do
  let owner ← current .field
  let ref ← ofExcept (readType type)
  match fieldPosition? owner.kind with
  | none => throw (.fieldOn owner.kind owner.name)
  | some position =>
    changing fun t =>
      { t with fields := t.fields ++ [⟨name, ref, position, description, none, []⟩] }

/-- Adds a value to the enum opened last. -/
def value (name literal description : Text) : Change Draft DraftError Unit := do
  let owner ← current .value
  if owner.kind ≠ .enum then throw (.valueOn owner.name)
  changing fun t => { t with values := t.values ++ [⟨name, literal, description⟩] }

/-- Changes the last field of the type opened last, if there is one. -/
def changingField (change : Field → Field) : Change Draft ε Unit :=
  changing fun t =>
    match t.fields.getLast? with
    | none => t
    | some f => { t with fields := t.fields.dropLast ++ [change f] }

/-- Adds an argument to the last field, which is an output field. -/
def argument (name type : Text) (default? : Option Text) : Change Draft DraftError Unit := do
  let field ← currentField .argument
  if field.position ≠ .output then throw (.argumentOn field.name)
  let ref ← ofExcept (readType type)
  changingField fun f =>
    { f with arguments := f.arguments ++ [⟨name, ref, .argument, [], default?, []⟩] }

/-- Gives the last field, which is in an input position, a default value. -/
def defaultValue (literal : Text) : Change Draft DraftError Unit := do
  let field ← currentField .defaultValue
  if !field.position.isInput then throw (.defaultOn field.name)
  changingField fun f => { f with default? := some literal }

/-- A step of writing a draft. The lists of an enum, an object or a union are added once it is
opened, the values of an enum one by one. -/
def perform : Step → Change Draft DraftError Unit
  | .scalar name description => opening { kind := .scalar, name, description }
  | .enum name values description => do
    opening { kind := .enum, name, description }
    forM values fun v => value v v []
  | .object name interfaces description => do
    opening { kind := .object, name, description }
    changing fun t => { t with interfaces }
  | .interface name description => opening { kind := .interface, name, description }
  | .input name description => opening { kind := .inputObject, name, description }
  | .union name members description => do
    opening { kind := .union, name, description }
    changing fun t => { t with members }
  | .field name type description => field name type description
  | .value name literal description => value name literal description
  | .argument name type default? => argument name type default?
  | .defaultValue literal => defaultValue literal

/-- The schema of a draft, to which its types are added one after the other. -/
def build : Change Draft SchemaError Schema := do
  (← get).types.foldlM (fun schema t => ofExcept (schema.add t)) Schema.empty

end Edit

/-- A call on a draft. -/
inductive Call where
  | write (step : Step)
  | build
  deriving DecidableEq, Repr

/-- The draft after a call, whether that is refused or not. -/
def Call.after : Call → Draft → Draft
  | .write step => (Edit.perform step).after
  | .build => Edit.build.after

/-- The draft after some calls on an empty one. -/
def written (calls : List Call) : Draft := calls.foldl (fun d call => call.after d) {}

end SchemaTypes.Draft
