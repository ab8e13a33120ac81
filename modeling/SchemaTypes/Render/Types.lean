import SchemaTypes.Render.Enum

/-!
# Declarations of a schema

The kinds of types are declared in a fixed order, and within a kind the types in the order of their
names. All scalars share one declaration. An object or an interface is followed by one declaration
for each of its fields that has arguments.
-/

namespace SchemaTypes

/-- The kinds of types in the order of their declarations. -/
def Kind.declarationOrder : List Kind :=
  [.scalar, .enum, .inputObject, .object, .interface, .union]

/-- Whether a filter lets types of a kind through. -/
def TypeFilter.permits : TypeFilter → Kind → Bool
  | .all, _ => true
  | .enumsAndScalarsOnly, k => k == .enum || k == .scalar
  | .enumsOnly, k => k == .enum

def builtInTypes : List (Text × Text) :=
  [("ID", "string"), ("String", "string"), ("Boolean", "boolean"), ("Int", "number"),
    ("Float", "number")]

/-- The type of a scalar: the one set for it, or the one built in, or the default. -/
def scalarType (s : Settings) (name : Text) : Text :=
  ((s.scalars.lookup name).or (builtInTypes.lookup name)).getD s.defaultScalarType

/-- The entries of the table of scalars, each a name and a description: the built-in scalars, then
those that the schema adds. -/
def scalarEntries (schema : Schema) : List (Text × Text) :=
  let builtIn := Schema.builtInScalars.map fun name =>
    (name, ((schema.find? name).map (·.description)).getD [])
  let added := (schema.ofKind .scalar).filter (·.name ∉ Schema.builtInScalars)
  builtIn ++ added.map fun t => (t.name, t.description)

def scalarEntry (s : Settings) (entry : Text × Text) : Text :=
  s.comment entry.2 2 ++ "  " ++ entry.1 ++ ": " ++ scalarType s entry.1 ++ ";\n"

/-- An object type under a name, with the given members. -/
def objectTypeText (s : Settings) (name members : Text) : Text :=
  Declaration.exportQualifier s.noExport ++ "type " ++ name ++ " = \x7b\n" ++ members ++ "\x7d;"

def scalarsDeclaration (schema : Schema) (s : Settings) : Declaration where
  name := "Scalars"
  kind := .scalars
  body :=
    s.comment "All built-in and custom scalars, mapped to their actual values" 0 ++
      objectTypeText s "Scalars" ((scalarEntries schema).flatMap (scalarEntry s))
  wrappers := .empty

/-- The member that holds the name of an object type. -/
def typenameMember (s : Settings) (name : Text) : Text :=
  "  " ++ s.readonlyQualifier ++ "__typename" ++ optionalMark (!s.nonOptionalTypename) ++ ": " ++
    Text.quoted name ++ ";\n"

/-- Fields as members of the type of their owner. -/
def membersText (schema : Schema) (s : Settings) (owner : Text) (fields : List Field) :
    Except UnresolvedReference Rendered :=
  (fields.mapM (memberText schema s owner)).map fun members =>
    ⟨members.flatMap (·.text), AliasSet.unions (members.map (·.used))⟩

/-- The declaration of a type with fields. -/
def containerDeclaration (schema : Schema) (s : Settings) (kind : DeclarationKind)
    (hasTypename : Bool) (t : TypeDefinition) : Except UnresolvedReference Declaration :=
  (membersText schema s t.name t.fields).map fun members =>
    { name := t.name
      kind
      body :=
        s.comment t.description 0 ++
          objectTypeText s t.name
            ((if hasTypename then typenameMember s t.name else []) ++ members.text)
      wrappers := members.used }

/-- The declaration of the arguments of a field. -/
def argumentsDeclaration (schema : Schema) (s : Settings) (owner : Text) (f : Field) :
    Except UnresolvedReference Declaration :=
  let name := owner ++ Text.capitalized f.name ++ "Args"
  (membersText schema s (owner ++ "." ++ f.name) f.arguments).map fun members =>
    { name
      kind := .arguments
      body := objectTypeText s name members.text
      wrappers := members.used }

/-- The declaration of a type with fields, then those of the arguments of its fields. -/
def containerWithArguments (schema : Schema) (s : Settings) (kind : DeclarationKind)
    (hasTypename : Bool) (t : TypeDefinition) : Except UnresolvedReference (List Declaration) := do
  let container ← containerDeclaration schema s kind hasTypename t
  let withArguments := t.fields.filter (!·.arguments.isEmpty)
  let arguments ← withArguments.mapM (argumentsDeclaration schema s t.name)
  return container :: arguments

/-- The declaration of a union, whose members have to be types of the schema. -/
def unionDeclaration (schema : Schema) (s : Settings) (t : TypeDefinition) :
    Except UnresolvedReference Declaration :=
  match t.members.find? (fun m => (schema.find? m).isNone) with
  | some missing => .error ⟨missing, t.name⟩
  | none =>
    .ok {
      name := t.name
      kind := .union
      body :=
        s.comment t.description 0 ++ Declaration.exportQualifier s.noExport ++ "type " ++
          t.name ++ " = " ++ unionText (s.arms t.members) ++ ";"
      wrappers := .empty }

/-- The declarations of the types of one kind. -/
def kindDeclarations (schema : Schema) (s : Settings) (k : Kind) :
    Except UnresolvedReference (List Declaration) :=
  let types := schema.ofKind k
  match k with
  | .scalar => .ok [scalarsDeclaration schema s]
  | .enum => .ok (types.map (enumDeclaration s))
  | .inputObject => types.mapM (containerDeclaration schema s .inputObject false)
  | .object =>
    (types.mapM (containerWithArguments schema s .object !s.skipTypename)).map List.flatten
  | .interface => (types.mapM (containerWithArguments schema s .interface false)).map List.flatten
  | .union => types.mapM (unionDeclaration schema s)

/-- The declarations of all types that the filter lets through. -/
def typeDeclarations (schema : Schema) (s : Settings) :
    Except UnresolvedReference (List Declaration) :=
  ((Kind.declarationOrder.filter s.typeFilter.permits).mapM (kindDeclarations schema s)).map
    List.flatten

end SchemaTypes
