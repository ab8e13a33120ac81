import SchemaTypes.Declaration
import SchemaTypes.Render.TypeText

/-!
# Enums

An enum is declared in one of four forms. In each the members come in the order of the schema, and
a last one stands for values added later where that is asked for; its name is none of the names
and literals of the others.
-/

namespace SchemaTypes

namespace EnumForm

open Text

/-- The literal of a member: the one set for it, or the schema's, or its name. -/
def memberLiteral (s : Settings) (t : TypeDefinition) (v : EnumValue) : Text :=
  match (s.enumValues.lookup t.name).bind (·.lookup v.name) with
  | some literal => literal
  | none => if v.literal = [] then v.name else v.literal

/-- The name of the member for values added later. -/
def sentinel (s : Settings) (t : TypeDefinition) : Text :=
  fresh futureAddedValue (t.values.flatMap fun v => [v.name, memberLiteral s t v])

/-- A member of an enum: the comment before it, its name and its literal. -/
structure Member where
  comment : Text
  name : Text
  literal : Text
  deriving DecidableEq, Repr

/-- The members of an enum, the one for later values included. -/
def members (s : Settings) (t : TypeDefinition) : List Member :=
  let declared := t.values.map fun v =>
    (⟨s.comment v.description 2, v.name, memberLiteral s t v⟩ : Member)
  if s.futureProofEnums then declared ++ [⟨[], sentinel s t, sentinel s t⟩] else declared

/-- A member of an enum declaration, with the number that it has there. -/
def enumMember (s : Settings) (m : Member) (number : Nat) : Text :=
  m.comment ++ "  " ++ m.name ++ " = " ++
    (if s.numericEnums then decimal number else quoted m.literal) ++ ",\n"

/-- An enum declaration, or with `const ` before its keyword a constant one. -/
def enumBody (s : Settings) (t : TypeDefinition) (qualifier : Text) : Text :=
  Declaration.exportQualifier s.noExport ++ qualifier ++ "enum " ++ t.name ++ " \x7b\n" ++
    ((members s t).mapIdx fun i m => enumMember s m i).flatten ++ "\x7d"

/-- The union of the members' literals. -/
def stringUnionBody (s : Settings) (t : TypeDefinition) : Text :=
  Declaration.exportQualifier s.noExport ++ "type " ++ t.name ++ " = " ++
    unionText ((members s t).map (quoted ·.literal)) ++ ";"

/-- A member of a constant object. -/
def objectMember (m : Member) : Text :=
  m.comment ++ "  " ++ m.name ++ ": " ++ quoted m.literal ++ ",\n"

/-- A constant object, and the type of its values. -/
def constObjectBody (s : Settings) (t : TypeDefinition) : Text :=
  let qualifier := Declaration.exportQualifier s.noExport
  qualifier ++ "const " ++ t.name ++ " = \x7b\n" ++ (members s t).flatMap objectMember ++
    "\x7d as const;\n\n" ++ qualifier ++ "type " ++ t.name ++ " = typeof " ++ t.name ++
    "[keyof typeof " ++ t.name ++ "];"

/-- The declaration of an enum without its comment. -/
def body (s : Settings) (t : TypeDefinition) : Text :=
  match s.enumMode with
  | .enum => enumBody s t []
  | .constEnum => enumBody s t "const "
  | .stringUnion => stringUnionBody s t
  | .constObject => constObjectBody s t

end EnumForm

def enumDeclaration (s : Settings) (t : TypeDefinition) : Declaration where
  name := t.name
  kind := .enum
  body := s.comment t.description 0 ++ EnumForm.body s t
  wrappers := .empty

/-- A type that is no enum, asked for as one. -/
structure NotAnEnum where
  kind : Kind
  name : Text
  deriving DecidableEq, Repr

def NotAnEnum.message (e : NotAnEnum) : Text :=
  Text.untilNul ("EnumRenderer::render on " ++ e.kind.text ++ " type '" ++ e.name ++ "'")

/-- The declaration of a type as an enum, which it has to be. -/
def declareEnum (s : Settings) (t : TypeDefinition) : Except NotAnEnum Declaration :=
  if t.kind = .enum then .ok (enumDeclaration s t) else .error ⟨t.kind, t.name⟩

end SchemaTypes
