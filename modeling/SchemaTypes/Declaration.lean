import SchemaTypes.Alias.Basic
import SchemaTypes.Json.Basic

namespace SchemaTypes

/-- What a declaration stands for. -/
inductive DeclarationKind where
  | wrapperAlias
  | scalars
  | enum
  | inputObject
  | object
  | arguments
  | interface
  | union
  deriving DecidableEq, Repr

def DeclarationKind.text : DeclarationKind → Text
  | wrapperAlias => "alias"
  | scalars => "scalars"
  | enum => "enum"
  | inputObject => "inputObject"
  | object => "object"
  | arguments => "arguments"
  | interface => "interface"
  | union => "union"

structure Declaration where
  name : Text
  kind : DeclarationKind
  /-- The whole text: comment, qualifier and declaration. -/
  body : Text
  /-- The aliases that the body uses. -/
  wrappers : AliasSet
  deriving DecidableEq, Repr

namespace Declaration

/-- The qualifier before a declaration's keyword, unless it is left out. -/
def exportQualifier (noExport : Bool) : Text := if noExport then [] else "export "

/-- A declaration as an entry of a manifest. -/
def toJson (d : Declaration) : Json :=
  Json.ofMembers [
    ("name", .string d.name),
    ("kind", .string d.kind.text),
    ("body", .string d.body),
    ("wrappers", Json.ofTexts d.wrappers.names)]

end Declaration

end SchemaTypes
