import SchemaTypes.Alias.Basic
import SchemaTypes.TypeExpr.Token

namespace SchemaTypes

/-- Why the value of an option cannot be used. -/
inductive Reason where
  | expectedBoolean
  | expectedBooleanOrObject
  | expectedString
  | expectedObject
  /-- The value is no type expression. -/
  | invalidExpression (error : TypeExpr.SyntaxError)
  /-- The body of an alias refers to an alias that itself needs this one. -/
  | refersBack (source target : Alias)
  deriving DecidableEq, Repr

def Reason.text : Reason → Text
  | expectedBoolean => "expected a boolean"
  | expectedBooleanOrObject => "expected a boolean or an object"
  | expectedString => "expected a string"
  | expectedObject => "expected an object"
  | invalidExpression e => "not a valid type expression: " ++ e.message
  | refersBack a target => "alias '" ++ a.name ++ "' refers back to '" ++ target.name ++ "'"

/-- An option whose value cannot be used. -/
structure ConfigurationError where
  option : Text
  value : Text
  reason : Reason
  deriving DecidableEq, Repr

def ConfigurationError.message (e : ConfigurationError) : Text :=
  Text.untilNul ("Invalid value for option '" ++ e.option ++ "' (" ++ e.value ++ "): " ++
    e.reason.text)

/-- The message that sums up the errors of a run. -/
def ConfigurationError.summary (errors : List ConfigurationError) : Text :=
  Text.decimal errors.length ++ " configuration error(s)" ++
    errors.flatMap fun e => ("\n  - " ++ e.message : Text)

end SchemaTypes
