import SchemaTypes.Console
import SchemaTypes.Render.Types

/-!
# Emission

The output for a schema is the aliases that its declarations use, each after those it needs, and
then the declarations that use no rejected alias. An error in an alias takes out only what leans
on it; a reference that leads nowhere ends the run.
-/

namespace SchemaTypes

/-- What is put out for a schema. -/
structure Emission where
  /-- The aliases, then all other declarations in their order. -/
  declarations : List Declaration
  /-- The errors in the bodies of aliases. -/
  errors : List ConfigurationError
  /-- The names of the declarations left out for the sake of a rejected alias. -/
  skipped : List Text
  deriving DecidableEq, Repr

/-- The registry of aliases under settings, before anything refers to them. -/
def Settings.registry (s : Settings) : Registry := { bodies := s.bodies, noExport := s.noExport }

/-- The aliases after all the given declarations have referred to theirs. -/
def materialized (s : Settings) (declarations : List Declaration) : Materialized :=
  (s.registry.referring (AliasSet.unions (declarations.map (·.wrappers)))).materialize

/-- Whether a declaration uses no alias of a set. -/
def Declaration.avoids (d : Declaration) (aliases : AliasSet) : Bool :=
  d.wrappers.toList.all (· ∉ aliases)

/-- The emission of a schema under settings. -/
def emit (schema : Schema) (s : Settings) : Except UnresolvedReference Emission :=
  (typeDeclarations schema s).map fun declarations =>
    let aliases := materialized s declarations
    let (kept, skipped) := declarations.partition (·.avoids aliases.failed)
    { declarations := aliases.declarations ++ kept
      errors := aliases.errors
      skipped := skipped.map (·.name) }

namespace Emission

/-- Whether there are no errors, and so nothing is left out. -/
def isOk (e : Emission) : Bool := e.errors.isEmpty

/-- What stands before a declaration that is not the first: aliases stand on consecutive lines, and
all else has an empty line before it. -/
def separator (d : Declaration) : Text := if d.kind = .wrapperAlias then "\n" else "\n\n"

/-- The text of declarations. -/
def sourceOf : List Declaration → Text
  | [] => []
  | d :: rest => d.body ++ rest.flatMap (fun d => separator d ++ d.body) ++ "\n"

def source (e : Emission) : Text := sourceOf e.declarations

/-- An error as an entry of a manifest. -/
def errorJson (e : ConfigurationError) : Json :=
  Json.ofMembers [
    ("option", .string e.option),
    ("value", .string e.value),
    ("message", .string e.message)]

/-- The emission as JSON. -/
def manifest (e : Emission) : Json :=
  Json.ofMembers [
    ("declarations", .array (e.declarations.map (·.toJson))),
    ("errors", .array (e.errors.map errorJson))]

/-- What is logged about the emission. -/
def log (e : Emission) : List Console.Record :=
  e.skipped.map (fun name =>
    ⟨.debug, [.text "skipping", .text name, .text "- it references a rejected alias"]⟩) ++
  e.errors.map (fun error => ⟨.warn, [.text error.message]⟩) ++
  [⟨.debug, [.text "emitted", .int e.declarations.length, .text "declarations,",
    .int e.skipped.length, .text "skipped,", .int e.errors.length,
    .text "configuration error(s)"]⟩]

end Emission

/-- What is logged about options: each member that is none. -/
def Options.log (raw : Json) : List Console.Record :=
  (Options.unrecognized raw).map fun key =>
    ⟨.debug, [.text "ignoring unrecognized option", .text key]⟩

/-- Why there is no text for a schema and options. -/
inductive GenerationError where
  | option (error : ConfigurationError)
  | reference (error : UnresolvedReference)
  /-- All errors in the bodies of aliases. -/
  | aliases (errors : List ConfigurationError)
  deriving DecidableEq, Repr

def GenerationError.message : GenerationError → Text
  | option e => e.message
  | reference e => e.message
  | aliases errors => ConfigurationError.summary errors

/-- The text for a schema and options, and what is logged on the way. -/
structure Generation where
  log : List Console.Record
  result : Except GenerationError Text

/-- Generates the text for a schema and options. -/
def generate (schema : Schema) (raw : Json) : Generation :=
  match Settings.ofJson raw with
  | .error e => ⟨Options.log raw, .error (.option e)⟩
  | .ok settings =>
    match emit schema settings with
    | .error e => ⟨Options.log raw, .error (.reference e)⟩
    | .ok emission =>
      ⟨Options.log raw ++ emission.log,
        if emission.isOk then .ok emission.source else .error (.aliases emission.errors)⟩

end SchemaTypes
