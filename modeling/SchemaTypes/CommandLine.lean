import SchemaTypes.Emission
import SchemaTypes.Json.Parser
import SchemaTypes.Sample

/-!
# The command line

The program renders the sample schema. Each argument is the path of a file of options, the last of
which counts, except that `--json` asks for the manifest in place of the text. The program ends
with 0 if all is well, with 1 if the options cannot be used as they are, and with 2 if they cannot
be read.
-/

namespace SchemaTypes.CommandLine

/-- What the arguments ask for. -/
structure Request where
  /-- The options. -/
  options : Json := .object []
  /-- Whether to write the manifest. -/
  manifest : Bool := false

/-- Why the arguments cannot be followed. -/
inductive ArgumentError where
  | unreadable (path : Text)
  | malformed (path : Text) (error : Json.ParseError)
  deriving DecidableEq, Repr

/-- What is logged about arguments that cannot be followed. -/
def ArgumentError.record : ArgumentError → Console.Record
  | unreadable path => ⟨.error, [.text "cannot open config file", .text path]⟩
  | malformed path e => ⟨.error, [.text "invalid JSON in", .text (path ++ ":"), .text e.message]⟩

/-- The request after one more argument, where `contents?` gives what a file holds. -/
def Request.following (contents? : Text → Option Text) (r : Request) (argument : Text) :
    Except ArgumentError Request :=
  if argument = "--json" then .ok { r with manifest := true }
  else
    match contents? argument with
    | none => .error (.unreadable argument)
    | some source =>
      match Json.parse source with
      | .error e => .error (.malformed argument e)
      | .ok options => .ok { r with options }

/-- What a run does in the end. -/
structure Outcome where
  /-- What is logged, in order. -/
  log : List Console.Record
  /-- What is then written to the output stream. -/
  output : Text
  exitCode : Nat
  deriving DecidableEq, Repr

/-- A run that ends with an error. -/
def Outcome.failure (log : List Console.Record) (message : Text) : Outcome :=
  ⟨log ++ [⟨.error, [.text message]⟩], [], 1⟩

/-- What an emission comes to. -/
def Request.written (r : Request) (e : Emission) : Text :=
  if r.manifest then e.manifest.indented 0 ++ "\n" else e.source

/-- What a request comes to. -/
def Request.outcome (r : Request) : Outcome :=
  let log := Options.log r.options
  match Settings.ofJson r.options with
  | .error e => .failure log e.message
  | .ok settings =>
    match emit Sample.schema settings with
    | .error e => .failure log e.message
    | .ok emission =>
      ⟨log ++ emission.log, r.written emission, if emission.isOk then 0 else 1⟩

/-- What the program does with some arguments. -/
def run (contents? : Text → Option Text) (arguments : List Text) : Outcome :=
  match arguments.foldlM (Request.following contents?) {} with
  | .error e => ⟨[e.record], [], 2⟩
  | .ok request => request.outcome

end SchemaTypes.CommandLine
