import SchemaTypes.Text.Basic

namespace SchemaTypes.Console

inductive Severity where
  | debug
  | info
  | warn
  | error
  deriving DecidableEq, Repr

/-- The least severity that is written, or silence. -/
inductive Level where
  | debug
  | info
  | warn
  | error
  | silent
  deriving DecidableEq, Repr

/-- Levels in increasing order. -/
def Level.rank : Level → Nat
  | debug => 0
  | info => 1
  | warn => 2
  | error => 3
  | silent => 4

/-- The level from which on a severity is written. -/
def Severity.level : Severity → Level
  | debug => .debug
  | info => .info
  | warn => .warn
  | error => .error

/-- The streams that lines are written to. -/
inductive Stream where
  | output
  | error
  deriving DecidableEq, Repr

/-- Where records of a severity are written. -/
def Severity.stream : Severity → Stream
  | debug => .output
  | info => .output
  | warn => .error
  | error => .error

/-- The start of a control sequence: an escape byte and a bracket. -/
def controlStart : Text := [27, '['.toUInt8]

/-- The control sequence that selects a display attribute. -/
def display (code : Text) : Text := controlStart ++ code ++ "m"

def Severity.color : Severity → Text
  | debug => "36"
  | info => "34"
  | warn => "33"
  | error => "31"

/-- The sign before the records of a severity. -/
def Severity.sign : Severity → Text
  | debug => "● "
  | info => "ℹ "
  | warn => "⚠ "
  | error => "✖ "

/-- An argument of a record. -/
inductive Argument where
  | text (value : Text)
  | bool (value : Bool)
  | int (value : Int)
  deriving DecidableEq, Repr

instance : Coe Text Argument := ⟨.text⟩

/-- How an argument is written. -/
def Argument.written : Argument → Text
  | text t => t
  | bool b => if b then "true" else "false"
  | int n => Text.decimalInt n

structure Record where
  severity : Severity
  arguments : List Argument
  deriving DecidableEq, Repr

namespace Record

/-- Whether a record is written at a level. -/
def isWritten (level : Level) (r : Record) : Bool := level.rank ≤ r.severity.level.rank

/-- The line of a record at a time of day: the time in gray, the sign in its color, then the
arguments with a space between each two. -/
def line (clock : Text) (r : Record) : Text :=
  display "90" ++ "[" ++ clock ++ "] " ++ display r.severity.color ++ r.severity.sign ++
    display "0" ++ Text.joined " " (r.arguments.map (·.written)) ++ "\n"

end Record

end SchemaTypes.Console
