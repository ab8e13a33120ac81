import SchemaTypes.CommandLine
import Std.Time

namespace SchemaTypes.CommandLine

/-- The local time of day as the log shows it. -/
def clockText : IO Text := do
  let now ← Std.Time.PlainDateTime.now
  return (now.format "HH:mm:ss.SSS" : String)

def writeText (stream : IO.FS.Stream) (t : Text) : IO Unit := do
  stream.write ⟨t.toArray⟩
  stream.flush

/-- The stream behind a stream of the console. -/
def streamOf : Console.Stream → IO IO.FS.Stream
  | .output => IO.getStdout
  | .error => IO.getStderr

/-- What the file at a path holds, if it can be read. -/
def contentsOf (path : String) : IO (Text × Option Text) := do
  try
    let bytes ← IO.FS.readBinFile path
    return (Text.ofString path, some bytes.toList)
  catch _ => return (Text.ofString path, none)

end SchemaTypes.CommandLine

open SchemaTypes CommandLine in
/-- Renders the sample schema with the options in the files that the arguments name. -/
def main (arguments : List String) : IO UInt32 := do
  let files ← arguments.mapM contentsOf
  let outcome := run (fun path => (files.lookup path).join) (arguments.map Text.ofString)
  for record in outcome.log do
    if record.isWritten .info then
      writeText (← streamOf record.severity.stream) (record.line (← clockText))
  writeText (← IO.getStdout) outcome.output
  return outcome.exitCode.toUInt32
