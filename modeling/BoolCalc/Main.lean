import BoolCalc.Cli.Command

/-!
# The Program

The command line itself: reading the configuration file, printing, and the
exit status. Everything else is decided elsewhere.

## Main definitions

* `main`: The entry point.
-/

namespace BoolCalc

namespace Cli

/-- The configuration file that is read unless another is named. -/
def defaultConfigPath : String := "booltree.toml"

/-- The contents of a file, if it can be read. -/
def readIfPresent (path : String) : IO (Option ByteArray) := do
  try
    return some (← IO.FS.readBinFile path)
  catch _ =>
    return none

/-- Write a text to a stream, without its control sequences unless the stream is
    a terminal. -/
def put (stream : IO.FS.Stream) (text plain : String) : IO Unit := do
  stream.putStr (if ← stream.isTty then text else plain)
  stream.flush

/-- Write what the program says and end with its status. -/
def finish (output : Output) : IO UInt32 := do
  put (← IO.getStdout) output.stdout output.plain.stdout
  put (← IO.getStderr) output.stderr output.plain.stderr
  return output.status.toUInt32

/-- Answer a request. -/
def serve (request : Request) : IO UInt32 := do
  let file ← match request with
    | .command path _ _ _ => readIfPresent (path.getD defaultConfigPath)
    | .version => pure none
  for line in request.report defaultLimit file do
    IO.eprintln line
  finish (.ofAnswer (request.answer defaultLimit file))

end Cli

end BoolCalc

/-- Answer the command line. -/
def main (words : List String) : IO UInt32 :=
  match BoolCalc.Cli.Request.ofWords? words with
  | none => BoolCalc.Cli.finish (.ofAnswer (.error .usage))
  | some request => BoolCalc.Cli.serve request
