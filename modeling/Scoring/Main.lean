import Scoring.Arguments

/-!
# Main — the command-line program

Reads the two files, runs the model on the input and prints what the run leaves behind. Nothing is decided here.
-/

namespace Scoring.CommandLine

def usage : String :=
  "usage: scoring --model PATH --input PATH [--model-index N] [--precomputed] [--debug] " ++
    "[--threads N] [--log-level LEVEL]"

/-- The file at a path; one that cannot be read counts as missing. -/
def readFile (path : String) : IO File := do
  try return ⟨path, some (← IO.FS.readFile path)⟩
  catch _ => return ⟨path, none⟩

/-- Print the lines of a report, and its message as an error. -/
def print (r : Report) : IO UInt32 := do
  let output ← IO.getStdout
  for line in r.lines do output.putStrLn line
  output.flush
  if let some message := r.message then IO.eprintln message
  return r.exitCode.toUInt32

end Scoring.CommandLine

def main (arguments : List String) : IO UInt32 := do
  match Scoring.CommandLine.Request.ofArguments? arguments with
  | none =>
    IO.eprintln Scoring.CommandLine.usage
    return 2
  | some request =>
    let model ← Scoring.CommandLine.readFile request.model
    let input ← Scoring.CommandLine.readFile request.input
    Scoring.CommandLine.print (Scoring.CommandLine.run request.options model input)
