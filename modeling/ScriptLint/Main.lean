import ScriptLint.CommandLine.Run
import ScriptLint.Json.Reader
import ScriptLint.Snapshot

/-!
# The program

The program reads a snapshot of the workspace from standard input, carries out
what its command line asks for, and prints the outcome.
-/

open ScriptLint

/-- Run the program in the workspace that standard input describes. -/
def main (words : List String) : IO UInt32 := do
  let text ← (← IO.getStdin).readToEnd
  match (Json.read? text.toList).bind (Snapshot.workspace? []) with
  | none =>
      IO.eprintln "standard input holds no workspace"
      return 3
  | some workspace =>
      match CommandLine.execute workspace words with
      | .ok outcome =>
          IO.print outcome.output
          IO.eprint outcome.errors
          return outcome.status.toUInt32
      | .error failure =>
          IO.eprintln failure.message
          return 3
