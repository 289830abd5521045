import SqlLayout.CommandLine.Run

/-!
# The program

Reads the arguments and, where the query is a single hyphen, the standard input.
-/

open SqlLayout CommandLine

/-- Runs the program on the arguments of its call. -/
def main (arguments : List String) : IO UInt32 := do
  let arguments := arguments.map String.toList
  let stdin ←
    match settings arguments with
    | .ok s => if s.readsInput then (← IO.getStdin).readToEnd else pure ""
    | .error _ => pure ""
  match run arguments stdin.toList with
  | .ok outcome =>
    (← IO.getStdout).putStr (String.ofList outcome.stdout)
    (← IO.getStderr).putStr (String.ofList outcome.stderr)
    return outcome.status.toUInt32
  | .error e =>
    (← IO.getStderr).putStrLn (String.ofList e.message)
    return 1
