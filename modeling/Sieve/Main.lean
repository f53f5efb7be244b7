import Sieve.CommandLine

/-!
# The program

Reads files and variables, and writes what `CommandLine.serve` reports.
-/

namespace Sieve

/-- The text of a file, if it can be read. -/
def readFileIfAny (path : String) : IO (Option String) := do
  try
    return some (← IO.FS.readFile path)
  catch _ =>
    return none

/-- The values of those of some variables that are set. -/
def readVariables : List String → IO (List (String × String))
  | [] => return []
  | name :: names => do
    let rest ← readVariables names
    match ← IO.getEnv name with
    | some value => return (name, value) :: rest
    | none => return rest

/-- Writes a report, and gives its exit code. -/
def writeReport (r : Report) : IO UInt32 := do
  if r.settingsError.isSome then
    IO.eprintln "Failed to load config, using defaults"
  IO.print r.output
  for (counter, count) in Metric.tally r.metrics do
    IO.eprintln (counter ++ " " ++ toString count)
  if let some e := r.error then
    IO.eprintln ("Error: " ++ e.message)
  return UInt32.ofNat r.exitCode

end Sieve

/-- Serves the request of the arguments. -/
def main (args : List String) : IO UInt32 := do
  let vars ← Sieve.readVariables Sieve.CommandLine.variableNames
  Sieve.writeReport (← Sieve.CommandLine.serve Sieve.readFileIfAny vars (.ofArguments args))
