import EntityQuery.CommandLine.Program

/-!
# Running the program

The real machine: its environment and its files.
-/

namespace EntityQuery

/-- The machine that the program runs on. -/
def realHost : Host IO where
  getVariable name := do return ← IO.getEnv name
  isPresent path := do
    match ← (IO.FS.Handle.mk path .read).toBaseIO with
    | .ok _ => return true
    | .error _ => return false
  readText path := do
    match ← (IO.FS.readFile path).toBaseIO with
    | .ok text => return some text
    | .error _ => return none

end EntityQuery

/-- Run the program on the machine and print how the run ended. -/
def main (args : List String) : IO UInt32 := do
  let outcome ← EntityQuery.CommandLine.run EntityQuery.realHost args
  (← IO.getStdout).putStr outcome.output
  (← IO.getStderr).putStr outcome.errors
  return outcome.exitCode.toUInt32
