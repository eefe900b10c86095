import LossRecovery.CommandLine.Run

/-!
# `LossRecovery.Main` — the simulator as a program

Messages and errors go to the standard error, the report goes to the standard output.
-/

/-- Run the simulator with the given arguments. -/
def main (args : List String) : IO UInt32 := do
  let outcome := LossRecovery.CommandLine.run args
  let err ← IO.getStderr
  for m in outcome.log do
    err.putStrLn s!"[{m.level.name}] {m.text}"
  (← IO.getStdout).putStr outcome.output
  for line in outcome.errors do
    err.putStrLn line
  return UInt32.ofNat outcome.exitCode
