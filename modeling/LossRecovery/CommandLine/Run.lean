import LossRecovery.CommandLine.Options
import LossRecovery.Congestion.FixedWindow
import LossRecovery.Simulation.Transfer
import LossRecovery.Text.FixedPoint

/-!
# `LossRecovery.CommandLine.Run` — the simulator as a function of its arguments

## Contents
- `Outcome`: what a run leaves behind.
- `summary`: the closing message of a transfer.
- `Options.simulate`: a transfer and what is written about it.
- `run`: the outcome of the arguments.
-/

namespace LossRecovery.CommandLine

/-- What a run leaves behind. -/
structure Outcome where
  exitCode : Nat
  output : String := ""
  log : List Message := []
  errors : List String := []
deriving DecidableEq

/-! ## The closing message -/

/-- A duration in seconds, as the sum of its seconds and its nanoseconds, each rounded to 53
significant binary digits. -/
def seconds (d : Nat) : Rat :=
  Number.nearestBinary (Number.nearestBinary (d / Time.second : Nat)
    + Number.nearestBinary (mkRat (d % Time.second) Time.second))

/-- The shortest time that goodput is computed over. -/
def shortestTime : Rat := (2 : Rat) ^ (-52 : Int)

/-- Bytes in a time as kbit/s, every step rounded to 53 significant binary digits. -/
def kilobits (bytes : Nat) (time : Rat) : Rat :=
  Number.nearestBinary
    (Number.nearestBinary (Number.nearestBinary (bytes : Nat) * 8 / 1000) / time)

/-- The closing message of a transfer. -/
def summary (r : Report) : Message :=
  let time := if shortestTime ≤ seconds r.elapsed then seconds r.elapsed else shortestTime
  ⟨.info, s!"delivered {r.delivered} bytes in {Text.fixedPoint 3 time}s, "
    ++ s!"goodput {Text.fixedPoint 1 (kilobits r.delivered time)} kbit/s, "
    ++ s!"link dropped {r.dropped} bytes"⟩

/-! ## The run -/

/-- The messages that are told at a verbosity. -/
def told (verbosity : Option Level) (messages : List Message) : List Message :=
  messages.filter fun m => match verbosity with
    | some level => m.level.rank ≤ level.rank
    | none => false

/-- The report of an error. -/
def errorLine (e : Error) : String := "Error: " ++ e.text

/-- A line for every counter that counted something. -/
def counterLines (s : Sink) : String :=
  String.join ((s.toList.filter fun c => c.2 ≠ 0).map fun (c, n) => s!"{c.name} {n}\n")

/-- Transfer as the options say, and write down snapshot, statistics and counters. -/
def Options.simulate (o : Options) : Outcome :=
  match Engine.start o.settings (FixedWindow.ofSettings o.settings) Sink.fresh 0 0 with
  | .error e => { exitCode := 1, errors := [errorLine e] }
  | .ok engine =>
    let transfer := Transfer.start (engine.setTrace "sim") o.link o.mss 0
    let done := transfer.run o.bytes (o.duration * Time.second) 0
    let messages := done.1.engine.messages
    match done.2 with
    | .error e =>
      { exitCode := 1, log := told o.verbosity messages, errors := [errorLine e] }
    | .ok report =>
      { exitCode := 0
        output := report.snapshot.toJson.pretty ++ "\n" ++ done.1.engine.stats.toJson.pretty
          ++ "\n" ++ counterLines done.1.engine.sink
        log := told o.verbosity (messages ++ [summary report]) }

/-- The outcome of the arguments. -/
def run (args : List String) : Outcome :=
  match Options.parse? args with
  | some o => o.simulate
  | none => { exitCode := 2 }

end LossRecovery.CommandLine
