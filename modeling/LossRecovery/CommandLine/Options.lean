import LossRecovery.Congestion.Law
import LossRecovery.Journal
import LossRecovery.Number.Nearest
import LossRecovery.Simulation.Link
import LossRecovery.Settings
import LossRecovery.Text.Numeral

/-!
# `LossRecovery.CommandLine.Options` — the options of the simulator

## Contents
- `Chance`: how often something happens on the path.
- `Options`, with the settings of the engine and of the link they stand for.
- `OptionRule`, `Options.rules`: the options by name, and what each takes.
- `Options.parse?`: the options that arguments stand for.
-/

namespace LossRecovery.CommandLine

/-- How often something happens on the path. -/
inductive Chance where
  | never
  | sometimes
  | always
deriving DecidableEq, Inhabited

namespace Chance

/-- The chance that a decimal number from nought to one stands for. What matters is the nearest
number with 53 significant binary digits; the least of these is `2 ^ -1074`. -/
def ofDecimal? (negative : Bool) (digits : Nat) (scale : Int) : Option Chance :=
  if digits = 0 ∨ (toString digits).length + 400 < -scale then some never
  else if 0 < scale then none
  else
    let q := mkRat digits (Nat.pow 10 (-scale).toNat)
    if q ≤ (2 : Rat) ^ (-1075 : Int) then some never
    else if negative ∨ 1 < Number.nearestBinary q then none
    else if Number.nearestBinary q = 1 then some always
    else some sometimes

/-- Reads a chance. -/
def parse? (s : String) : Option Chance :=
  (Text.Numeral.parse? s).bind fun
    | .decimal negative digits scale => ofDecimal? negative digits scale
    | .infinite | .undefined => none

end Chance

/-- The options of a simulated transfer. -/
structure Options where
  /-- Bytes to transfer. -/
  bytes : Nat := 10000000
  /-- Seconds after which the transfer is given up. -/
  duration : Nat := 60
  /-- Milliseconds of a round trip without queueing. -/
  rtt : Nat := 50
  /-- The rate of the bottleneck in kbit/s. -/
  rate : Nat := 10000
  /-- How often segments are lost. -/
  loss : Chance := .sometimes
  /-- How often segments are delayed. -/
  reorder : Chance := .never
  /-- Extra milliseconds of a delayed segment. -/
  reorderDelay : Nat := 5
  /-- Bytes the queue of the bottleneck takes. -/
  queueLimit : Nat := 262144
  mss : Nat := 1460
  law : LawKind := .fixed
  initialWindowSegments : Nat := 10
  tlpEnabled : Bool := true
  /-- A pacing rate in bytes per second that replaces the computed one. -/
  pacingRate : Option Nat := none
  /-- The seed of what is left to chance. -/
  seed : Nat := 1
  /-- The least important level that is told, if anything is. -/
  verbosity : Option Level := some .info
deriving DecidableEq

namespace Options

/-- The settings of the engine. -/
def settings (o : Options) : Settings where
  mss := o.mss
  tlpEnabled := o.tlpEnabled
  fixedPacingRate := o.pacingRate
  initialWindowSegments := o.initialWindowSegments

/-- The path. Only what always happens does; a path on which segments are sometimes lost or delayed
is simulated as one on which they never are. -/
def link (o : Options) : LinkSettings where
  rtt := o.rtt * Time.millisecond
  rate := o.rate * 1000 / 8
  losesAll := o.loss = .always
  delaysAll := o.reorder = .always
  extraDelay := o.reorderDelay * Time.millisecond
  queueLimit := o.queueLimit

/-- Whether the options describe a path: some segments get through, and at some rate. -/
def areSound (o : Options) : Bool := o.loss != .always && o.rate != 0

end Options

/-! ## The options by name -/

/-- What follows the name of an option. -/
inductive OptionKind where
  /-- Nothing. -/
  | flag (set : Options → Options)
  /-- A value, which may not make sense. -/
  | valued (take : String → Options → Option Options)

/-- An option with its names. -/
structure OptionRule where
  name : String
  short : Option Char
  kind : OptionKind

namespace OptionRule

/-- An option whose value is read by `parse?`. -/
def reading {α : Type} (name : String) (parse? : String → Option α)
    (set : α → Options → Options) : OptionRule :=
  ⟨name, none, .valued fun text o => (parse? text).map (set · o)⟩

/-- An option whose value is a natural number of 64 bits. -/
def number (name : String) (set : Nat → Options → Options) : OptionRule :=
  reading name Text.word? set

/-- The option under a further name of one letter. -/
def withShort (r : OptionRule) (c : Char) : OptionRule := { r with short := some c }

end OptionRule

/-- Reads a level in letters of any case; nothing is told at `off`. -/
def verbosity? (s : String) : Option (Option Level) :=
  let name := String.ofList (s.toList.map Char.toLower)
  if name = "off" then some none
  else ([.error, .warn, .info, .debug, .trace].find? fun (l : Level) => l.name = name).map some

namespace Options

open OptionRule (reading number)

/-- The options by name, and what each takes. -/
def rules : List OptionRule := [
  (number "bytes" fun n o => { o with bytes := n }).withShort 'b',
  (number "duration" fun n o => { o with duration := n }).withShort 'd',
  number "rtt" fun n o => { o with rtt := n },
  number "rate" fun n o => { o with rate := n },
  reading "loss" Chance.parse? fun c o => { o with loss := c },
  reading "reorder" Chance.parse? fun c o => { o with reorder := c },
  number "reorder-delay" fun n o => { o with reorderDelay := n },
  number "queue-limit" fun n o => { o with queueLimit := n },
  number "mss" fun n o => { o with mss := n },
  reading "congestion-control-algor" (fun s => (LawKind.parse s).toOption)
    fun k o => { o with law := k },
  number "initial-congestion-window" fun n o => { o with initialWindowSegments := n },
  ⟨"disable-tlp", none, .flag fun o => { o with tlpEnabled := false }⟩,
  number "pacing-rate" fun n o => { o with pacingRate := some n },
  number "seed" fun n o => { o with seed := n },
  reading "log-level" verbosity? fun v o => { o with verbosity := v }]

/-- The option that an argument names, with the value attached to it. -/
def named? (arg : String) : Option (OptionRule × Option String) :=
  match arg.toList with
  | '-' :: '-' :: rest =>
    let name := String.ofList (rest.takeWhile (· ≠ '='))
    let attached := match rest.dropWhile (· ≠ '=') with
      | [] => none
      | _ :: value => some (String.ofList value)
    (rules.find? (·.name = name)).map (·, attached)
  | '-' :: c :: rest =>
    let attached := match rest with
      | [] => none
      | '=' :: value => some (String.ofList value)
      | value => some (String.ofList value)
    (rules.find? (·.short = some c)).map (·, attached)
  | _ => none

/-- Read arguments on top of options already given under the names `used`. Each option is given at
most once, and a value that stands for itself does not start with a dash. -/
def read (used : List String) (o : Options) : List String → Option Options
  | [] => some o
  | ["--"] => some o
  | arg :: rest =>
    match named? arg with
    | none => none
    | some (rule, attached) =>
      if rule.name ∈ used then none
      else match rule.kind, attached, rest with
        | .flag set, none, rest => read (rule.name :: used) (set o) rest
        | .valued take, some value, rest =>
          (take value o).bind fun o => read (rule.name :: used) o rest
        | .valued take, none, value :: rest =>
          if value.startsWith "-" then none
          else (take value o).bind fun o => read (rule.name :: used) o rest
        | _, _, _ => none

/-- The options that arguments stand for, if they describe a path. -/
def parse? (args : List String) : Option Options := (read [] {} args).filter (·.areSound)

end Options

end LossRecovery.CommandLine
