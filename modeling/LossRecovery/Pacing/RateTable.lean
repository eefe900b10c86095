/-!
# `LossRecovery.Pacing.RateTable` — the rates a hardware pacer supports

## Contents
- `RateTable`: positive rates in strictly ascending order, with `ofList`.
- `RateTable.maximum`, `RateTable.supported?`.
-/

namespace LossRecovery

/-- Positive rates in bytes per second, strictly ascending. -/
structure RateTable where
  rates : List Nat
deriving DecidableEq, Inhabited

namespace RateTable

/-- Put a rate into a strictly ascending list, unless it is there. -/
def insertRate (rate : Nat) : List Nat → List Nat
  | [] => [rate]
  | r :: rest =>
    if rate < r then rate :: r :: rest
    else if rate = r then r :: rest
    else r :: insertRate rate rest

/-- The table of the positive rates of a list. -/
def ofList (rates : List Nat) : RateTable := ⟨(rates.filter (0 < ·)).foldr insertRate []⟩

/-- The highest rate of the table, zero if there is none. -/
def maximum (t : RateTable) : Nat := t.rates.getLast?.getD 0

/-- The highest rate that is not above `rate`. -/
def supported? (t : RateTable) (rate : Nat) : Option Nat := (t.rates.filter (· ≤ rate)).getLast?

/-- A table as it is written in messages. -/
def text (t : RateTable) : String := s!"hardware pacing max_rate={t.maximum}"

end RateTable

end LossRecovery
