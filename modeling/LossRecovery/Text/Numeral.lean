import LossRecovery.Word

/-!
# `LossRecovery.Text.Numeral` — reading numbers

## Contents
- `digitsValue`, `word?`: natural numbers of 64 bits.
- `Numeral`, `Numeral.parse?`: decimal numbers with fraction and exponent, and the two special
  values that are no number.
-/

namespace LossRecovery.Text

/-- The number that decimal digits stand for. -/
def digitsValue (digits : List Char) : Nat :=
  digits.foldl (fun n c => 10 * n + (c.toNat - '0'.toNat)) 0

/-- A plus in front, if there is one, taken off. -/
def dropPlus : List Char → List Char
  | '+' :: rest => rest
  | cs => cs

/-- A natural number of 64 bits, with an optional plus in front. -/
def word? (s : String) : Option Nat :=
  let digits := dropPlus s.toList
  if digits ≠ [] ∧ digits.all Char.isDigit = true ∧ digitsValue digits ≤ Word.max64 then
    some (digitsValue digits)
  else none

/-- A number as it is written. -/
inductive Numeral where
  /-- The digits, as a whole number, times ten to the scale. -/
  | decimal (negative : Bool) (digits : Nat) (scale : Int)
  | infinite
  | undefined
deriving DecidableEq

namespace Numeral

/-- A sign in front, if there is one, taken off; tells whether it is a minus. -/
def takeSign : List Char → Bool × List Char
  | '-' :: rest => (true, rest)
  | '+' :: rest => (false, rest)
  | cs => (false, cs)

/-- The exponent that ends a number; zero if nothing is left. -/
def exponent? : List Char → Option Int
  | [] => some 0
  | mark :: rest =>
    let (negative, digits) := takeSign rest
    if mark.toLower = 'e' ∧ digits ≠ [] ∧ digits.all Char.isDigit = true then
      some (if negative then -digitsValue digits else digitsValue digits)
    else none

/-- Digits with at most one point among or around them, followed by an exponent. -/
def decimal? (negative : Bool) (cs : List Char) : Option Numeral :=
  let whole := cs.takeWhile Char.isDigit
  let (fraction, rest) := match cs.dropWhile Char.isDigit with
    | '.' :: rest => (rest.takeWhile Char.isDigit, rest.dropWhile Char.isDigit)
    | rest => ([], rest)
  if whole ++ fraction = [] then none
  else (exponent? rest).map fun e =>
    decimal negative (digitsValue (whole ++ fraction)) (e - fraction.length)

/-- Reads a number; the special values are written in letters of any case. -/
def parse? (s : String) : Option Numeral :=
  let (negative, cs) := takeSign s.toList
  let letters := String.ofList (cs.map Char.toLower)
  if letters = "inf" ∨ letters = "infinity" then some infinite
  else if letters = "nan" then some undefined
  else decimal? negative cs

end Numeral

end LossRecovery.Text
