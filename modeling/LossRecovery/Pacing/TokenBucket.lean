import LossRecovery.Time
import LossRecovery.Word

/-!
# `LossRecovery.Pacing.TokenBucket` — spreading sends over time

Tokens are bytes. Sends take tokens out of a bucket of bounded capacity that fills at the pacing
rate. A send that finds too few tokens is put off until there are enough.

## Contents
- `TokenBucket` with `start`, `spend` and `schedule`.
-/

namespace LossRecovery

/-- A bucket of tokens. -/
structure TokenBucket where
  /-- The most tokens the bucket holds. -/
  capacity : Nat
  tokens : Nat
  /-- The congestion window the capacity was computed from. -/
  window : Nat
  /-- When the bucket was last filled. -/
  filled : Nat
  granularity : Nat
  mss : Nat
deriving DecidableEq

namespace TokenBucket

/-- The least burst in segments. -/
def minBurst : Nat := 10

/-- The greatest burst in segments. -/
def maxBurst : Nat := 128

/-- What the window sends within the clock granularity, between the least and the greatest burst. -/
def capacityFor (window : Nat) (granularity rtt : Nat) (mss : Nat) : Nat :=
  min (max (Word.wrap (window * granularity / max rtt Time.millisecond)) (minBurst * mss))
    (maxBurst * mss)

/-- A full bucket. -/
def start (granularity rtt : Nat) (window mss : Nat) (now : Nat) : TokenBucket :=
  let capacity := capacityFor window granularity rtt mss
  ⟨capacity, capacity, window, now, granularity, mss⟩

/-- Take out the tokens of a send. -/
def spend (b : TokenBucket) (bytes : Nat) : TokenBucket := { b with tokens := b.tokens - bytes }

/-- Fit the capacity to a changed congestion window. -/
def resize (b : TokenBucket) (rtt : Nat) (window : Nat) : TokenBucket :=
  if window = b.window then b
  else
    let capacity := capacityFor window b.granularity rtt b.mss
    { b with capacity := capacity, tokens := min capacity b.tokens, window := window }

/-- Fill the bucket for the time since it was last filled. -/
def fill (b : TokenBucket) (rate : Nat) (now : Nat) : TokenBucket :=
  let gained := Word.wrap (rate * Time.since now b.filled / Time.second)
  { b with tokens := min (Word.add b.tokens gained) b.capacity, filled := now }

/-- When `bytes` may be sent at `rate`; none if at once. -/
def schedule (b : TokenBucket) (bytes rate : Nat) (rtt : Nat) (window : Nat) (now : Nat) :
    TokenBucket × Option Nat :=
  if rtt = 0 ∨ window = 0 ∨ rate = 0 then (b, none)
  else
    let b := b.resize rtt window
    if bytes ≤ b.tokens then (b, none)
    else
      let b := b.fill rate now
      if bytes ≤ b.tokens then (b, none)
      else (b, some (b.filled + Word.wrap ((bytes - b.tokens) * Time.second / rate)))

end TokenBucket

end LossRecovery
