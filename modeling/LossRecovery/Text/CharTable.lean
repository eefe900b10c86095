/-!
# `LossRecovery.Text.CharTable` — sets of characters as tables of ranges

## Contents
- `CharTable` with `contains`.
-/

namespace LossRecovery.Text

/-- A set of code points as ranges, each given by its first and its last code point. -/
abbrev CharTable := List (Nat × Nat)

/-- Whether a character is in the table. -/
def CharTable.contains (t : CharTable) (c : Char) : Bool :=
  t.any fun range => range.1 ≤ c.toNat && c.toNat ≤ range.2

end LossRecovery.Text
