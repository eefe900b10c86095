import LossRecovery.Text.DefaultIgnorable
import LossRecovery.Text.ExtendingMark
import LossRecovery.Text.Unprintable

/-!
# `LossRecovery.Text.Quoted` — quoted strings

A text inside a message stands between double quotes. Quotes and backslashes are escaped, tabs, line
ends and the zero character have short escapes. Every other character that cannot be seen by itself
is written by its code point in lower-case hexadecimal.

## Contents
- `isVisible`: whether a character can be seen by itself.
- `escape`: the escaped form of one character.
- `quoted`: the quoted form of a string.
-/

namespace LossRecovery.Text

/-- Whether a character has a shape and does not merge with the character before it. -/
def isVisible (c : Char) : Bool :=
  !unprintable.contains c && !extendingMark.contains c && !defaultIgnorable.contains c

/-- The escaped form of a character. -/
def escape (c : Char) : List Char :=
  if c = '"' then ['\\', '"']
  else if c = '\\' then ['\\', '\\']
  else if c = '\n' then ['\\', 'n']
  else if c = '\r' then ['\\', 'r']
  else if c = '\t' then ['\\', 't']
  else if c.toNat = 0 then ['\\', '0']
  else if isVisible c then [c]
  else ['\\', 'u', '\x7b'] ++ Nat.toDigits 16 c.toNat ++ ['\x7d']

/-- A string between double quotes, escaped. -/
def quoted (s : String) : String :=
  String.ofList ('"' :: (s.toList.flatMap escape ++ ['"']))

end LossRecovery.Text
