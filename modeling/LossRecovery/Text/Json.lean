/-!
# `LossRecovery.Text.Json` — indented JSON

## Contents
- `jsonString`: a string between double quotes, escaped.
- `JsonValue`: numbers, strings, truth values and objects with ordered fields.
- `JsonValue.pretty`: the text of a value, one field a line, indented by two blanks a level.
-/

namespace LossRecovery.Text

/-- The escaped form of a character of a JSON string. -/
def jsonEscape (c : Char) : List Char :=
  if c = '"' then ['\\', '"']
  else if c = '\\' then ['\\', '\\']
  else if c = '\n' then ['\\', 'n']
  else if c = '\r' then ['\\', 'r']
  else if c = '\t' then ['\\', 't']
  else if c.toNat = 8 then ['\\', 'b']
  else if c.toNat = 12 then ['\\', 'f']
  else if c.toNat < 32 then
    let digits := Nat.toDigits 16 c.toNat
    ['\\', 'u'] ++ List.replicate (4 - digits.length) '0' ++ digits
  else [c]

/-- A string between double quotes, escaped. -/
def jsonString (s : String) : String :=
  String.ofList ('"' :: (s.toList.flatMap jsonEscape ++ ['"']))

/-- A JSON value whose objects keep the order of their fields. -/
inductive JsonValue where
  | number (n : Nat)
  | string (s : String)
  | bool (b : Bool)
  | object (fields : List (String × JsonValue))

namespace JsonValue

/-- A line end followed by the indentation of a level. -/
def newline (level : Nat) : String := "\n" ++ String.ofList (List.replicate (2 * level) ' ')

mutual

/-- The text of a value that stands at a level of indentation. -/
def render (level : Nat) : JsonValue → String
  | number n => toString n
  | string s => jsonString s
  | bool b => toString b
  | object [] => "\x7b\x7d"
  | object (field :: rest) =>
    "\x7b" ++ renderField (level + 1) field ++ renderRest (level + 1) rest ++ newline level
      ++ "\x7d"

/-- The text of a field on a line of its own. -/
def renderField (level : Nat) : String × JsonValue → String
  | (name, value) => newline level ++ jsonString name ++ ": " ++ render level value

/-- The text of the fields after the first one. -/
def renderRest (level : Nat) : List (String × JsonValue) → String
  | [] => ""
  | field :: rest => "," ++ renderField level field ++ renderRest level rest

end

/-- The indented text of a value. -/
def pretty (v : JsonValue) : String := render 0 v

end JsonValue

end LossRecovery.Text
