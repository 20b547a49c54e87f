import TaskScript.Json.Basic
import TaskScript.Decimal.Shortest

/-!
# Writing JSON

The compact text of a JSON value: no blanks, members in the order of the value, strings escaped
only where JSON demands it, floats with their shortest digits.

## Contents
- `Json.quote`: a string in quotes.
- `Json.numberLayout`: where floats are written with an exponent.
- `Json.render`: the text of a value.
-/

namespace TaskScript.Json

/-- The two lower-case hexadecimal digits of a number below 256. -/
def hexByte (n : Nat) : String :=
  String.ofList [Nat.digitChar (n / 16), Nat.digitChar (n % 16)]

/-- A character inside quotes: quote, backslash and control characters are escaped. -/
def escape (c : Char) : String :=
  if c = '"' then "\\\""
  else if c = '\\' then "\\\\"
  else if c = '\x08' then "\\b"
  else if c = '\x0c' then "\\f"
  else if c = '\n' then "\\n"
  else if c = '\r' then "\\r"
  else if c = '\t' then "\\t"
  else if c < ' ' then "\\u00" ++ hexByte c.toNat
  else c.toString

/-- A string in quotes. -/
def quote (s : String) : String :=
  "\"" ++ String.join (s.toList.map escape) ++ "\""

/-- Floats are positional up to 16 digits before the point and up to four zeros after it. -/
def numberLayout : Decimal.Layout where
  positionalBelow := 16
  leadingZeros := 4

mutual

/-- The compact text of a value.  A part without a value is written like `null`. -/
def render : Json → String
  | .null | .unreadable => "null"
  | .bool b => if b then "true" else "false"
  | .int n => toString n
  | .float x => numberLayout.render x
  | .str s => quote s
  | .arr items => "[" ++ String.intercalate "," (renderItems items) ++ "]"
  | .obj members => "\x7b" ++ String.intercalate "," (renderMembers members) ++ "\x7d"

/-- The texts of the items of an array. -/
def renderItems : List Json → List String
  | [] => []
  | item :: rest => item.render :: renderItems rest

/-- The texts of the members of an object. -/
def renderMembers : List (String × Json) → List String
  | [] => []
  | (key, value) :: rest => (quote key ++ ":" ++ value.render) :: renderMembers rest

end

end TaskScript.Json
