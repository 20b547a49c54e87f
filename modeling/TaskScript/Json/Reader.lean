import TaskScript.Json.Basic
import TaskScript.Decimal.Stepwise

/-!
# Reading JSON

A strict reader for JSON texts: no comments, no trailing commas, no leading zeros, no raw control
characters in strings, and nothing but blanks around the value.

A number without fraction and exponent is an integer when it fits 64 bits, signed or unsigned, and
a float otherwise; `-0` is a float, because no integer keeps its sign.  How a float is rounded and
how deep a value may be nested are rules that the caller chooses.

## Contents
- `Rounding`: the two ways to a float; `Rules`: what the caller chooses, with the rules of documents
  and those that take every value exactly.
- `Numeral` and `Numeral.ofChars?`: the grammar of numbers; `Numeral.toJson`: their values.
- `StringBuffer`: joins the halves of surrogate pairs; `string?` reads to the closing quote.
- `value?`: reads one value, the fuel bounding the nesting of calls.
- `Json.parseWith?`: reads a whole text; `Json.parse?`: reads that of a document.
-/

namespace TaskScript.Json

/-- How a number that is no integer becomes a float. -/
inductive Rounding where
  /-- The exact value is rounded once. -/
  | nearest
  /-- Float arithmetic, every operation of which rounds. -/
  | stepwise
deriving DecidableEq, Repr

/-- What is left open by the grammar: how floats are rounded, and how many arrays and objects may be
nested, if there is a limit. -/
structure Rules where
  rounding : Rounding
  maxDepth? : Option Nat
deriving DecidableEq, Repr

namespace Rules

/-- The rules of documents, whose floats are quick to read and whose nesting is bounded. -/
def document : Rules := { rounding := .stepwise, maxDepth? := some 127 }

/-- The rules by which a value is what its text says, however deep it is. -/
def exact : Rules := { rounding := .nearest, maxDepth? := none }

end Rules

namespace Reader

/-- The four blanks of JSON. -/
def isBlank (c : Char) : Bool :=
  c == ' ' || c == '\t' || c == '\n' || c == '\r'

/-- The text from its first character that is no blank. -/
def skipBlanks (text : List Char) : List Char :=
  text.dropWhile isBlank

/-! ## Numbers -/

/-- A number as it is written: the digits before and after its point, and its exponent.  Only a
number without a point has no digits after it. -/
structure Numeral where
  negative : Bool
  whole : List Nat
  fraction : List Nat
  exponent : Option Int

/-- The values of decimal digits. -/
def digits (text : List Char) : List Nat :=
  text.map fun c => c.toNat - '0'.toNat

namespace Numeral

/-- Reads a fraction, if there is one: its digits, and the rest of the text. -/
def fraction? : List Char → Option (List Char × List Char)
  | '.' :: text =>
    match text.span Char.isDigit with
    | ([], _) => none
    | (run, rest) => some (run, rest)
  | text => some ([], text)

/-- Reads the digits of an exponent after its sign. -/
def exponentDigits? (negative : Bool) (text : List Char) : Option (Option Int × List Char) :=
  match text.span Char.isDigit with
  | ([], _) => none
  | (run, rest) =>
    let n : Int := Decimal.digitsValue (digits run)
    some (some (if negative then -n else n), rest)

/-- Reads an exponent, if there is one. -/
def exponent? : List Char → Option (Option Int × List Char)
  | c :: text =>
    if c == 'e' || c == 'E' then
      match text with
      | '+' :: rest => exponentDigits? false rest
      | '-' :: rest => exponentDigits? true rest
      | _ => exponentDigits? false text
    else some (none, c :: text)
  | [] => some (none, [])

/-- Reads a number. -/
def ofChars? (text : List Char) : Option (Numeral × List Char) := do
  let (negative, text) := match text with
    | '-' :: rest => (true, rest)
    | _ => (false, text)
  let (whole, text) := text.span Char.isDigit
  guard (whole ≠ [] ∧ (whole.head? ≠ some '0' ∨ whole.length = 1))
  let (fraction, text) ← fraction? text
  let (exponent, rest) ← exponent? text
  return ({ negative, whole := digits whole, fraction := digits fraction, exponent }, rest)

/-- Whether a number is written without fraction and exponent. -/
def isIntegral (n : Numeral) : Bool :=
  n.fraction.isEmpty && n.exponent.isNone

/-- The float that a number is read as, unless it lies beyond the largest one. -/
def toFloat? (rounding : Rounding) (n : Numeral) : Option Float :=
  let exponent := n.exponent.getD 0
  match rounding with
  | .nearest =>
    Decimal.ofDecimal? n.negative (Decimal.digitsValue (n.whole ++ n.fraction))
      (exponent - n.fraction.length)
  | .stepwise => Decimal.stepwise? n.negative n.whole n.fraction exponent

/-- The value of a number. -/
def toJson (rounding : Rounding) (n : Numeral) : Json :=
  let magnitude := Decimal.digitsValue n.whole
  let value : Int := if n.negative then -magnitude else magnitude
  if n.isIntegral ∧ ¬(n.negative ∧ magnitude = 0) ∧ -9223372036854775808 ≤ value
      ∧ value ≤ 18446744073709551615 then
    .int value
  else
    match n.toFloat? rounding with
    | some x => .float x
    | none => .unreadable

end Numeral

/-! ## Strings -/

/-- A string being read: its characters so far in reverse, a first half of a surrogate pair that
still waits for its second, and whether all halves have met so far. -/
structure StringBuffer where
  reversed : List Char := []
  firstHalf? : Option Nat := none
  isReadable : Bool := true

namespace StringBuffer

/-- Appends a character, which leaves a waiting first half alone for good. -/
def push (b : StringBuffer) (c : Char) : StringBuffer :=
  { reversed := c :: b.reversed
    firstHalf? := none
    isReadable := b.isReadable && b.firstHalf?.isNone }

/-- Appends a 16-bit unit given by its code. -/
def pushUnit (b : StringBuffer) (unit : Nat) : StringBuffer :=
  if 0xD800 ≤ unit ∧ unit < 0xDC00 then
    { b with firstHalf? := some unit, isReadable := b.isReadable && b.firstHalf?.isNone }
  else if 0xDC00 ≤ unit ∧ unit < 0xE000 then
    match b.firstHalf? with
    | some first =>
      { b with
        reversed := Char.ofNat (0x10000 + (first - 0xD800) * 0x400 + (unit - 0xDC00)) :: b.reversed
        firstHalf? := none }
    | none => { b with isReadable := false }
  else b.push (Char.ofNat unit)

/-- The finished string, as a value. -/
def toString? (b : StringBuffer) : Option String :=
  if b.isReadable ∧ b.firstHalf?.isNone then some (String.ofList b.reversed.reverse) else none

end StringBuffer

/-- The value of a hexadecimal digit. -/
def hexDigit? (c : Char) : Option Nat :=
  if '0' ≤ c ∧ c ≤ '9' then some (c.toNat - '0'.toNat)
  else if 'a' ≤ c ∧ c ≤ 'f' then some (c.toNat - 'a'.toNat + 10)
  else if 'A' ≤ c ∧ c ≤ 'F' then some (c.toNat - 'A'.toNat + 10)
  else none

/-- The value of four hexadecimal digits. -/
def hexUnit? (a b c d : Char) : Option Nat := do
  return (((← hexDigit? a) * 16 + (← hexDigit? b)) * 16 + (← hexDigit? c)) * 16 + (← hexDigit? d)

/-- The character that a one-letter escape stands for. -/
def escaped? : Char → Option Char
  | '"' => some '"'
  | '\\' => some '\\'
  | '/' => some '/'
  | 'b' => some '\x08'
  | 'f' => some '\x0c'
  | 'n' => some '\n'
  | 'r' => some '\r'
  | 't' => some '\t'
  | _ => none

/-- Reads the rest of a string up to its closing quote. -/
def string? (b : StringBuffer) : List Char → Option (Option String × List Char)
  | '"' :: rest => some (b.toString?, rest)
  | '\\' :: 'u' :: h₁ :: h₂ :: h₃ :: h₄ :: rest =>
    match hexUnit? h₁ h₂ h₃ h₄ with
    | some unit => string? (b.pushUnit unit) rest
    | none => none
  | '\\' :: c :: rest =>
    match escaped? c with
    | some c => string? (b.push c) rest
    | none => none
  | c :: rest => if c < ' ' then none else string? (b.push c) rest
  | [] => none

/-! ## Values -/

/-- An array or object that `depth` others enclose. -/
def nested (rules : Rules) (depth : Nat) (j : Json) : Json :=
  if rules.maxDepth?.all (depth < ·) then j else .unreadable

/-- An object, unless one of its keys has no value. -/
def objectOf (members : List (Option String × Json)) : Json :=
  match members.mapM fun (key?, value) => key?.map (·, value) with
  | some members => .obj members
  | none => .unreadable

variable (rules : Rules)

mutual

/-- Reads one value that `depth` arrays and objects enclose. -/
def value? : Nat → Nat → List Char → Option (Json × List Char)
  | 0, _, _ => none
  | fuel + 1, depth, text =>
    match skipBlanks text with
    | 'n' :: 'u' :: 'l' :: 'l' :: rest => some (.null, rest)
    | 't' :: 'r' :: 'u' :: 'e' :: rest => some (.bool true, rest)
    | 'f' :: 'a' :: 'l' :: 's' :: 'e' :: rest => some (.bool false, rest)
    | '"' :: text => do
      let (s, rest) ← string? {} text
      return ((s.map Json.str).getD .unreadable, rest)
    | '[' :: text =>
      match skipBlanks text with
      | ']' :: rest => some (nested rules depth (.arr []), rest)
      | text => do
        let (items, rest) ← items? fuel (depth + 1) text
        return (nested rules depth (.arr items), rest)
    | '\x7b' :: text =>
      match skipBlanks text with
      | '\x7d' :: rest => some (nested rules depth (.obj []), rest)
      | text => do
        let (members, rest) ← members? fuel (depth + 1) text
        return (nested rules depth (objectOf members), rest)
    | text => do
      let (n, rest) ← Numeral.ofChars? text
      return (n.toJson rules.rounding, rest)

/-- Reads the items of an array up to its closing bracket; there is at least one. -/
def items? : Nat → Nat → List Char → Option (List Json × List Char)
  | 0, _, _ => none
  | fuel + 1, depth, text => do
    let (item, text) ← value? fuel depth text
    match skipBlanks text with
    | ',' :: text =>
      let (items, rest) ← items? fuel depth text
      return (item :: items, rest)
    | ']' :: rest => return ([item], rest)
    | _ => none

/-- Reads the members of an object up to its closing brace; there is at least one. -/
def members? : Nat → Nat → List Char → Option (List (Option String × Json) × List Char)
  | 0, _, _ => none
  | fuel + 1, depth, text => do
    let '"' :: text := skipBlanks text | none
    let (key, text) ← string? {} text
    let ':' :: text := skipBlanks text | none
    let (value, text) ← value? fuel depth text
    match skipBlanks text with
    | ',' :: text =>
      let (members, rest) ← members? fuel depth text
      return ((key, value) :: members, rest)
    | '\x7d' :: rest => return ([(key, value)], rest)
    | _ => none

end

end Reader

/-- Reads a JSON text.  Every call of the reader but every other one takes a character off the text,
so its length twice over bounds their nesting. -/
def parseWith? (rules : Rules) (text : String) : Option Json :=
  let chars := text.toList
  match Reader.value? rules (2 * chars.length + 2) 0 chars with
  | some (j, rest) => if Reader.skipBlanks rest = [] then some j else none
  | none => none

/-- Reads the JSON text of a document. -/
def parse? (text : String) : Option Json :=
  parseWith? .document text

end TaskScript.Json
