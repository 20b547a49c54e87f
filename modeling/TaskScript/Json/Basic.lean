import TaskScript.Decimal.Nearest

/-!
# JSON values

The tree of a JSON text, as documents are read from it and written to it.  Integers and floats are
told apart, and the members of an object keep the order and the repetitions of the text, because
both decide whether a document is accepted.

## Contents
- `Json`, and `Json.isReadable`: every part of it has a value.
- Scalars: `toBool?`, `toString?`, `toUInt64?` and the like refuse every other kind of value and
  every number out of range; `toFloat?` accepts any number.
- `Field` and `Json.record?`: a record with named fields, given as an object or as an array.
- `Json.canonical`: one member per key, sorted by key.
-/

namespace TaskScript

/-- A JSON value.

`unreadable` stands for a part of a text that is well-formed but has no value: a number beyond the
largest float, a string with half a surrogate pair, or an array or object nested too deeply.  A
document is refused when it reads such a part, and accepted when the part sits in a field that
nobody reads. -/
inductive Json where
  | null
  | bool (value : Bool)
  | int (value : Int)
  | float (value : Float)
  | str (value : String)
  | arr (items : List Json)
  | obj (members : List (String × Json))
  | unreadable
deriving Repr, Inhabited

namespace Json

/-! ## Readability -/

mutual

/-- Every part of the value has a value. -/
def isReadable : Json → Bool
  | .unreadable => false
  | .arr items => areReadable items
  | .obj members => areMembersReadable members
  | .null | .bool _ | .int _ | .float _ | .str _ => true

/-- Every item is readable. -/
def areReadable : List Json → Bool
  | [] => true
  | item :: rest => item.isReadable && areReadable rest

/-- The value of every member is readable. -/
def areMembersReadable : List (String × Json) → Bool
  | [] => true
  | (_, value) :: rest => value.isReadable && areMembersReadable rest

end

/-! ## Scalars -/

/-- A truth value. -/
def toBool? : Json → Option Bool
  | .bool b => some b
  | _ => none

/-- A string. -/
def toString? : Json → Option String
  | .str s => some s
  | _ => none

/-- An integer from `low` to `high`. -/
def toIntWithin? (low high : Int) : Json → Option Int
  | .int n => if low ≤ n ∧ n ≤ high then some n else none
  | _ => none

/-- A signed 32-bit integer. -/
def toInt32? (j : Json) : Option Int32 :=
  (j.toIntWithin? (-2147483648) 2147483647).map Int32.ofInt

/-- A signed 64-bit integer. -/
def toInt64? (j : Json) : Option Int64 :=
  (j.toIntWithin? (-9223372036854775808) 9223372036854775807).map Int64.ofInt

/-- An unsigned 32-bit integer. -/
def toUInt32? (j : Json) : Option UInt32 :=
  (j.toIntWithin? 0 4294967295).map fun n => n.toNat.toUInt32

/-- An unsigned 64-bit integer. -/
def toUInt64? (j : Json) : Option UInt64 :=
  (j.toIntWithin? 0 18446744073709551615).map fun n => n.toNat.toUInt64

/-- A number, an integer being rounded to the nearest float. -/
def toFloat? : Json → Option Float
  | .float x => some x
  | .int n => Decimal.ofInt? n
  | _ => none

/-- An array, every item read by `read`. -/
def toList? {α : Type} (read : Json → Option α) : Json → Option (List α)
  | .arr items => items.mapM read
  | _ => none

/-- A value that may be `null`. -/
def toOption? {α : Type} (read : Json → Option α) : Json → Option (Option α)
  | .null => some none
  | j => (read j).map some

/-! ## Records -/

/-- When a record may leave one of its fields out: never, in an object only, or in an object and,
as one of the last entries, in an array. -/
inductive Presence where
  | required
  | optional
  | defaulted
deriving DecidableEq, Repr

/-- A field of a record. -/
structure Field where
  name : String
  presence : Presence := .required

/-- The value of a field in an object, `none` when it is left out.  A field given twice is refused;
members of other names are not looked at. -/
def Field.lookup? (field : Field) (members : List (String × Json)) : Option (Option Json) :=
  match members.filter (·.1 == field.name) with
  | [] => if field.presence = .required then none else some none
  | [(_, value)] => some (some value)
  | _ :: _ :: _ => none

/-- The values of the fields of a record given as an array: its entries in the order of the fields,
and no more of them than there are fields. -/
def positional? : List Field → List Json → Option (List (Option Json))
  | [], [] => some []
  | [], _ :: _ => none
  | field :: fields, [] =>
    if field.presence = .defaulted then (positional? fields []).map (none :: ·) else none
  | _ :: fields, item :: items => (positional? fields items).map (some item :: ·)

/-- The values of the fields of a record, in the order of `fields`. -/
def record? (fields : List Field) : Json → Option (List (Option Json))
  | .obj members => fields.mapM (·.lookup? members)
  | .arr items => positional? fields items
  | _ => none

/-! ## Canonical form -/

/-- Puts a member into a list sorted by key, in place of a member of the same key. -/
def insertMember (key : String) (value : Json) : List (String × Json) → List (String × Json)
  | [] => [(key, value)]
  | (k, v) :: rest =>
    if key < k then (key, value) :: (k, v) :: rest
    else if key = k then (key, value) :: rest
    else (k, v) :: insertMember key value rest

mutual

/-- The value with every object sorted by key, the last of several members of one key standing. -/
def canonical : Json → Json
  | .arr items => .arr (canonicalItems items)
  | .obj members =>
    .obj ((canonicalMembers members).foldl (fun sorted m => insertMember m.1 m.2 sorted) [])
  | j => j

/-- The canonical forms of the items of an array. -/
def canonicalItems : List Json → List Json
  | [] => []
  | item :: rest => item.canonical :: canonicalItems rest

/-- The members of an object, each with its value in canonical form. -/
def canonicalMembers : List (String × Json) → List (String × Json)
  | [] => []
  | (key, value) :: rest => (key, value.canonical) :: canonicalMembers rest

end

end Json

end TaskScript
