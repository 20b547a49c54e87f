import TaskScript.Decimal.Nearest

/-!
# Reading a decimal in float arithmetic

The quick way to a float: a 64-bit significand, rounded to a float, is multiplied or divided by a
power of ten, and every one of these operations rounds.  The result can lie a few units of the last
place beside the nearest float; where the significand and the power of ten are both exact floats, the
two agree.

A significand takes digits as long as it fits 64 bits.  Of the digits before the point, those after
the first one left out only shift the rest; the digits after the point are then taken in turn, again
up to the first one that does not fit.

## Contents
- `appendDigits`: takes as many digits as fit.
- `scale?`: a float times a power of ten.
- `stepwise?`: the float that a numeral is read as.
-/

namespace TaskScript.Decimal

/-- The number that a run of decimal digits denotes. -/
def digitsValue (digits : List Nat) : Nat :=
  digits.foldl (fun n d => 10 * n + d) 0

/-- Appends digits to a significand, up to the first one with which it would not fit 64 bits any
more.  Returns the significand and how many digits were appended. -/
def appendDigits (significand : Nat) : List Nat → Nat × Nat
  | [] => (significand, 0)
  | d :: rest =>
    let longer := 10 * significand + d
    if longer < 18446744073709551616 then
      let (longest, count) := appendDigits longer rest
      (longest, count + 1)
    else (significand, 0)

/-- The greatest exponent of a power of ten that is a finite float. -/
def maxPower : Nat := 308

/-- The float nearest to `10 ^ n`, for `n` up to `maxPower`. -/
def powerOfTen (n : Nat) : Float :=
  (ofDecimal? false 1 n).getD 0.0

/-- `x / 10 ^ n`, by the greatest power of ten at a time.  Zero stays zero. -/
def scaleDown (x : Float) (n : Nat) : Float :=
  if n ≤ maxPower then x / powerOfTen n
  else if x == 0.0 then x
  else scaleDown (x / powerOfTen maxPower) (n - maxPower)
termination_by n
decreasing_by simp_all [maxPower]; omega

/-- `x · 10 ^ exponent` for a finite `x`, unless it lies beyond the largest float. -/
def scale? (x : Float) (exponent : Int) : Option Float :=
  if exponent < 0 then some (scaleDown x (-exponent).toNat)
  else if exponent ≤ maxPower then
    let y := x * powerOfTen exponent.toNat
    if y.isInf then none else some y
  else if x == 0.0 then some x
  else none

/-- The float that the numeral of the given digits before and after the point, times
`10 ^ exponent`, is read as, unless it comes out beyond the largest float. -/
def stepwise? (negative : Bool) (whole fraction : List Nat) (exponent : Int) : Option Float :=
  let (head, taken) := appendDigits 0 whole
  let (significand, added) := appendDigits head fraction
  let shift : Int := (whole.length - taken : Nat) - (added : Int)
  (scale? significand.toUInt64.toFloat (exponent + shift)).map fun x => if negative then -x else x

end TaskScript.Decimal
