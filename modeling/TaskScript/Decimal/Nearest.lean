/-!
# The double nearest to a decimal

Reading a decimal numeral rounds its exact value once, to the nearest 64-bit float, a tie going to
the float with an even significand.  The rounding is done on naturals; only the finished bit
pattern becomes a `Float`.

## Contents
- `roundHalfEven`: the nearest natural to a quotient.
- `nearestBits?`: the bit pattern of the float nearest to a positive quotient.
- `ofDecimal?`: the float nearest to `± digits · 10 ^ exponent`.
-/

namespace TaskScript.Decimal

/-- The natural nearest to `num / den`; a half goes to the even neighbour. -/
def roundHalfEven (num den : Nat) : Nat :=
  let quotient := num / den
  let rest := num % den
  if 2 * rest < den ∨ (2 * rest = den ∧ quotient % 2 = 0) then quotient else quotient + 1

/-- `num / den · 2 ^ shift`, rounded to a natural. -/
def roundScaled (num den : Nat) (shift : Int) : Nat :=
  if 0 ≤ shift then roundHalfEven (num <<< shift.toNat) den
  else roundHalfEven num (den <<< (-shift).toNat)

/-- Whether `2 ^ e ≤ num / den`. -/
def powerLeQuotient (e : Int) (num den : Nat) : Bool :=
  if 0 ≤ e then den <<< e.toNat ≤ num else den ≤ num <<< (-e).toNat

/-- The bit pattern of the finite float nearest to the positive quotient `num / den`; there is none
when the quotient rounds past the largest one.

The unit of the last place is `2 ^ unit`.  The significand `m` counts units, and the exponent field
is one less than that of a float with a hidden bit, so the hidden bit of `m` carries into it; a
subnormal has no hidden bit and needs no carry, and a significand rounded up to a power of two
carries into the next exponent by itself. -/
def nearestBits? (num den : Nat) : Option UInt64 :=
  let guess : Int := (num.log2 : Int) - (den.log2 : Int)
  let exponent := if powerLeQuotient guess num den then guess else guess - 1
  let unit := max exponent (-1022) - 52
  let bits := (unit + 1074).toNat <<< 52 + roundScaled num den (-unit)
  if bits < 0x7FF0000000000000 then some bits.toUInt64 else none

/-- How many decimal digits `n` has; zero has none. -/
def digitCount (n : Nat) : Nat :=
  if n = 0 then 0 else (Nat.toDigits 10 n).length

/-- The float nearest to `± digits · 10 ^ exponent`, unless it lies beyond the largest float.
Exponents far outside the range of floats are decided before any power is formed. -/
def ofDecimal? (negative : Bool) (digits : Nat) (exponent : Int) : Option Float :=
  let size := (digitCount digits : Int) + exponent
  let magnitude? : Option UInt64 :=
    if digits = 0 ∨ size < -330 then some 0
    else if 310 < size then none
    else if 0 ≤ exponent then nearestBits? (digits * Nat.pow 10 exponent.toNat) 1
    else nearestBits? digits (Nat.pow 10 (-exponent).toNat)
  magnitude?.map fun bits => Float.ofBits (if negative then bits ||| 0x8000000000000000 else bits)

/-- The float nearest to an integer, unless it lies beyond the largest float. -/
def ofInt? (n : Int) : Option Float :=
  ofDecimal? (n < 0) n.natAbs 0

end TaskScript.Decimal
