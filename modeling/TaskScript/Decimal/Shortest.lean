/-!
# The shortest decimal of a double

A finite float is written with the fewest decimal digits that read back as the same float, and of
those decimals with the one nearest to it.  The search is exact: the interval of numbers that round
to the float is scaled to naturals and tried on coarser and finer decimal grids.

## Contents
- `Scientific`: a decimal `digits · 10 ^ exponent`.
- `shortest`: the shortest decimal of `significand · 2 ^ exponent`.
- `Layout`: where positional notation ends; `Layout.render` writes a float under a layout.
-/

namespace TaskScript.Decimal

/-- The decimal `digits · 10 ^ exponent`. -/
structure Scientific where
  digits : Nat
  exponent : Int
deriving DecidableEq, Repr

/-- The numbers that round to a float, and the float itself, each over the denominator
`denominator`.  The ends belong to the interval when `closed`. -/
structure Interval where
  low : Nat
  value : Nat
  high : Nat
  denominator : Nat
  closed : Bool

namespace Interval

/-- Whether `n / denominator` lies in the interval. -/
def contains (i : Interval) (n : Nat) : Bool :=
  if i.closed then i.low ≤ n && n ≤ i.high else i.low < n && n < i.high

/-- The interval of the float `significand · 2 ^ exponent`, in quarters of a unit of its last place.
Below a power of two the floats lie twice as close, so there the lower half is halved. -/
def ofFloat (significand : Nat) (exponent : Int) : Interval :=
  let atPower := significand = Nat.pow 2 52 ∧ -1074 < exponent
  let low := 4 * significand - (if atPower then 1 else 2)
  let scale := fun n => if 2 ≤ exponent then n <<< (exponent - 2).toNat else n
  { low := scale low
    value := scale (4 * significand)
    high := scale (4 * significand + 2)
    denominator := if 2 ≤ exponent then 1 else 1 <<< (2 - exponent).toNat
    closed := significand % 2 == 0 }

/-- The point of the grid `10 ^ exponent` in the interval, if one of the value's two neighbours on
the grid lies there.  Of two, the nearer is taken, and the even one at a tie. -/
def gridPoint? (i : Interval) (exponent : Int) : Option Scientific :=
  let (value, unit) :=
    if 0 ≤ exponent then (i.value, i.denominator * Nat.pow 10 exponent.toNat)
    else (i.value * Nat.pow 10 (-exponent).toNat, i.denominator)
  let scaled : Interval :=
    if 0 ≤ exponent then i
    else
      { i with
        low := i.low * Nat.pow 10 (-exponent).toNat
        high := i.high * Nat.pow 10 (-exponent).toNat }
  let below := value / unit
  let above := below + 1
  match below != 0 && scaled.contains (below * unit), scaled.contains (above * unit) with
  | true, true =>
    let toBelow := value - below * unit
    let toAbove := above * unit - value
    let digits :=
      if toBelow < toAbove ∨ (toBelow = toAbove ∧ below % 2 = 0) then below else above
    some ⟨digits, exponent⟩
  | true, false => some ⟨below, exponent⟩
  | false, true => some ⟨above, exponent⟩
  | false, false => none

end Interval

/-- The first grid with a point in the interval, from `10 ^ exponent` downwards. -/
def firstGrid (i : Interval) : Nat → Int → Scientific
  | 0, exponent => ⟨0, exponent⟩
  | steps + 1, exponent => (i.gridPoint? exponent).getD (firstGrid i steps (exponent - 1))

/-- The shortest decimal that reads back as the positive float `significand · 2 ^ exponent`.  No
float reaches `10 ^ 309`, and every float has a point on the grid `10 ^ -325`. -/
def shortest (significand : Nat) (exponent : Int) : Scientific :=
  firstGrid (.ofFloat significand exponent) 640 309

/-- How floats are laid out.  `positionalBelow` bounds the count of digits before the point, and
`leadingZeros` that of zeros after it, up to which no exponent is written. -/
structure Layout where
  positionalBelow : Int
  leadingZeros : Int

namespace Layout

/-- A run of zeros. -/
def zeros (n : Int) : String :=
  String.ofList (List.replicate n.toNat '0')

/-- Writes a decimal.  An integral value keeps one digit after the point; an exponent has a sign and
no padding, and the mantissa before it has a point only with digits after. -/
def renderDecimal (layout : Layout) (d : Scientific) : String :=
  let digits := Nat.toDigits 10 d.digits
  let text := String.ofList digits
  let point : Int := digits.length + d.exponent
  if 0 ≤ d.exponent ∧ point ≤ layout.positionalBelow then
    text ++ zeros d.exponent ++ ".0"
  else if 0 < point ∧ point ≤ layout.positionalBelow then
    String.ofList (digits.take point.toNat) ++ "." ++ String.ofList (digits.drop point.toNat)
  else if -layout.leadingZeros ≤ point ∧ point ≤ 0 then
    "0." ++ zeros (-point) ++ text
  else
    let fraction := String.ofList (digits.drop 1)
    let mantissa := String.ofList (digits.take 1) ++ (if fraction.isEmpty then "" else "." ++ fraction)
    mantissa ++ "e" ++ (if 0 < point then "+" else "") ++ toString (point - 1)

/-- Writes a finite float. -/
def render (layout : Layout) (x : Float) : String :=
  let bits := x.toBits.toNat
  let sign := if bits / Nat.pow 2 63 = 1 then "-" else ""
  let field : Nat := bits / Nat.pow 2 52 % Nat.pow 2 11
  let fraction : Nat := bits % Nat.pow 2 52
  if field = 0 ∧ fraction = 0 then sign ++ "0.0"
  else if field = 0 then sign ++ layout.renderDecimal (shortest fraction (-1074))
  else sign ++ layout.renderDecimal (shortest (Nat.pow 2 52 + fraction) ((field : Int) - 1075))

end Layout

end TaskScript.Decimal
