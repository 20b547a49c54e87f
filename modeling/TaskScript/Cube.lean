import Std.Data.ExtTreeSet

/-!
# Cubes

The cells of the world: integer coordinates in the signed 32-bit range, the Chebyshev metric on
them, the 26 neighbours of a cube in their fixed order, and the step that leads from one cube
towards another.

Arithmetic on coordinates is checked.  A sum or difference that leaves the 32-bit range is an
`Overflow`, a value of its own that callers have to handle; nothing wraps.

## Contents
- `Overflow` and checked coordinate arithmetic (`Coordinate.shift`, `Coordinate.difference`).
- `Cube`, its order (by `x`, then `y`, then `z`), `Cube.distance`, `Cube.isAdjacent`.
- `Offset.all`, `Cube.shifted`, `Cube.neighbours`, `Cube.stepTowards`.
-/

namespace TaskScript

open Std

/-- A coordinate left the signed 32-bit range, by an addition or by a subtraction. -/
inductive Overflow where
  | add
  | subtract
deriving DecidableEq, Repr

/-- The wording under which an overflow is reported. -/
def Overflow.message : Overflow → String
  | .add => "attempt to add with overflow"
  | .subtract => "attempt to subtract with overflow"

namespace Coordinate

/-- The coordinate of value `n`; there is none outside the 32-bit range. -/
def ofInt (cause : Overflow) (n : Int) : Except Overflow Int32 :=
  if -2147483648 ≤ n ∧ n ≤ 2147483647 then .ok (Int32.ofInt n) else .error cause

/-- A coordinate moved by `d`. -/
def shift (a : Int32) (d : Int) : Except Overflow Int32 :=
  ofInt .add (a.toInt + d)

/-- The way from `a` to `b` along one axis. -/
def difference (a b : Int32) : Except Overflow Int32 :=
  ofInt .subtract (b.toInt - a.toInt)

/-- How far apart two coordinates are. -/
def distance (a b : Int32) : Nat :=
  (a.toInt - b.toInt).natAbs

/-- One step along an axis from `a` towards `b`, which stays where it is when they are equal. -/
def stepTowards (a b : Int32) : Except Overflow Int32 := do
  shift a (← difference a b).toInt.sign

end Coordinate

/-- One cell of the world. -/
structure Cube where
  x : Int32
  y : Int32
  z : Int32
deriving DecidableEq, Hashable, Repr, Inhabited

/-- A direction to look in from a cube. -/
structure Offset where
  dx : Int
  dy : Int
  dz : Int
deriving DecidableEq, Repr

/-- The 26 directions, ordered by `dx`, then `dy`, then `dz`. -/
def Offset.all : List Offset :=
  [-1, 0, 1].flatMap fun dx =>
    [-1, 0, 1].flatMap fun dy =>
      [-1, 0, 1].filterMap fun dz =>
        if dx = 0 ∧ dy = 0 ∧ dz = 0 then none else some ⟨dx, dy, dz⟩

namespace Cube

/-- Cubes are ordered by `x`, then `y`, then `z`. -/
instance : Ord Cube where
  compare := compareLex (compareOn Cube.x) (compareLex (compareOn Cube.y) (compareOn Cube.z))

instance : TransOrd Cube :=
  inferInstanceAs (TransCmp
    (compareLex (compareOn Cube.x) (compareLex (compareOn Cube.y) (compareOn Cube.z))))

instance : LawfulEqOrd Cube where
  eq_of_compare {a b} h := by
    have key : compareLex (compareOn Cube.x) (compareLex (compareOn Cube.y) (compareOn Cube.z)) a b
        = .eq := h
    simp only [compareLex, compareOn, Ordering.then_eq_eq, LawfulEqOrd.compare_eq_iff_eq] at key
    obtain ⟨hx, hy, hz⟩ := key
    cases a
    cases b
    simp_all

/-- How a cube is written: its coordinates in parentheses. -/
instance : ToString Cube where
  toString c := s!"({c.x.toInt}, {c.y.toInt}, {c.z.toInt})"

/-- The largest distance along an axis: the number of steps between two cubes when diagonal steps
are allowed. -/
def distance (a b : Cube) : Nat :=
  max (max (Coordinate.distance a.x b.x) (Coordinate.distance a.y b.y))
    (Coordinate.distance a.z b.z)

/-- The same cube, or one of its 26 neighbours. -/
def isAdjacent (a b : Cube) : Bool :=
  a.distance b ≤ 1

/-- The cube in the given direction.  The coordinates are computed in the order `x`, `y`, `z`. -/
def shifted (c : Cube) (o : Offset) : Except Overflow Cube := do
  let x ← Coordinate.shift c.x o.dx
  let y ← Coordinate.shift c.y o.dy
  let z ← Coordinate.shift c.z o.dz
  return ⟨x, y, z⟩

/-- The 26 neighbours in the order of `Offset.all`, up to the first that does not exist. -/
def neighbours (c : Cube) : Except Overflow (List Cube) :=
  Offset.all.mapM c.shifted

/-- The first neighbour that `p` accepts.  Neighbours after it are not computed, so they may lie
outside the coordinate range. -/
def findNeighbour (c : Cube) (p : Cube → Bool) : Except Overflow (Option Cube) :=
  go Offset.all
where
  /-- The search through the directions that are left. -/
  go : List Offset → Except Overflow (Option Cube)
    | [] => .ok none
    | o :: rest => do
      let n ← c.shifted o
      if p n then return some n else go rest

/-- One step, diagonal if need be, from a cube towards another. -/
def stepTowards (c goal : Cube) : Except Overflow Cube := do
  let x ← Coordinate.stepTowards c.x goal.x
  let y ← Coordinate.stepTowards c.y goal.y
  let z ← Coordinate.stepTowards c.z goal.z
  return ⟨x, y, z⟩

end Cube

end TaskScript
