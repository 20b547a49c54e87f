import TaskScript.Cube

/-!
# Configuration

The settings of a sandbox world: its extent, how long activities take, and how many steps a program
may take in a tick.

## Contents
- `Extent`, `Extent.contains`: the cubes from the origin up to the extent along each axis.
- `Timings`, `Config`, with the settings that stand where a document gives none.
-/

namespace TaskScript

/-- The size of a world along its three axes. -/
structure Extent where
  x : UInt32
  y : UInt32
  z : UInt32
deriving DecidableEq, Repr

namespace Extent

/-- Whether a coordinate lies between zero and an exclusive bound. -/
def covers (bound : UInt32) (coordinate : Int32) : Bool :=
  0 ≤ coordinate.toInt && coordinate.toInt < bound.toNat

/-- Whether a cube lies in a world of this size. -/
def contains (e : Extent) (c : Cube) : Bool :=
  covers e.x c.x && covers e.y c.y && covers e.z c.z

end Extent

/-- How many seconds activities take. -/
structure Timings where
  moveSecondsPerCube : Float := 0.5
  workSeconds : Float := 2.0
  attackSeconds : Float := 1.0
deriving Repr

/-- The settings of a world. -/
structure Config where
  schemaVersion : String := "1.0"
  worldSize : Extent := ⟨16, 16, 16⟩
  /-- How many steps a program may take in a tick. -/
  maxStepsPerTick : UInt32 := 10000
  timings : Timings := {}
deriving Repr

end TaskScript
