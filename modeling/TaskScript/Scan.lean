import TaskScript.Cube
import Std.Data.HashSet

/-!
# Nearest-match scan

A breadth-first search outwards from a cube.  Shell 0 is the cube itself, shell `k + 1` consists of
the cubes of the world next to a cube of shell `k` that no earlier shell holds.  Cubes are tested in
the order in which they are discovered, and the neighbours of a cube are discovered in the order of
`Offset.all`, right after the cube itself was tested.  So a search that ends early computes no
coordinate beyond the cubes it tested.

## Contents
- `Search`: the cubes discovered and tested so far; `Search.expand` adds the neighbours of a cube.
- `Search.sweep` tests one shell, `Search.shells` one shell after the other.
- `scan`: the whole search, with the cubes tested; `nearest?`: its result alone.
-/

namespace TaskScript

/-- The state of a search: the cubes discovered so far, those of them that make up the next shell,
and those already tested, both with the latest first. -/
structure Search where
  seen : Std.HashSet Cube
  next : List Cube
  tested : List Cube

namespace Search

/-- Takes note of a cube of the world, unless it is known already. -/
def discover (inBounds : Cube → Bool) (s : Search) (c : Cube) : Search :=
  if inBounds c && !s.seen.contains c then
    { s with seen := s.seen.insert c, next := c :: s.next }
  else s

/-- Takes note of the neighbours of a cube. -/
def expand (inBounds : Cube → Bool) (s : Search) (c : Cube) : Except Overflow Search :=
  Offset.all.foldlM (fun s o => return s.discover inBounds (← c.shifted o)) s

/-- Tests the cubes of a shell in order, each before its neighbours are computed. -/
def sweep (inBounds p : Cube → Bool) : List Cube → Search → Except Overflow (Option Cube × Search)
  | [], s => .ok (none, s)
  | c :: rest, s =>
    let s := { s with tested := c :: s.tested }
    if p c then .ok (some c, s)
    else do sweep inBounds p rest (← s.expand inBounds c)

/-- Tests one shell after the other, at most `n` of them. -/
def shells (inBounds p : Cube → Bool) :
    Nat → List Cube → Search → Except Overflow (Option Cube × Search)
  | 0, _, s => .ok (none, s)
  | n + 1, cubes, s => do
    let (found?, s) ← sweep inBounds p cubes { s with next := [] }
    if found?.isSome || s.next.isEmpty then return (found?, s)
    else shells inBounds p n s.next.reverse s

end Search

/-- The outcome of a search: the first cube that matched, and all cubes tested, in order. -/
structure Scan where
  found : Option Cube
  tested : List Cube
deriving DecidableEq, Repr

/-- How many cubes there are.  A search has no more shells than that, since none of them is empty
and no two share a cube. -/
def Cube.count : Nat := Nat.pow 2 96

/-- Searches the world outwards from `origin` for a cube that `p` accepts.  Nothing is tested when
`origin` lies outside the world. -/
def scan (inBounds p : Cube → Bool) (origin : Cube) : Except Overflow Scan :=
  if inBounds origin then do
    let (found, s) ← Search.shells inBounds p Cube.count [origin]
      { seen := Std.HashSet.emptyWithCapacity.insert origin, next := [], tested := [] }
    return { found, tested := s.tested.reverse }
  else .ok { found := none, tested := [] }

/-- The nearest cube of the world that `p` accepts, seen from `origin`. -/
def nearest? (inBounds p : Cube → Bool) (origin : Cube) : Except Overflow (Option Cube) :=
  return (← scan inBounds p origin).found

end TaskScript
