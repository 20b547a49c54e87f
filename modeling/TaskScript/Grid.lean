import TaskScript.View
import Std.Data.ExtTreeMap
import Std.Data.ExtTreeSet

/-!
# Grids

A grid is the plainest world that can host executions: a box of cubes and some actors, in which
nothing moves by itself.  Requests are only written down, and an activity lasts until the grid is
told that it has finished.

## Contents
- `GridActor`, `Grid`, with the changes that can be made to a grid.
- `Grid.surroundings`: the grid as executions see it; `Grid.apply`: taking note of a request.
-/

namespace TaskScript

open Std

/-- An actor of a grid. -/
structure GridActor where
  group : GroupId
  position : Cube
  alive : Bool := true
  carrying : Bool := false
  /-- Whether a requested activity has not finished. -/
  busy : Bool := false
deriving DecidableEq, Repr

/-- A box of cubes from the origin up to a size along each axis, with its actors. -/
structure Grid where
  sizeX : Int32
  sizeY : Int32
  sizeZ : Int32
  terrain : ExtTreeMap Cube Terrain := ∅
  logs : ExtTreeSet Cube := ∅
  boulders : ExtTreeSet Cube := ∅
  actors : ExtTreeMap ActorId GridActor := ∅
  /-- The requests made so far, the oldest first. -/
  requests : Array Request := #[]

namespace Grid

variable (g : Grid)

/-- Puts an actor into the grid, in place of one of the same name. -/
def addActor (actor : ActorId) (group : GroupId) (position : Cube) : Grid :=
  { g with actors := g.actors.insert actor { group, position } }

/-- Fills a cube. -/
def setTerrain (c : Cube) (t : Terrain) : Grid :=
  { g with terrain := g.terrain.insert c t }

/-- Lays a log on a cube. -/
def placeLog (c : Cube) : Grid :=
  { g with logs := g.logs.insert c }

/-- Changes whether an actor carries something. -/
def setCarrying (actor : ActorId) (carrying : Bool) : Grid :=
  { g with actors := g.actors.modify actor ({ · with carrying }) }

/-- Ends an actor's life. -/
def kill (actor : ActorId) : Grid :=
  { g with actors := g.actors.modify actor ({ · with alive := false }) }

/-- Ends an actor's activity. -/
def finishActivity (actor : ActorId) : Grid :=
  { g with actors := g.actors.modify actor ({ · with busy := false }) }

/-- Whether a coordinate lies between zero and an exclusive bound. -/
def covers (bound coordinate : Int32) : Bool :=
  0 ≤ coordinate.toInt && coordinate.toInt < bound.toInt

/-- Whether a cube belongs to the grid. -/
def inBounds (c : Cube) : Bool :=
  covers g.sizeX c.x && covers g.sizeY c.y && covers g.sizeZ c.z

/-- The living actors in a cube, in ascending order. -/
def actorsAt (c : Cube) : List ActorId :=
  (g.actors.toList.filter fun (_, a) => a.alive && a.position == c).map (·.1)

/-- The grid as executions see it.  An actor that is not there has nothing to finish. -/
def surroundings : Surroundings where
  inBounds := g.inBounds
  terrain c := g.terrain[c]?.getD .air
  hasLog c := g.logs.contains c
  hasBoulder c := g.boulders.contains c
  actorsAt := g.actorsAt
  position? a := (g.actors[a]?.filter (·.alive)).map (·.position)
  group? a := g.actors[a]?.map (·.group)
  isAlive a := g.actors[a]?.any (·.alive)
  isCarrying a := g.actors[a]?.any (·.carrying)
  isFinished a := g.actors[a]?.all (!·.busy)

/-- The actor that a request is made to. -/
def performer : Request → ActorId
  | .moveTo actor _ | .work actor _ | .follow actor _ | .attack actor _ => actor

/-- Takes note of a request; its actor is busy from now on. -/
def apply (r : Request) : Grid :=
  { g with
    actors := g.actors.modify (performer r) ({ · with busy := true })
    requests := g.requests.push r }

end Grid

end TaskScript
