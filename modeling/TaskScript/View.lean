import TaskScript.Cube
import TaskScript.Id
import TaskScript.Terrain

/-!
# What a task sees of the world

Expressions and running programs never touch the world.  They read a `WorldView`, which answers
every question they may ask, and a program that wants its actor to do something returns a `Request`
for the owner of the world to carry out.

## Contents
- `WorldView` with the derived questions `isSolid`, `isPassable`, `isWorkshop`.
- `Surroundings`: a view that also tells whether an actor has finished its activity.
- `Request`: the activities that an actor can be asked for.
-/

namespace TaskScript

/-- The answers of a world at one moment. -/
structure WorldView where
  /-- Whether a cube belongs to the world. -/
  inBounds : Cube → Bool
  /-- What fills a cube of the world. -/
  terrain : Cube → Terrain
  hasLog : Cube → Bool
  hasBoulder : Cube → Bool
  /-- The living actors in a cube, in ascending order. -/
  actorsAt : Cube → List ActorId
  /-- Where a living actor stands. -/
  position? : ActorId → Option Cube
  /-- The group of an actor, dead or alive. -/
  group? : ActorId → Option GroupId
  isAlive : ActorId → Bool
  /-- Whether an actor, dead or alive, carries an item. -/
  isCarrying : ActorId → Bool

namespace WorldView

/-- What cannot be entered; everything outside the world counts. -/
def isSolid (view : WorldView) (c : Cube) : Bool :=
  !view.inBounds c || (view.terrain c).isSolid

/-- What can be entered. -/
def isPassable (view : WorldView) (c : Cube) : Bool :=
  view.inBounds c && !(view.terrain c).isSolid

/-- A workshop of the world. -/
def isWorkshop (view : WorldView) (c : Cube) : Bool :=
  view.inBounds c && view.terrain c == .workshop

end WorldView

/-- A view of the world together with its reports on activities. -/
structure Surroundings extends WorldView where
  /-- Whether an actor is done with the activity last requested of it. -/
  isFinished : ActorId → Bool

/-- An activity that a program asks its actor for.  It replaces whatever the actor was doing. -/
inductive Request where
  | moveTo (actor : ActorId) (target : Cube)
  | work (actor : ActorId) (target : Cube)
  | follow (actor : ActorId) (target : ActorId)
  | attack (actor : ActorId) (target : ActorId)
deriving DecidableEq, Repr

end TaskScript
