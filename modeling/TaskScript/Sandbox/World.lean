import TaskScript.Config
import TaskScript.View
import Std.Data.ExtTreeMap
import Std.Data.ExtTreeSet

/-!
# The state of a sandbox world

A bounded world of cubes with terrain, loose items and actors that carry out activities.

## Contents
- `Activity`, `ActorState`, `World`.
- `World.surroundings`: the world as executions see it.
- `World.updateActor`, `World.setActivity`, `World.clearActivity`, `World.kill`.
- `World.apply`: starts the activity that was requested.
-/

namespace TaskScript

open Std

/-- What an actor is busy with.  `credit` is the time saved up for the next step of a walk,
`remaining` the time that is left to spend. -/
inductive Activity where
  | idle
  | moving (target : Cube) (credit : Float)
  | working (target : Cube) (remaining : Float)
  | following (target : ActorId) (credit : Float)
  | attacking (target : ActorId) (remaining : Float)
deriving DecidableEq, Repr

namespace Activity

/-- Whether there is nothing that the actor is busy with. -/
def isIdle : Activity → Bool
  | .idle => true
  | _ => false

/-- The name of an activity. -/
def label : Activity → String
  | .idle => "idle"
  | .moving _ _ => "moving"
  | .working _ _ => "working"
  | .following _ _ => "following"
  | .attacking _ _ => "attacking"

end Activity

/-- An actor of the sandbox, dead or alive. -/
structure ActorState where
  group : GroupId
  position : Cube
  alive : Bool := true
  carrying : Option Item := none
  activity : Activity := .idle
deriving DecidableEq, Repr

/-- The physical side of the sandbox. -/
structure World where
  config : Config
  /-- What fills the cubes that are not air. -/
  terrain : ExtTreeMap Cube Terrain := ∅
  logs : ExtTreeSet Cube := ∅
  boulders : ExtTreeSet Cube := ∅
  actors : ExtTreeMap ActorId ActorState := ∅

namespace World

variable (w : World)

/-! ## What can be seen -/

/-- Whether a cube belongs to the world. -/
def inBounds (c : Cube) : Bool :=
  w.config.worldSize.contains c

/-- What fills a cube. -/
def terrainAt (c : Cube) : Terrain :=
  w.terrain[c]?.getD .air

/-- An actor, as long as it lives. -/
def living? (actor : ActorId) : Option ActorState :=
  w.actors[actor]?.filter (·.alive)

/-- The living actors in ascending order. -/
def livingActors : List ActorId :=
  (w.actors.toList.filter fun (_, a) => a.alive).map (·.1)

/-- The living actors in a cube, in ascending order. -/
def actorsAt (c : Cube) : List ActorId :=
  (w.actors.toList.filter fun (_, a) => a.alive && a.position == c).map (·.1)

/-- The world as executions see it.  An actor that is not there has nothing to finish. -/
def surroundings : Surroundings where
  inBounds := w.inBounds
  terrain := w.terrainAt
  hasLog c := w.logs.contains c
  hasBoulder c := w.boulders.contains c
  actorsAt := w.actorsAt
  position? a := (w.living? a).map (·.position)
  group? a := w.actors[a]?.map (·.group)
  isAlive a := w.actors[a]?.any (·.alive)
  isCarrying a := w.actors[a]?.any (·.carrying.isSome)
  isFinished a := w.actors[a]?.all (·.activity.isIdle)

/-- What can be entered. -/
def isPassable (c : Cube) : Bool :=
  w.surroundings.isPassable c

/-! ## Changes to actors -/

/-- Changes an actor, if there is one of the name. -/
def updateActor (actor : ActorId) (change : ActorState → ActorState) : World :=
  { w with actors := w.actors.modify actor change }

/-- Makes an actor busy with something, dead or alive. -/
def setActivity (actor : ActorId) (activity : Activity) : World :=
  w.updateActor actor ({ · with activity })

/-- Ends whatever an actor is busy with. -/
def clearActivity (actor : ActorId) : World :=
  w.setActivity actor .idle

/-- Ends an actor's life, and with it what the actor was busy with.  Tells whether it had one. -/
def kill (actor : ActorId) : World × Bool :=
  match w.living? actor with
  | none => (w, false)
  | some _ => (w.updateActor actor ({ · with alive := false, activity := .idle }), true)

/-- Makes a living actor busy with something; a dead one does not listen. -/
def startActivity (actor : ActorId) (activity : Activity) : World :=
  match w.living? actor with
  | none => w
  | some _ => w.setActivity actor activity

/-- Starts the activity that was requested. -/
def apply : Request → World
  | .moveTo actor target => w.startActivity actor (.moving target 0.0)
  | .work actor target => w.startActivity actor (.working target w.config.timings.workSeconds)
  | .follow actor target => w.startActivity actor (.following target 0.0)
  | .attack actor target => w.startActivity actor (.attacking target w.config.timings.attackSeconds)

end World

end TaskScript
