import TaskScript.Sandbox.World

/-!
# Activities over time

How a tick moves on what an actor is busy with.  Walks go one cube at a time and pay for every step
with saved-up time; work and attacks use up their time and then happen at once.

## Contents
- `World.walk`: spends the credit of a walk.
- `World.advanceMove`, `World.advanceFollow`: the two kinds of walks.
- `World.applyWork`: the effect of work on a cube.
- `World.advanceActivity`: one tick of an actor's activity; tells whether it finished.
-/

namespace TaskScript

/-- Times are compared with this much slack. -/
def timeSlack : Float := 1e-9

/-- How far a walk has come: the cube reached, the credit left, and whether it is over. -/
structure Walk where
  position : Cube
  credit : Float
  isOver : Bool

namespace World

variable (w : World)

/-! ## Walking -/

/-- Walks towards `goal` while the credit lasts.  A walk is over when `arrived` holds, or when the
next cube cannot be entered.  Every step brings the walker one cube closer, so `n`, the distance at
the start, bounds the steps; a walker at distance zero has nowhere left to go. -/
def walk (arrived : Cube → Bool) (goal : Cube) : Nat → Cube → Float → Except Overflow Walk
  | 0, position, credit => .ok ⟨position, credit, true⟩
  | n + 1, position, credit =>
    let cost := w.config.timings.moveSecondsPerCube
    let cost := if 0.0 < cost then cost else 0.0
    if arrived position then .ok ⟨position, credit, true⟩
    else if credit + timeSlack < cost then .ok ⟨position, credit, false⟩
    else do
      let next ← position.stepTowards goal
      if w.isPassable next then walk arrived goal n next (credit - cost)
      else return ⟨position, credit, true⟩

/-- Moves an actor to where its walk has come to. -/
def settleWalk (actor : ActorId) (walk : Walk) (goOn : Float → Activity) : World × Bool :=
  let w := w.updateActor actor ({ · with position := walk.position })
  if walk.isOver then (w.clearActivity actor, true)
  else (w.setActivity actor (goOn walk.credit), false)

/-- Walks an actor towards a cube. -/
def advanceMove (actor : ActorId) (start target : Cube) (credit : Float) :
    Except Overflow (World × Bool) := do
  let walk ← w.walk (· == target) target (start.distance target) start credit
  return w.settleWalk actor walk (.moving target)

/-- Walks an actor until it is next to another.  The walk is over when the other is gone. -/
def advanceFollow (actor : ActorId) (start : Cube) (target : ActorId) (credit : Float) :
    Except Overflow (World × Bool) := do
  match w.living? target with
  | none => return (w.clearActivity actor, true)
  | some other =>
    let goal := other.position
    let walk ← w.walk (·.isAdjacent goal) goal (start.distance goal) start credit
    return w.settleWalk actor walk (.following target)

/-! ## Work -/

/-- Changes what an actor carries. -/
def setCarrying (actor : ActorId) (carrying : Option Item) : World :=
  w.updateActor actor ({ · with carrying })

/-- Lays an item on a cube. -/
def layItem (item : Item) (c : Cube) : World :=
  match item with
  | .log => { w with logs := w.logs.insert c }
  | .boulder => { w with boulders := w.boulders.insert c }

/-- Work on a cube within reach.  An actor that carries an item drops it there, or where it stands
if the cube cannot be entered.  Other work picks up a boulder, or else a log, or else breaks a rock
into a boulder or fells a tree into a log. -/
def applyWork (actor : ActorId) (target : Cube) : World :=
  match w.actors[actor]? with
  | none => w
  | some state =>
    if !state.position.isAdjacent target || !w.inBounds target then w
    else
      match state.carrying with
      | some item =>
        let spot := if w.isPassable target then target else state.position
        (w.layItem item spot).setCarrying actor none
      | none =>
        if w.boulders.contains target then
          { w with boulders := w.boulders.erase target }.setCarrying actor (some .boulder)
        else if w.logs.contains target then
          { w with logs := w.logs.erase target }.setCarrying actor (some .log)
        else
          match w.terrainAt target with
          | .rock => { w with terrain := w.terrain.erase target }.layItem .boulder target
          | .tree => { w with terrain := w.terrain.erase target }.layItem .log target
          | .air | .workshop => w

/-! ## One tick -/

/-- Moves on what a living actor is busy with by `dt` seconds.  Tells whether it finished.  An attack
only takes time. -/
def advanceActivity (actor : ActorId) (dt : Float) : Except Overflow (World × Bool) :=
  match w.living? actor with
  | none => .ok (w, false)
  | some state =>
    match state.activity with
    | .idle => .ok (w, false)
    | .moving target credit => w.advanceMove actor state.position target (credit + dt)
    | .following target credit => w.advanceFollow actor state.position target (credit + dt)
    | .working target remaining =>
      let remaining := remaining - dt
      if timeSlack < remaining then .ok (w.setActivity actor (.working target remaining), false)
      else .ok ((w.applyWork actor target).clearActivity actor, true)
    | .attacking target remaining =>
      let remaining := remaining - dt
      if timeSlack < remaining then .ok (w.setActivity actor (.attacking target remaining), false)
      else .ok (w.clearActivity actor, true)

end World

end TaskScript
