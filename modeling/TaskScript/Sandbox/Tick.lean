import TaskScript.Sandbox.Basic

/-!
# The tick

How a sandbox moves on in time.  In a tick every living actor, in ascending order, is offered a task
if it is idle, runs its program for one turn, and then spends the time of the tick on its activity.
When that finishes the activity, the program gets another turn without time, so that the finished
action is done with in the same tick.

## Contents
- `Metrics`: what happened in a tick, in numbers.
- `Sandbox.visitActor`: the part of one actor; `Sandbox.advanceTime`: a whole tick.
- `Sandbox.runTicks`: several ticks.
-/

namespace TaskScript

/-- What happened in a tick. The counters are natural numbers in place of 64-bit ones: a tick visits each living actor
once, and a visit counts at most once in each of them, so the number of actors bounds them all. -/
structure Metrics where
  tick : UInt64
  processedActors : Nat := 0
  completedTasks : Nat := 0
  failedTasks : Nat := 0
deriving DecidableEq, Repr

namespace Sandbox

/-- Takes over the result of an actor's turn: the requests are carried out, a completed or failed
task is counted, and an actor whose task failed ends what it was busy with. -/
def absorb (actor : ActorId) (shift : Shift) (s : Sandbox) (m : Metrics) : Sandbox × Metrics :=
  let world := shift.requests.foldl World.apply s.world
  let s := { s with world, foreman := shift.foreman }
  match shift.report with
  | .idle | .running _ => (s, m)
  | .completed _ => (s, { m with completedTasks := m.completedTasks + 1 })
  | .failed _ _ =>
    ({ s with world := s.world.clearActivity actor }, { m with failedTasks := m.failedTasks + 1 })

/-- The part of one actor in a tick of `dt` seconds. -/
def visitActor (dt : Float) (state : Sandbox × Metrics) (actor : ActorId) :
    Except Overflow (Sandbox × Metrics) :=
  let (s, m) := state
  match s.world.actors[actor]? with
  | none => .ok (s, m)
  | some a => do
    let m := { m with processedActors := m.processedActors + 1 }
    let idle := (s.foreman.currentTask? actor).isNone && s.world.surroundings.isFinished actor
    let s := if idle then { s with foreman := (s.foreman.assignIdle actor a.group).1 } else s
    let shift ← s.foreman.runActor s.world.surroundings actor dt
    let (s, m) := s.absorb actor shift m
    let (world, finished) ← s.world.advanceActivity actor dt
    let s := { s with world }
    if finished && (s.foreman.currentTask? actor).isSome then
      let shift ← s.foreman.settleActor s.world.surroundings actor
      return s.absorb actor shift m
    else return (s, m)

/-- One tick of `dt` seconds.  A negative time counts as none. -/
def advanceTime (s : Sandbox) (dt : Float) : Except Overflow (Sandbox × Metrics) :=
  let dt := if 0.0 < dt then dt else 0.0
  let tick := successor s.tick
  let s := { s with tick, foreman := s.foreman.beginTick tick }
  s.world.livingActors.foldlM (visitActor dt) (s, { tick })

/-- Several ticks of the same length, with the metrics of each. -/
def runTicks (dt : Float) : Nat → Sandbox → Except Overflow (Sandbox × List Metrics)
  | 0, s => .ok (s, [])
  | n + 1, s => do
    let (s, m) ← s.advanceTime dt
    let (s, ms) ← runTicks dt n s
    return (s, m :: ms)

end Sandbox

end TaskScript
