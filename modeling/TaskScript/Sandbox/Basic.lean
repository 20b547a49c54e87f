import TaskScript.Foreman
import TaskScript.Sandbox.Activity
import TaskScript.Task.Factory

/-!
# The sandbox and its commands

A sandbox is a world with a foreman, a set of groups, a supply of task names and a clock.  Commands
change it from outside, between ticks.

A command can be refused.  It returns the sandbox next to the answer in either case, so that what a
refusal leaves behind is part of what is said about it.

## Contents
- `WorldError`: why a command is refused.
- `Sandbox` and `Sandbox.new`.
- Setup: `addGroup`, `spawnActor`, `setCarrying`, `setTerrain`, `placeLog`, `placeBoulder`.
- Tasks: `nextTaskId`, `addTask`, `createTasks`, `shareTask`, `replaceTask`, `removeTask`.
- Actors: `interrupt`, `killActor`.
-/

namespace TaskScript

open Std

/-- Why a command is refused. -/
inductive WorldError where
  | outOfBounds (cube : Cube)
  | unknownGroup (group : GroupId)
  | unknownActor (actor : ActorId)
  | duplicateActor (actor : ActorId)
  | noGroups (taskName : String)
  | formation (cause : FormationError)
  | scheduling (cause : SchedulingError)
deriving DecidableEq, Repr

/-- The wording of a refusal. -/
def WorldError.message : WorldError → String
  | .outOfBounds cube => toString cube ++ " lies outside the world"
  | .unknownGroup group => toString group ++ " does not exist"
  | .unknownActor actor => toString actor ++ " does not exist"
  | .duplicateActor actor => toString actor ++ " already exists"
  | .noGroups taskName => "task `" ++ taskName ++ "` names no group to schedule it in"
  | .formation cause => cause.message
  | .scheduling cause => cause.message

/-- A world with everything that drives it. -/
structure Sandbox where
  world : World
  foreman : Foreman
  groups : ExtTreeSet GroupId := ∅
  factory : Factory := {}
  tick : UInt64 := 0

namespace Sandbox

/-- An empty sandbox. -/
def new (config : Config) : Sandbox where
  world := { config }
  foreman := { maxSteps := config.maxStepsPerTick }

variable (s : Sandbox)

/-- Runs a command on a cube of the world; any other cube is refused. -/
def onCube (c : Cube) (command : Sandbox) : Sandbox × Except WorldError Unit :=
  if s.world.inBounds c then (command, .ok ()) else (s, .error (.outOfBounds c))

/-! ## Setup -/

/-- Registers a group.  A group that is known stays as it is. -/
def addGroup (group : GroupId) : Sandbox :=
  if s.groups.contains group then s
  else { s with groups := s.groups.insert group, foreman := (s.foreman.registerGroup group).1 }

/-- Puts a living actor of a known group on a cube of the world. -/
def spawnActor (actor : ActorId) (group : GroupId) (position : Cube) :
    Sandbox × Except WorldError Unit :=
  if !s.groups.contains group then (s, .error (.unknownGroup group))
  else if !s.world.inBounds position then (s, .error (.outOfBounds position))
  else if s.world.actors.contains actor then (s, .error (.duplicateActor actor))
  else
    let actors := s.world.actors.insert actor { group, position }
    ({ s with world := { s.world with actors } }, .ok ())

/-- Changes what an actor carries. -/
def setCarrying (actor : ActorId) (item : Option Item) : Sandbox × Except WorldError Unit :=
  if s.world.actors.contains actor then
    ({ s with world := s.world.setCarrying actor item }, .ok ())
  else (s, .error (.unknownActor actor))

/-- Fills a cube. -/
def setTerrain (c : Cube) (t : Terrain) : Sandbox × Except WorldError Unit :=
  let terrain :=
    if t = .air then s.world.terrain.erase c else s.world.terrain.insert c t
  s.onCube c { s with world := { s.world with terrain } }

/-- Lays a log on a cube. -/
def placeLog (c : Cube) : Sandbox × Except WorldError Unit :=
  s.onCube c { s with world := s.world.layItem .log c }

/-- Lays a boulder on a cube. -/
def placeBoulder (c : Cube) : Sandbox × Except WorldError Unit :=
  s.onCube c { s with world := s.world.layItem .boulder c }

/-! ## Tasks -/

/-- Takes a task name that was not used before. -/
def nextTaskId : Sandbox × TaskId :=
  let (factory, id) := s.factory.allocate
  ({ s with factory }, id)

/-- Puts the foreman's answer to a change of what is scheduled into the sandbox's words. -/
def withForeman {α : Type} (answer : Foreman × Except SchedulingError α) :
    Sandbox × Except WorldError α :=
  ({ s with foreman := answer.1 }, answer.2.mapError .scheduling)

/-- Ends the activity of an actor that a change of what is scheduled has stopped. -/
def afterStop (answer : Sandbox × Except WorldError (Option ActorId)) :
    Sandbox × Except WorldError Unit :=
  match answer with
  | (s, .error e) => (s, .error e)
  | (s, .ok none) => (s, .ok ())
  | (s, .ok (some actor)) => ({ s with world := s.world.clearActivity actor }, .ok ())

/-- Hands in a job for a group.  Its name counts as used from now on. -/
def addTask (group : GroupId) (job : Job) : Sandbox × Except WorldError TaskId :=
  if s.groups.contains group then
    let s := { s with factory := s.factory.reserveThrough job.id }
    s.withForeman (s.foreman.addTask group job)
  else (s, .error (.unknownGroup group))

/-- Hands in jobs one after the other, up to the first that is refused. -/
def addTasks (group : GroupId) : List Job → Sandbox → Sandbox × Except WorldError (List TaskId)
  | [], s => (s, .ok [])
  | job :: rest, s =>
    match s.addTask group job with
    | (s, .error e) => (s, .error e)
    | (s, .ok id) =>
      let (s, ids) := addTasks group rest s
      (s, ids.map (id :: ·))

/-- Turns a program into jobs with names of the sandbox's own and hands them in for a group. -/
def createTasks (group : GroupId) (name : String) (priority : Int64) (program : Program)
    (targets : List Cube) : Sandbox × Except WorldError (List TaskId) :=
  if s.groups.contains group then
    match s.factory.createJobs name priority program targets with
    | .error e => (s, .error (.formation e))
    | .ok (factory, jobs) => addTasks group jobs { s with factory }
  else (s, .error (.unknownGroup group))

/-- Schedules a task in one more group. -/
def shareTask (group : GroupId) (task : TaskId) : Sandbox × Except WorldError Unit :=
  if s.groups.contains group then s.withForeman (s.foreman.scheduleExisting group task)
  else (s, .error (.unknownGroup group))

/-- Gives the slot of a member of a group to the task of a new job.  An actor that is doing the member
is stopped. -/
def replaceTask (group : GroupId) (member : TaskId) (replacement : Job) :
    Sandbox × Except WorldError TaskId :=
  if s.groups.contains group then
    let s := { s with factory := s.factory.reserveThrough replacement.id }
    let (s, answer) :=
      afterStop (s.withForeman (s.foreman.replaceTask group member replacement))
    (s, answer.map fun _ => replacement.id)
  else (s, .error (.unknownGroup group))

/-- Removes a task from a group.  An actor that is stopped by that is idle. -/
def removeTask (group : GroupId) (task : TaskId) : Sandbox × Except WorldError Unit :=
  if s.groups.contains group then
    afterStop (s.withForeman (s.foreman.removeTask group task))
  else (s, .error (.unknownGroup group))

/-! ## Actors -/

/-- Stops whatever an actor is doing.  Its task, if it has one, goes back to the schedulers with no
progress kept. -/
def interrupt (actor : ActorId) : Sandbox × Except WorldError (Option TaskId) :=
  if s.world.actors.contains actor then
    let (foreman, task) := s.foreman.interrupt actor
    ({ s with world := s.world.clearActivity actor, foreman }, .ok task)
  else (s, .error (.unknownActor actor))

/-- Ends an actor's life.  Its task goes back to the schedulers; for a dead actor nothing changes. -/
def killActor (actor : ActorId) : Sandbox × Except WorldError Unit :=
  if s.world.actors.contains actor then
    match s.world.kill actor with
    | (_, false) => (s, .ok ())
    | (world, true) =>
      ({ s with world, foreman := (s.foreman.interrupt actor).1 }, .ok ())
  else (s, .error (.unknownActor actor))

end Sandbox

end TaskScript
