import TaskScript.Document.Event
import TaskScript.Execution
import TaskScript.Scheduler

/-!
# The foreman

The foreman of a world owns its task board, one scheduler per group, and the execution of every busy
actor.  Everything that happens to a task goes through the foreman, who records it as an event.

Changes of what is scheduled can be refused.  They return the foreman next to the answer in either
case, so that what a refusal leaves behind is part of what is said about it.

## Contents
- `Run`, `Foreman`, `Foreman.record`.
- Clock and groups: `beginTick`, `registerGroup`.
- Scheduling: `addTask`, `scheduleExisting`, `removeTask`, `replaceTask`, `assignIdle`.
- Running: `runActor`, `settleActor`, `interrupt`, with their `Report`.
-/

namespace TaskScript

open Std

/-- An actor's current task, with its execution. -/
structure Run where
  task : TaskId
  execution : Execution

/-- The tasks of a world, who is doing them, and what happened to them. -/
structure Foreman where
  /-- How many steps a program may take in a turn. -/
  maxSteps : UInt32
  board : Board := {}
  schedulers : ExtTreeMap GroupId Scheduler := ∅
  running : ExtTreeMap ActorId Run := ∅
  /-- The events recorded and not yet collected, the oldest first. -/
  events : Array TaskEvent := #[]
  tick : UInt64 := 0
  /-- How many events the tick has so far. -/
  sequence : UInt64 := 0

/-- What became of an actor's turn. -/
inductive Report where
  /-- The actor has no task. -/
  | idle
  | running (task : TaskId)
  | completed (task : TaskId)
  /-- The execution was given up, and the task returned to its schedulers. -/
  | failed (task : TaskId) (cause : EvaluationError)
deriving DecidableEq, Repr

/-- The result of an actor's turn: the foreman after it, what became of it, and what the actor was
asked to do. -/
structure Shift where
  foreman : Foreman
  report : Report
  requests : List Request

namespace Foreman

variable (f : Foreman)

/-! ## Events -/

/-- The name of a task of the board. -/
def taskName (task : TaskId) : String :=
  match f.board[task]? with
  | some t => t.name
  | none => ""

/-- Records an event. -/
def record (type : EventType) (task : TaskId) (actor : Option ActorId) (details : Option Json) :
    Foreman :=
  let event : TaskEvent :=
    { tick := f.tick, sequence := f.sequence, task, taskName := f.taskName task, actor, type, details }
  { f with events := f.events.push event, sequence := successor f.sequence }

/-- The details of an event that concerns a group. -/
def groupDetails (group : GroupId) : Json :=
  .obj [("group", group.toJson)]

/-- Hands over the events recorded since the last time. -/
def drainEvents : Foreman × List TaskEvent :=
  ({ f with events := #[] }, f.events.toList)

/-! ## Clock and groups -/

/-- Stamps the events recorded from now on with a tick. -/
def beginTick (tick : UInt64) : Foreman :=
  { f with tick, sequence := 0 }

/-- Gives a group a scheduler, unless it has one.  Tells whether it was given one. -/
def registerGroup (group : GroupId) : Foreman × Bool :=
  if f.schedulers.contains group then (f, false)
  else ({ f with schedulers := f.schedulers.insert group { group } }, true)

/-! ## Who is doing what -/

/-- The task that an actor is doing. -/
def currentTask? (actor : ActorId) : Option TaskId :=
  f.running[actor]?.map (·.task)

/-- The first actor that is doing a task. -/
def performer? (task : TaskId) : Option ActorId :=
  (f.running.toList.find? fun (_, run) => run.task == task).map (·.1)

/-- Gives up an actor's execution and takes its task back. -/
def discard (actor : ActorId) : Foreman × Option TaskId :=
  match f.running[actor]? with
  | none => (f, none)
  | some run =>
    ({ f with
        running := f.running.erase actor
        board := f.board.modify run.task (·.release) }, some run.task)

/-- Stops an actor's task and hands it back to its schedulers.  No progress is kept. -/
def interrupt (actor : ActorId) : Foreman × Option TaskId :=
  match f.discard actor with
  | (f, none) => (f, none)
  | (f, some task) => (f.record .interrupted task (some actor) none, some task)

/-- Takes a task off the board once no scheduler holds it.  An actor that is doing it is stopped. -/
def dropIfOrphaned (task : TaskId) : Foreman × Option ActorId :=
  match f.board[task]? with
  | none => (f, none)
  | some t =>
    if t.groups.isEmpty then
      let stopped := f.performer? task
      let f := match stopped with
        | some actor => (f.interrupt actor).1
        | none => f
      ({ f with board := f.board.erase task }, stopped)
    else (f, none)

/-! ## Scheduling -/

/-- Puts back a group's scheduler and the board, both as a change of membership left them. -/
def withMembership (group : GroupId) (changed : Scheduler × Board) : Foreman :=
  { f with schedulers := f.schedulers.insert group changed.1, board := changed.2 }

/-- Hands in a job and schedules its task in a group. -/
def addTask (group : GroupId) (job : Job) : Foreman × Except SchedulingError TaskId :=
  match f.schedulers[group]? with
  | none => (f, .error (.unknownGroup group))
  | some scheduler =>
    if f.board.contains job.id then (f, .error (.duplicateTask job.id group))
    else
      let f := { f with board := f.board.insert { job with } }
      match scheduler.add f.board job.id with
      | .error e => (f, .error e)
      | .ok changed =>
        ((f.withMembership group changed).record .scheduled job.id none (some (groupDetails group)),
          .ok job.id)

/-- Schedules a task of the board in one more group. -/
def scheduleExisting (group : GroupId) (task : TaskId) : Foreman × Except SchedulingError Unit :=
  match f.schedulers[group]? with
  | none => (f, .error (.unknownGroup group))
  | some scheduler =>
    match scheduler.add f.board task with
    | .error e => (f, .error e)
    | .ok changed =>
      ((f.withMembership group changed).record .scheduled task none (some (groupDetails group)),
        .ok ())

/-- Removes a task from a group, and from the board with the last one.  Returns the actor that was
stopped by that. -/
def removeTask (group : GroupId) (task : TaskId) :
    Foreman × Except SchedulingError (Option ActorId) :=
  match f.schedulers[group]? with
  | none => (f, .error (.unknownGroup group))
  | some scheduler =>
    match scheduler.remove f.board task with
    | .error e => (f, .error e)
    | .ok changed =>
      let f := (f.withMembership group changed).record .removed task none (some (groupDetails group))
      let (f, stopped) := f.dropIfOrphaned task
      (f, .ok stopped)

/-- Gives the slot of a member of a group to the task of a new job.  An actor that is doing the member
is stopped first, and returned. -/
def replaceTask (group : GroupId) (member : TaskId) (replacement : Job) :
    Foreman × Except SchedulingError (Option ActorId) :=
  match f.schedulers[group]? with
  | none => (f, .error (.unknownGroup group))
  | some scheduler =>
    if !scheduler.contains member then (f, .error (.unknownTask member group))
    else if scheduler.contains replacement.id || f.board.contains replacement.id then
      (f, .error (.duplicateTask replacement.id group))
    else
      let stopped := f.performer? member
      let f := match stopped with
        | some actor => (f.discard actor).1
        | none => f
      let f := { f with board := f.board.insert { replacement with } }
      match scheduler.replace f.board member replacement.id with
      | .error e => (f, .error e)
      | .ok changed =>
        let details : Json :=
          .obj [("group", group.toJson), ("replacement", replacement.id.toJson)]
        let f := (f.withMembership group changed).record .replaced member stopped (some details)
        ((f.dropIfOrphaned member).1, .ok stopped)

/-- Gives an idle actor the most urgent task of its group.  Returns the task that the actor is doing
now, which is its current one if it had one. -/
def assignIdle (actor : ActorId) (group : GroupId) : Foreman × Option TaskId :=
  match f.running[actor]? with
  | some run => (f, some run.task)
  | none =>
    match f.schedulers[group]?.bind (·.assign f.board actor fun _ => true) with
    | none => (f, none)
    | some (task, board) =>
      let f := { f with board }
      match board[task]? with
      | none => (f, none)
      | some t =>
        let run : Run := { task, execution := .start t.toJob f.maxSteps }
        let f := { f with running := f.running.insert actor run }
        (f.record .assigned task (some actor) (some (groupDetails group)), some task)

/-! ## Running -/

/-- Records what was printed, in order. -/
def recordPrints (task : TaskId) (actor : ActorId) (values : List Value) : Foreman :=
  values.foldl (fun f value =>
    f.record .printed task (some actor) (some (.obj [("value", value.toJson)]))) f

/-- Gives an actor's execution a turn of `dt` seconds. -/
def runActor (around : Surroundings) (actor : ActorId) (dt : Float) : Except Overflow Shift :=
  match f.running[actor]? with
  | none => .ok ⟨f, .idle, []⟩
  | some run =>
    let turn := run.execution.turn around actor dt
    let f := { f with running := f.running.erase actor }
    let f := f.recordPrints run.task actor turn.output
    match turn.result with
    | .error (.overflow o) => .error o
    | .error (.error cause) =>
      let f := { f with board := f.board.modify run.task (·.release) }
      let details : Json := .obj [("error", .str cause.message)]
      .ok ⟨f.record .failed run.task (some actor) (some details), .failed run.task cause,
        turn.requests⟩
    | .ok .suspended =>
      let running := f.running.insert actor { run with execution := turn.execution }
      .ok ⟨{ f with running }, .running run.task, turn.requests⟩
    | .ok .completed =>
      let f := { f with board := f.board.modify run.task (·.complete) }
      .ok ⟨f.record .completed run.task (some actor) none, .completed run.task, turn.requests⟩

/-- Gives an actor's execution a turn without time.  An action found finished is done with, and no
other is requested. -/
def settleActor (around : Surroundings) (actor : ActorId) : Except Overflow Shift :=
  f.runActor around actor 0.0

end Foreman

end TaskScript
