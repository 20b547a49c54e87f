import TaskScript.Program.Formation
import Std.Data.ExtTreeSet
import Std.Data.ExtTreeMap

/-!
# Jobs and tasks

A `Job` says what is to be done: a named, prioritised program, and the cube it is to be done at, if
it reads one.  A `Task` is a job that has been handed in, together with the bookkeeping about it:
who is doing it, and in which groups it is scheduled.  A job handed in is nobody's and in no group.

## Contents
- `TaskStatus` and `Task` with its bookkeeping: `assignTo`, `release`, `complete`, `join`, `leave`.
- `Job.make`, `Job.makeAt`: jobs of checked programs only.
- `Board`: all tasks of a world by name.
-/

namespace TaskScript

open Std

/-- What is to be done. -/
structure Job where
  id : TaskId
  name : String
  /-- Higher is more urgent. -/
  priority : Int64
  program : Program
  /-- The cube that the job was created for. -/
  selected : Option Cube
deriving DecidableEq, Repr

namespace Job

/-- A job without a selected cube.  Its program has to be well-formed and must not read one. -/
def make (id : TaskId) (name : String) (priority : Int64) (program : Program) :
    Except FormationError Job := do
  program.check
  if program.usesSelected then throw .missingSelection
  return { id, name, priority, program, selected := none }

/-- A job for one cube.  Its program has to be well-formed. -/
def makeAt (id : TaskId) (name : String) (priority : Int64) (program : Program) (selected : Cube) :
    Except FormationError Job := do
  program.check
  return { id, name, priority, program, selected := some selected }

end Job

/-- Who is doing a task. -/
inductive TaskStatus where
  | unassigned
  | assignedTo (actor : ActorId)
  | completed
deriving DecidableEq, Repr

/-- The actor that is doing a task. -/
def TaskStatus.assignee? : TaskStatus → Option ActorId
  | .assignedTo actor => some actor
  | .unassigned | .completed => none

/-- A job with the bookkeeping about it. -/
structure Task extends Job where
  status : TaskStatus := .unassigned
  /-- The groups in which the task is scheduled. -/
  groups : ExtTreeSet GroupId := ∅

namespace Task

/-- Gives the task to an actor. -/
def assignTo (t : Task) (actor : ActorId) : Task :=
  { t with status := .assignedTo actor }

/-- Takes the task back, unless it is completed. -/
def release (t : Task) : Task :=
  { t with status := if t.status = .completed then .completed else .unassigned }

/-- Marks the task as done for good. -/
def complete (t : Task) : Task :=
  { t with status := .completed }

/-- Notes that a group schedules the task. -/
def join (t : Task) (group : GroupId) : Task :=
  { t with groups := t.groups.insert group }

/-- Notes that a group no longer schedules the task. -/
def leave (t : Task) (group : GroupId) : Task :=
  { t with groups := t.groups.erase group }

end Task

/-- All tasks of a world by name. -/
structure Board where
  tasks : ExtTreeMap TaskId Task := ∅

namespace Board

instance : GetElem? Board TaskId Task (fun b id => id ∈ b.tasks) where
  getElem b id h := b.tasks[id]
  getElem? b id := b.tasks[id]?

/-- Whether the board holds a task of the given name. -/
def contains (b : Board) (id : TaskId) : Bool :=
  b.tasks.contains id

/-- Puts a task under its name, in place of a task of the same name. -/
def insert (b : Board) (t : Task) : Board :=
  { tasks := b.tasks.insert t.id t }

/-- Changes the task of the given name, if there is one. -/
def modify (b : Board) (id : TaskId) (f : Task → Task) : Board :=
  { tasks := b.tasks.modify id f }

/-- Takes a task off the board. -/
def erase (b : Board) (id : TaskId) : Board :=
  { tasks := b.tasks.erase id }

/-- The tasks in ascending order of their names. -/
def toList (b : Board) : List Task :=
  b.tasks.toList.map (·.2)

end Board

end TaskScript
