import TaskScript.Task.Basic

/-!
# Schedulers

A scheduler keeps the tasks of one group in the order in which they are handed out: by descending
priority, and in the order of their arrival among equals.  The tasks themselves lie on a board that
the schedulers of all groups share, so that a task can be scheduled in several groups and still be
given away only once.

## Contents
- `Entry`: a member's slot, with the key that orders it.
- `Scheduler.add`, `remove`, `replace`: membership, kept both here and on the task.
- `Scheduler.openTasks`, `Scheduler.assign`: what there is to do, and giving it away.
- `SchedulingError`: why a change of membership is refused.
-/

namespace TaskScript

/-- Why a change of membership is refused. -/
inductive SchedulingError where
  | unknownTask (task : TaskId) (group : GroupId)
  | duplicateTask (task : TaskId) (group : GroupId)
  | unknownGroup (group : GroupId)
deriving DecidableEq, Repr

/-- The wording of a refusal. -/
def SchedulingError.message : SchedulingError → String
  | .unknownTask task group => toString task ++ " is not scheduled in " ++ toString group
  | .duplicateTask task group => toString task ++ " is already scheduled in " ++ toString group
  | .unknownGroup group => toString group ++ " has no scheduler"

/-- The slot of a member.  Slots are ordered by descending priority, then by number of arrival. -/
structure Entry where
  task : TaskId
  priority : Int64
  arrival : UInt64
deriving DecidableEq, Repr

/-- Whether a slot comes before another. -/
def Entry.precedes (a b : Entry) : Bool :=
  a.priority > b.priority || (a.priority == b.priority && a.arrival < b.arrival)

/-- The tasks of one group. -/
structure Scheduler where
  group : GroupId
  /-- The slots in their order. -/
  entries : List Entry := []
  nextArrival : UInt64 := 0
deriving DecidableEq, Repr

namespace Scheduler

/-- The members in their order, completed ones included. -/
def taskIds (s : Scheduler) : List TaskId :=
  s.entries.map (·.task)

/-- Whether a task is a member. -/
def contains (s : Scheduler) (task : TaskId) : Bool :=
  s.entries.any (·.task == task)

/-- Puts a slot before the first one that it precedes. -/
def insertEntry (entry : Entry) : List Entry → List Entry
  | [] => [entry]
  | e :: rest => if entry.precedes e then entry :: e :: rest else e :: insertEntry entry rest

/-- Makes a task of the board a member, at the place that its priority gives it. -/
def add (s : Scheduler) (board : Board) (task : TaskId) :
    Except SchedulingError (Scheduler × Board) :=
  if s.contains task then .error (.duplicateTask task s.group)
  else match board[task]? with
    | none => .error (.unknownTask task s.group)
    | some t =>
      let entry := { task, priority := t.priority, arrival := s.nextArrival }
      .ok ({ s with
              entries := insertEntry entry s.entries
              nextArrival := successor s.nextArrival },
           board.modify task (·.join s.group))

/-- Ends a membership.  The task stays on the board. -/
def remove (s : Scheduler) (board : Board) (task : TaskId) :
    Except SchedulingError (Scheduler × Board) :=
  if s.contains task then
    .ok ({ s with entries := s.entries.eraseP (·.task == task) },
         board.modify task (·.leave s.group))
  else .error (.unknownTask task s.group)

/-- Gives the slot of a member to another task of the board. -/
def replace (s : Scheduler) (board : Board) (member replacement : TaskId) :
    Except SchedulingError (Scheduler × Board) :=
  if !s.contains member then .error (.unknownTask member s.group)
  else if s.contains replacement then .error (.duplicateTask replacement s.group)
  else if !board.contains replacement then .error (.unknownTask replacement s.group)
  else
    .ok ({ s with
            entries := s.entries.map fun e =>
              if e.task = member then { e with task := replacement } else e },
         (board.modify member (·.leave s.group)).modify replacement (·.join s.group))

/-- The members that are on the board and not completed, most urgent first. -/
def openTasks (s : Scheduler) (board : Board) : List Task :=
  (s.entries.filterMap fun e => board[e.task]?).filter (·.status != .completed)

/-- Gives the first unassigned member that `eligible` accepts to an actor. -/
def assign (s : Scheduler) (board : Board) (actor : ActorId) (eligible : Task → Bool) :
    Option (TaskId × Board) :=
  match (s.openTasks board).find? fun t => t.status == .unassigned && eligible t with
  | none => none
  | some t => some (t.id, board.modify t.id (·.assignTo actor))

end Scheduler

end TaskScript
