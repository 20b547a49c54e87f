import TaskScript.Id
import TaskScript.Json.Printer

/-!
# Task events

Everything that happens to a task is recorded as an event, stamped with the tick and its number
within the tick.

## Contents
- `EventType`, with its two spellings: `EventType.label` in documents, `EventType.title` in texts.
- `TaskEvent` and the line it is written as.
-/

namespace TaskScript

/-- What happened to a task. -/
inductive EventType where
  | scheduled
  | assigned
  | completed
  | failed
  | interrupted
  | replaced
  | removed
  | printed
deriving DecidableEq, Repr

namespace EventType

/-- The name of an event type in documents. -/
def label : EventType → String
  | .scheduled => "task_scheduled"
  | .assigned => "task_assigned"
  | .completed => "task_completed"
  | .failed => "task_failed"
  | .interrupted => "task_interrupted"
  | .replaced => "task_replaced"
  | .removed => "task_removed"
  | .printed => "task_printed"

/-- The name of an event type in texts. -/
def title : EventType → String
  | .scheduled => "TaskScheduled"
  | .assigned => "TaskAssigned"
  | .completed => "TaskCompleted"
  | .failed => "TaskFailed"
  | .interrupted => "TaskInterrupted"
  | .replaced => "TaskReplaced"
  | .removed => "TaskRemoved"
  | .printed => "TaskPrinted"

end EventType

/-- A record of what happened to a task. -/
structure TaskEvent where
  tick : UInt64
  /-- Its number among the events of the tick, from zero. -/
  sequence : UInt64
  task : TaskId
  taskName : String
  actor : Option ActorId
  type : EventType
  details : Option Json
deriving Repr

namespace TaskEvent

/-- The line of an event: its stamp, what happened to which task, by whom, and the details. -/
def text (e : TaskEvent) : String :=
  let stamp := "tick=" ++ toString e.tick ++ " seq=" ++ toString e.sequence
  let subject := " " ++ e.type.title ++ " " ++ toString e.task ++ " (" ++ e.taskName ++ ")"
  let doer := match e.actor with
    | some actor => " by " ++ toString actor
    | none => ""
  let details := match e.details with
    | some details => " " ++ details.render
    | none => ""
  stamp ++ subject ++ doer ++ details

end TaskEvent

end TaskScript
