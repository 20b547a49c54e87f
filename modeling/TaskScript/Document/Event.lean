import TaskScript.Document.Scenario
import TaskScript.Event

/-!
# Documents of events

An event is written with all its fields, `null` standing for a missing actor or missing details.

## Contents
- `EventType.ofJson?`, `TaskEvent.toJson`, `TaskEvent.ofJson?`.
- `TaskEvent.line`: the event as one line of JSON.
-/

namespace TaskScript

/-- Reads an event type. -/
def EventType.ofJson? (j : Json) : Option EventType := do
  match ← j.plainChoice? with
  | "task_scheduled" => some .scheduled
  | "task_assigned" => some .assigned
  | "task_completed" => some .completed
  | "task_failed" => some .failed
  | "task_interrupted" => some .interrupted
  | "task_replaced" => some .replaced
  | "task_removed" => some .removed
  | "task_printed" => some .printed
  | _ => none

namespace TaskEvent

/-- The document of an event. -/
def toJson (e : TaskEvent) : Json :=
  .obj [("tick", .ofUInt64 e.tick), ("sequence_in_tick", .ofUInt64 e.sequence),
    ("task_id", e.task.toJson), ("task_name", .str e.taskName),
    ("actor_id", Json.ofOption ActorId.toJson e.actor), ("event_type", .str e.type.label),
    ("details", e.details.getD .null)]

/-- Reads details: any value, all of it readable, in canonical form. -/
def details? (j : Json) : Option Json :=
  if j.isReadable then some j.canonical else none

/-- Reads an event. -/
def ofJson? (j : Json) : Option TaskEvent := do
  let [tick, sequence, task, taskName, actor, type, details] ← j.record?
    [{ name := "tick" }, { name := "sequence_in_tick" }, { name := "task_id" },
      { name := "task_name" }, { name := "actor_id", presence := .optional },
      { name := "event_type" }, { name := "details", presence := .optional }] | none
  return {
    tick := ← (← tick).toUInt64?
    sequence := ← (← sequence).toUInt64?
    task := ← TaskId.ofJson? (← task)
    taskName := ← (← taskName).toString?
    actor := ← (actor.getD .null).toOption? ActorId.ofJson?
    type := ← EventType.ofJson? (← type)
    details := ← (details.getD .null).toOption? details? }

/-- The event as one line of JSON. -/
def line (e : TaskEvent) : String :=
  e.toJson.render

end TaskEvent

end TaskScript
