import TaskScript.Foreman
import TaskScript.Proofs.Scheduler.Membership

/-!
# `Proofs.Foreman.Moves`: the moves that operations are made of

An operation on a foreman does several things one after the other: it changes who is a member, stops an
actor, drops a task that nobody schedules any more. Each of these is a `Move`, with its event where it has
one. What every move preserves, every operation does, in whatever order it makes its moves.

A move is labelled with what it adds to the diary: the job that was handed in, and the event that was
recorded.

## Contents
- `Note`, `Foreman.event`.
- `Foreman.Move`, `Foreman.Moves`: **moves** and rows of them.
- Who is doing what: `currentTask?` after a change of the runs, and what `performer?` finds.
-/

namespace TaskScript

open Std

/-- A line in the diary of a foreman. -/
inductive Note where
  /-- A job was handed in. -/
  | handedIn (job : Job)
  | recorded (event : TaskEvent)

namespace Foreman

variable {f f' f'' : Foreman}

/-- The event that is recorded next. -/
def event (f : Foreman) (type : EventType) (task : TaskId) (actor : Option ActorId) (details : Option Json) :
    TaskEvent where
  tick := f.tick
  sequence := f.sequence
  task
  taskName := f.taskName task
  actor
  type
  details

/-- The foreman after an actor gave its task up. -/
def giveUp (f : Foreman) (actor : ActorId) (run : Run) : Foreman :=
  { f with
    running := f.running.erase actor
    board := f.board.modify run.task (·.release) }

/-- The foreman after an actor was done with its task. -/
def finish (f : Foreman) (actor : ActorId) (run : Run) : Foreman :=
  { f with
    running := f.running.erase actor
    board := f.board.modify run.task (·.complete) }

/-- An actor that is at something gives it up, and the task that becomes free is told. -/
theorem discard_eq {actor : ActorId} {run : Run} (h : f.running[actor]? = some run) :
    f.discard actor = (f.giveUp actor run, some run.task) := by
  rw [discard, h]
  rfl

theorem discard_eq_none {actor : ActorId} (h : f.running[actor]? = none) : f.discard actor = (f, none) := by
  rw [discard, h]

/-- The foreman with the actor stopped that is to be stopped, if any. -/
def stopped (f : Foreman) : Option ActorId → Foreman
  | some actor => (f.discard actor).1
  | none => f

theorem stopped_some {actor : ActorId} {run : Run} (h : f.running[actor]? = some run) :
    f.stopped (some actor) = f.giveUp actor run := by
  rw [stopped, discard_eq h]

/-- Nobody is stopped, or one actor gives its task up. -/
theorem stopped_cases (f : Foreman) (who : Option ActorId) :
    f.stopped who = f ∨ ∃ actor run, f.running[actor]? = some run ∧ f.stopped who = f.giveUp actor run := by
  cases who with
  | none => exact .inl rfl
  | some actor =>
    cases hrun : f.running[actor]? with
    | none =>
      left
      rw [stopped, discard_eq_none hrun]
    | some run => exact .inr ⟨actor, run, hrun, stopped_some hrun⟩

/-- Stopping an actor takes no task off the board. -/
theorem contains_stopped (who : Option ActorId) (t : TaskId) :
    (f.stopped who).board.contains t = f.board.contains t := by
  rcases stopped_cases f who with h | ⟨actor, run, -, h⟩
  · rw [h]
  · rw [h, giveUp, Board.contains_eq_isSome, Board.contains_eq_isSome, Board.isSome_modify]

/-- Who is a member of which group does not depend on who is at work. -/
theorem schedulers_stopped (who : Option ActorId) : (f.stopped who).schedulers = f.schedulers := by
  rcases stopped_cases f who with h | ⟨actor, run, -, h⟩ <;> rw [h]
  rfl

theorem events_stopped (who : Option ActorId) : (f.stopped who).events = f.events := by
  rcases stopped_cases f who with h | ⟨actor, run, -, h⟩ <;> rw [h]
  rfl

/-- The foreman with a new task on the board. -/
def withTask (f : Foreman) (job : Job) : Foreman :=
  { f with board := f.board.insert { job with } }

/-- The foreman after an actor was given a task, to which `board` was changed. -/
def withRun (f : Foreman) (actor : ActorId) (run : Run) (board : Board) : Foreman :=
  { f with board, running := f.running.insert actor run }

/-- The details of a replacement. -/
def replacedDetails (group : GroupId) (replacement : TaskId) : Json :=
  .obj [("group", group.toJson), ("replacement", replacement.toJson)]

/-- **A move**, with the notes that it adds to the diary. -/
inductive Move (f : Foreman) : List Note → Foreman → Prop
  | clock {tick} : Move f [] (f.beginTick tick)
  | register {g} :
      f.schedulers.contains g = false →
      Move f [] { f with schedulers := f.schedulers.insert g { group := g } }
  | handIn {job} : f.board.contains job.id = false → Move f [.handedIn job] (f.withTask job)
  | schedule {g s t changed} :
      f.schedulers[g]? = some s → s.add f.board t = .ok changed →
      Move f [.recorded ((f.withMembership g changed).event .scheduled t none (some (groupDetails g)))]
        ((f.withMembership g changed).record .scheduled t none (some (groupDetails g)))
  | leave {g s t changed} :
      f.schedulers[g]? = some s → s.remove f.board t = .ok changed →
      Move f [.recorded ((f.withMembership g changed).event .removed t none (some (groupDetails g)))]
        ((f.withMembership g changed).record .removed t none (some (groupDetails g)))
  /- The member is stopped, the new task is put on the board, and only then do they change places. -/
  | replace {g s t job changed f₁} :
      f.schedulers[g]? = some s → f.board.contains job.id = false →
      f₁ = (f.stopped (f.performer? t)).withTask job → s.replace f₁.board t job.id = .ok changed →
      Move f
        [.handedIn job, .recorded ((f₁.withMembership g changed).event .replaced t (f.performer? t)
          (some (replacedDetails g job.id)))]
        ((f₁.withMembership g changed).record .replaced t (f.performer? t) (some (replacedDetails g job.id)))
  /- A task that no group schedules and no actor does is dropped. -/
  | drop {t task} :
      f.board[t]? = some task → task.groups.isEmpty = true → f.performer? t = none →
      Move f [] { f with board := f.board.erase t }
  | assign {g s t actor board task} :
      f.running[actor]? = none → f.schedulers[g]? = some s →
      s.assign f.board actor (fun _ => true) = some (t, board) → board[t]? = some task →
      Move f
        [.recorded ((f.withRun actor ⟨t, .start task.toJob f.maxSteps⟩ board).event .assigned t (some actor)
          (some (groupDetails g)))]
        ((f.withRun actor ⟨t, .start task.toJob f.maxSteps⟩ board).record .assigned t (some actor)
          (some (groupDetails g)))
  | print {actor run value} :
      f.running[actor]? = some run →
      Move f [.recorded (f.event .printed run.task (some actor) (some (.obj [("value", value)])))]
        (f.record .printed run.task (some actor) (some (.obj [("value", value)])))
  | goOn {actor run execution} :
      f.running[actor]? = some run →
      Move f [] { f with running := f.running.insert actor { run with execution } }
  | giveUp {actor run type details} :
      f.running[actor]? = some run → type = .interrupted ∨ type = .failed →
      Move f [.recorded ((f.giveUp actor run).event type run.task (some actor) details)]
        ((f.giveUp actor run).record type run.task (some actor) details)
  | finish {actor run} :
      f.running[actor]? = some run →
      Move f [.recorded ((f.finish actor run).event .completed run.task (some actor) none)]
        ((f.finish actor run).record .completed run.task (some actor) none)

/-- **Moves in a row**, with all the notes that they add. -/
inductive Moves : Foreman → List Note → Foreman → Prop
  | nil (f : Foreman) : Moves f [] f
  | cons {f f₁ f' : Foreman} {notes notes' : List Note} :
      Move f notes f₁ → Moves f₁ notes' f' → Moves f (notes ++ notes') f'

theorem Moves.single {notes : List Note} (h : Move f notes f') : Moves f notes f' := by
  have hrow := Moves.cons h (.nil f')
  rwa [List.append_nil] at hrow

/-- Operations are put together from rows of moves, and their notes are put in a row with them. -/
theorem Moves.append {notes notes' : List Note} (h : Moves f notes f') (h' : Moves f' notes' f'') :
    Moves f (notes ++ notes') f'' := by
  induction h with
  | nil => exact h'
  | cons hmove _ ih =>
    rw [List.append_assoc]
    exact .cons hmove (ih h')

/-! ## Who is doing what -/

/-- What an actor is doing is the task of its run, and actors without a run are doing nothing. -/
theorem currentTask?_eq_some_iff {actor : ActorId} {t : TaskId} :
    f.currentTask? actor = some t ↔ ∃ run, f.running[actor]? = some run ∧ run.task = t :=
  Option.map_eq_some_iff

theorem currentTask?_of_running {actor : ActorId} {run : Run} (h : f.running[actor]? = some run) :
    f.currentTask? actor = some run.task := by
  rw [currentTask?, h]
  rfl

/-- Only the actor whose run was ended has stopped; the others are doing what they did. -/
theorem currentTask?_of_erase {actor : ActorId} (h : f'.running = f.running.erase actor) (a : ActorId) :
    f'.currentTask? a = if actor = a then none else f.currentTask? a := by
  rw [currentTask?, h, lookup_erase]
  split <;> rfl

/-- Only the actor that was given a run is doing something else. -/
theorem currentTask?_of_insert {actor : ActorId} {run : Run} (h : f'.running = f.running.insert actor run)
    (a : ActorId) : f'.currentTask? a = if actor = a then some run.task else f.currentTask? a := by
  rw [currentTask?, h, lookup_insert]
  split <;> rfl

/-- The performer of a task is an actor that is doing it. -/
theorem currentTask?_of_performer? {t : TaskId} {actor : ActorId} (h : f.performer? t = some actor) :
    f.currentTask? actor = some t := by
  obtain ⟨⟨a, run⟩, hfind, rfl⟩ := Option.map_eq_some_iff.mp h
  have hmem := ExtTreeMap.mem_toList_iff_getElem?_eq_some.mp (List.mem_of_find?_eq_some hfind)
  have htask := List.find?_some hfind
  exact currentTask?_eq_some_iff.mpr ⟨run, hmem, eq_of_beq htask⟩

/-- A task without a performer is done by nobody. -/
theorem currentTask?_ne_of_performer? {t : TaskId} (h : f.performer? t = none) (actor : ActorId) :
    f.currentTask? actor ≠ some t := by
  intro hcur
  obtain ⟨run, hrun, htask⟩ := currentTask?_eq_some_iff.mp hcur
  have hmem := ExtTreeMap.mem_toList_iff_getElem?_eq_some.mpr hrun
  have hnone := List.find?_eq_none.mp (Option.map_eq_none_iff.mp h) _ hmem
  exact hnone (beq_iff_eq.mpr htask)

end Foreman

end TaskScript
