import TaskScript.Proofs.Foreman.Reachable

/-!
# `Proofs.Foreman.Refusal`: when a change is refused, and what is left behind

Four operations change what is scheduled, and each of them can be refused. Some of the code makes a part of
the change before it asks a scheduler, whose answer may be a refusal again. `Foreman.refusal?` is what a
caller can tell beforehand, from the board and the members alone: no late refusal is possible besides, because
the schedulers and the board agree.

## Contents
- `Change`, `change`: the four operations as one.
- `refusal?`: **why a change is refused**, the checks in their order.
- `Answered`, and a lemma `_answered` for each operation: **an answer is as foretold**.
- `refused_changes_nothing`: **a refusal changes nothing**.
-/

namespace TaskScript

open Std

/-- A scheduler refuses a task for two reasons only: that it has the task, or that the board has not. -/
theorem Scheduler.add_accepted {s : Scheduler} {b : Board} {t : TaskId} (hfresh : t ∉ s.taskIds)
    (hon : b[t]?.isSome) : ∃ changed, s.add b t = .ok changed := by
  cases hadd : s.add b t with
  | ok changed => exact ⟨changed, rfl⟩
  | error e =>
    rcases add_error hadd with hmem | hnone
    · exact absurd hmem hfresh
    · rw [hnone] at hon
      cases hon

/-- A replacement can be refused by a scheduler for one reason more: that the task to be replaced is no member. -/
theorem Scheduler.replace_accepted {s : Scheduler} {b : Board} {t r : TaskId} (hmem : t ∈ s.taskIds)
    (hfresh : r ∉ s.taskIds) (hon : b[r]?.isSome) : ∃ changed, s.replace b t r = .ok changed := by
  cases hreplace : s.replace b t r with
  | ok changed => exact ⟨changed, rfl⟩
  | error e =>
    rcases replace_error hreplace with hmem' | hmem' | hnone
    · exact absurd hmem hmem'
    · exact absurd hmem' hfresh
    · rw [hnone] at hon
      cases hon

namespace Foreman

variable {f : Foreman} {g : GroupId} {s : Scheduler} {t : TaskId} {job : Job} {e : SchedulingError}

/-- A change of what is scheduled. -/
inductive Change where
  | addTask (group : GroupId) (job : Job)
  | scheduleExisting (group : GroupId) (task : TaskId)
  | removeTask (group : GroupId) (task : TaskId)
  | replaceTask (group : GroupId) (member : TaskId) (replacement : Job)

/-- The foreman after a change, and whether it was refused. -/
def change (f : Foreman) : Change → Foreman × Except SchedulingError Unit
  | .addTask group job => (f.addTask group job).map id (·.map fun _ => ())
  | .scheduleExisting group task => f.scheduleExisting group task
  | .removeTask group task => (f.removeTask group task).map id (·.map fun _ => ())
  | .replaceTask group member replacement =>
    (f.replaceTask group member replacement).map id (·.map fun _ => ())

/-- Whether a task is scheduled in a group. -/
def schedules (f : Foreman) (group : GroupId) (task : TaskId) : Bool :=
  f.schedulers[group]?.any (·.contains task)

/-- **Why a change is refused**: first for its group, then for the task that it names, and then for the name of
the job that it hands in. -/
def refusal? (f : Foreman) : Change → Option SchedulingError
  | .addTask group job =>
    if !f.schedulers.contains group then some (.unknownGroup group)
    else if f.board.contains job.id then some (.duplicateTask job.id group)
    else none
  | .scheduleExisting group task =>
    if !f.schedulers.contains group then some (.unknownGroup group)
    else if f.schedules group task then some (.duplicateTask task group)
    else if !f.board.contains task then some (.unknownTask task group)
    else none
  | .removeTask group task =>
    if !f.schedulers.contains group then some (.unknownGroup group)
    else if !f.schedules group task then some (.unknownTask task group)
    else none
  | .replaceTask group member replacement =>
    if !f.schedulers.contains group then some (.unknownGroup group)
    else if !f.schedules group member then some (.unknownTask member group)
    else if f.board.contains replacement.id then some (.duplicateTask replacement.id group)
    else none

theorem schedules_eq (hs : f.schedulers[g]? = some s) (t : TaskId) : f.schedules g t = s.contains t := by
  rw [schedules, hs]
  rfl

theorem contains_schedulers : f.schedulers.contains g = f.schedulers[g]?.isSome :=
  ExtTreeMap.contains_eq_isSome_getElem?

/-- An answer that is as foretold: a refusal for the reason that was given, which changes nothing, or else no
refusal. -/
def Answered {α : Type} (f : Foreman) (answer : Foreman × Except SchedulingError α) :
    Option SchedulingError → Prop
  | some e => answer = (f, .error e)
  | none => ∃ a, answer.2 = .ok a

/-! ## The four operations

Only the last case of each needs an argument: the checks are passed, and it remains that the scheduler does not
refuse either.
-/

/-- A job whose name is not on the board is in no group either, so the scheduler that is asked last has no reason
to refuse. -/
theorem addTask_answered (h : f.Sound) (g : GroupId) (job : Job) :
    f.Answered (f.addTask g job) (f.refusal? (.addTask g job)) := by
  rw [refusal?, contains_schedulers, addTask]
  cases hs : f.schedulers[g]? with
  | none => rfl
  | some s =>
    dsimp only [Option.isSome_some, Bool.not_true]
    cases hnew : f.board.contains job.id with
    | true => rfl
    | false =>
      have hfresh := h.mirrored.not_mem_of_contains hs hnew
      obtain ⟨changed, hadd⟩ := Scheduler.add_accepted hfresh (isSome_withTask job (f := f))
      rw [show s.add (f.board.insert { job with }) job.id = .ok changed from hadd]
      exact ⟨_, rfl⟩

/-- To share a task is checked by the scheduler alone, in the same order. -/
theorem scheduleExisting_answered (h : f.Sound) (g : GroupId) (t : TaskId) :
    f.Answered (f.scheduleExisting g t) (f.refusal? (.scheduleExisting g t)) := by
  rw [refusal?, contains_schedulers, scheduleExisting]
  cases hs : f.schedulers[g]? with
  | none => rfl
  | some s =>
    dsimp only [Option.isSome_some, Bool.not_true]
    rw [schedules_eq hs, Board.contains_eq_isSome, Scheduler.add, h.mirrored.own hs]
    cases hmem : s.contains t with
    | true => rfl
    | false =>
      cases htask : f.board[t]? with
      | none => rfl
      | some task => exact ⟨_, rfl⟩

theorem removeTask_answered (h : f.Sound) (g : GroupId) (t : TaskId) :
    f.Answered (f.removeTask g t) (f.refusal? (.removeTask g t)) := by
  rw [refusal?, contains_schedulers, removeTask]
  cases hs : f.schedulers[g]? with
  | none => rfl
  | some s =>
    dsimp only [Option.isSome_some, Bool.not_true]
    rw [schedules_eq hs, Scheduler.remove, h.mirrored.own hs]
    cases hmem : s.contains t with
    | true => exact ⟨_, rfl⟩
    | false => rfl

/-- **No replacement is refused half-way.** The performer of the original is stopped before the scheduler is asked,
which would be too late for a refusal; but a member of the group and a name that is new on the board are enough for
the scheduler. -/
theorem replaceTask_answered (h : f.Sound) (g : GroupId) (t : TaskId) (job : Job) :
    f.Answered (f.replaceTask g t job) (f.refusal? (.replaceTask g t job)) := by
  rw [refusal?, contains_schedulers]
  cases hs : f.schedulers[g]? with
  | none =>
    rw [replaceTask, hs]
    rfl
  | some s =>
    rw [schedules_eq hs]
    dsimp only [Option.isSome_some, Bool.not_true]
    cases hmem : s.contains t with
    | false =>
      rw [replaceTask, hs]
      dsimp only
      rw [hmem]
      rfl
    | true =>
      cases hnew : f.board.contains job.id with
      | true =>
        rw [replaceTask, hs]
        dsimp only
        rw [hmem, hnew, Bool.or_true]
        rfl
      | false =>
        -- what is not on the board is no member, so the two places where the name is looked up agree
        have hmember := Scheduler.contains_iff.mp hmem
        have hfresh := h.mirrored.not_mem_of_contains hs hnew
        obtain ⟨changed, hreplace⟩ := Scheduler.replace_accepted hmember hfresh
          (isSome_withTask job (f := f.stopped (f.performer? t)))
        rw [replaceTask_eq hs hmember hfresh hnew, hreplace]
        exact ⟨_, rfl⟩

/-! ## All changes -/

/-- What is answered on success is no matter for a refusal. -/
theorem Answered.map {α β : Type} {answer : Foreman × Except SchedulingError α} {refusal : Option SchedulingError}
    (h : f.Answered answer refusal) (change : α → β) :
    f.Answered (answer.map id (·.map change)) refusal := by
  cases refusal with
  | some e =>
    rw [show answer = (f, .error e) from h]
    rfl
  | none =>
    obtain ⟨a, ha⟩ := h
    exact ⟨change a, by rw [Prod.map_snd, ha]; rfl⟩

/-- **A change is answered as foretold.** -/
theorem change_answered (h : f.Sound) (c : Change) : f.Answered (f.change c) (f.refusal? c) := by
  cases c with
  | addTask g job => exact (addTask_answered h g job).map _
  | scheduleExisting g t => exact scheduleExisting_answered h g t
  | removeTask g t => exact (removeTask_answered h g t).map _
  | replaceTask g t job => exact (replaceTask_answered h g t job).map _

/-- What was refused was refused for the reason foretold, and changed nothing. -/
theorem Answered.of_error {α : Type} {answer : Foreman × Except SchedulingError α}
    {refusal : Option SchedulingError} (h : f.Answered answer refusal) (he : answer.2 = .error e) :
    refusal = some e ∧ answer = (f, .error e) := by
  cases refusal with
  | some e' =>
    have heq : answer = (f, .error e') := h
    rw [heq] at he
    cases he
    exact ⟨rfl, heq⟩
  | none =>
    obtain ⟨a, ha⟩ := h
    rw [ha] at he
    cases he

variable {maxSteps : UInt32}

/-- **A refusal changes nothing**, and a change is refused exactly for the reasons foretold: its group is not
registered, the task to share is a member already or not on the board, the task to remove or to replace is no
member, or the name of the job is on the board. -/
theorem refused_changes_nothing (h : Reachable maxSteps f) (c : Change) (e : SchedulingError) :
    ((f.change c).2 = .error e ↔ f.refusal? c = some e) ∧
      ((f.change c).2 = .error e → (f.change c).1 = f) := by
  have hanswered := change_answered h.sound_held.1 c
  refine ⟨⟨fun herror => (hanswered.of_error herror).1, fun hrefusal => ?_⟩, fun herror => ?_⟩
  · rw [hrefusal] at hanswered
    rw [show f.change c = (f, .error e) from hanswered]
  · rw [(hanswered.of_error herror).2]

/-- A task that an actor is doing gives way to no job whose name is taken, and the actor goes on. -/
theorem sharedDig_keeps_taken_name :
    Reachable 8 sharedDig ∧
      (sharedDig.change (.replaceTask ⟨2⟩ ⟨1⟩ dig)).2 = .error (.duplicateTask ⟨1⟩ ⟨2⟩) ∧
      (sharedDig.change (.replaceTask ⟨2⟩ ⟨1⟩ dig)).1 = sharedDig := by
  obtain ⟨hiff, hsame⟩ := refused_changes_nothing reachable_sharedDig (.replaceTask ⟨2⟩ ⟨1⟩ dig)
    (.duplicateTask ⟨1⟩ ⟨2⟩)
  have hrefused := hiff.mpr (by decide)
  exact ⟨reachable_sharedDig, hrefused, hsame hrefused⟩

end Foreman

end TaskScript
