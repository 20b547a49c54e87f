import TaskScript.Proofs.Foreman.Moves

/-!
# `Proofs.Foreman.Ownership`: who is doing a task, said twice

That an actor is doing a task is kept in two places: in the table of runs, and in the status of the task on
the board. `Foreman.Owned` says that the two agree, and `Move.owned` that every move keeps them in agreement.

## Contents
- `Board.assignee?` after each change of a board.
- `Owned`, `Owned.congr`, `Owned.clear`, `Owned.give`.
- `Owned.performer?_eq`: whom the foreman finds.
- `Move.owned`: **every move keeps them in agreement**.
-/

namespace TaskScript

open Std

namespace Board

variable {b : Board}

/-- The actor that a task of the board is given to. -/
def assignee? (b : Board) (t : TaskId) : Option ActorId :=
  b[t]?.bind (·.status.assignee?)

theorem assignee?_insert {job : Job} (h : b.contains job.id = false) (t : TaskId) :
    (b.insert { job with }).assignee? t = b.assignee? t := by
  rw [assignee?, assignee?, getElem?_insert]
  by_cases ht : job.id = t
  · rw [contains_eq_isSome, Option.isSome_eq_false_iff, Option.isNone_iff_eq_none] at h
    rw [if_pos ht, ← ht, h]
    rfl
  · rw [if_neg ht]

/-- A change that keeps the status keeps the assignee. -/
theorem assignee?_modify_of_status {change : Task → Task} (h : ∀ x, (change x).status = x.status)
    (id t : TaskId) : (b.modify id change).assignee? t = b.assignee? t := by
  rw [assignee?, assignee?, getElem?_modify]
  split
  · cases b[t]? with
    | none => rfl
    | some x => exact congrArg TaskStatus.assignee? (h x)
  · rfl

theorem assignee?_join (id t : TaskId) (g : GroupId) :
    (b.modify id (·.join g)).assignee? t = b.assignee? t := by
  apply assignee?_modify_of_status
  intro x
  rfl

theorem assignee?_leave (id t : TaskId) (g : GroupId) :
    (b.modify id (·.leave g)).assignee? t = b.assignee? t := by
  apply assignee?_modify_of_status
  intro x
  rfl

/-- A change to a status without an assignee takes one task back. -/
theorem assignee?_modify_of_none {change : Task → Task} (h : ∀ x, (change x).status.assignee? = none)
    (id t : TaskId) : (b.modify id change).assignee? t = if id = t then none else b.assignee? t := by
  rw [assignee?, assignee?, getElem?_modify]
  split
  · cases b[t]? with
    | none => rfl
    | some x => exact h x
  · rfl

theorem assignee?_assignTo {id : TaskId} (h : b[id]?.isSome) (actor : ActorId) (t : TaskId) :
    (b.modify id (·.assignTo actor)).assignee? t = if id = t then some actor else b.assignee? t := by
  rw [assignee?, assignee?, getElem?_modify]
  by_cases ht : id = t
  · obtain ⟨x, hx⟩ := Option.isSome_iff_exists.mp h
    rw [if_pos ht, if_pos ht, ← ht, hx]
    rfl
  · rw [if_neg ht, if_neg ht]

theorem assignee?_erase (id t : TaskId) :
    (b.erase id).assignee? t = if id = t then none else b.assignee? t := by
  rw [assignee?, assignee?, getElem?_erase]
  split <;> rfl

end Board

theorem Task.release_assignee? (t : Task) : t.release.status.assignee? = none := by
  rw [release]
  dsimp only
  split <;> rfl

namespace Foreman

variable {f f' : Foreman}

/-- **The runs and the board agree**: an actor is doing a task exactly if the task is given to it. -/
def Owned (f : Foreman) : Prop :=
  ∀ actor t, f.currentTask? actor = some t ↔ f.board.assignee? t = some actor

theorem Owned.congr (h : f.Owned) (hcurrent : ∀ actor, f'.currentTask? actor = f.currentTask? actor)
    (hassignee : ∀ t, f'.board.assignee? t = f.board.assignee? t) : f'.Owned := by
  intro actor t
  rw [hcurrent, hassignee]
  exact h actor t

/-- An actor stops, and its task is taken back or done with. -/
theorem Owned.clear (h : f.Owned) {actor : ActorId} {run : Run} (hrun : f.running[actor]? = some run)
    {change : Task → Task} (hchange : ∀ x, (change x).status.assignee? = none)
    (hrunning : f'.running = f.running.erase actor) (hboard : f'.board = f.board.modify run.task change) :
    f'.Owned := by
  have hcur := currentTask?_of_running hrun
  intro a t
  rw [currentTask?_of_erase hrunning, hboard, Board.assignee?_modify_of_none hchange]
  by_cases ha : actor = a
  · -- the actor that stopped does nothing, and no other task was its own
    subst ha
    rw [if_pos rfl]
    constructor
    · intro hnone
      cases hnone
    · intro hat
      split at hat
      · cases hat
      · rename_i ht
        exact absurd (Option.some.inj (hcur.symm.trans ((h actor t).mpr hat))) ht
  · rw [if_neg ha, h a t]
    by_cases ht : run.task = t
    · -- the task that was given up was nobody else's
      rw [if_pos ht]
      constructor
      · intro hat
        rw [← ht, (h actor run.task).mp hcur] at hat
        exact absurd (Option.some.inj hat) ha
      · intro hnone
        cases hnone
    · rw [if_neg ht]

/-- An idle actor is given a task that nobody has. -/
theorem Owned.give (h : f.Owned) {actor : ActorId} (run : Run) (hidle : f.running[actor]? = none)
    (hon : f.board[run.task]?.isSome) (hfree : f.board.assignee? run.task = none)
    (hrunning : f'.running = f.running.insert actor run)
    (hboard : f'.board = f.board.modify run.task (·.assignTo actor)) : f'.Owned := by
  have hcur : f.currentTask? actor = none := by rw [currentTask?, hidle]; rfl
  intro a t
  rw [currentTask?_of_insert hrunning, hboard, Board.assignee?_assignTo hon]
  by_cases ha : actor = a
  · subst ha
    rw [if_pos rfl]
    by_cases ht : run.task = t
    · rw [if_pos ht, ht]
      exact ⟨fun _ => rfl, fun _ => rfl⟩
    · -- the actor was idle, so no other task can be its own
      rw [if_neg ht]
      constructor
      · intro heq
        exact absurd (Option.some.inj heq) ht
      · intro hat
        rw [(h actor t).mpr hat] at hcur
        cases hcur
  · rw [if_neg ha, h a t]
    by_cases ht : run.task = t
    · rw [if_pos ht, ← ht, hfree]
      constructor
      · intro hnone
        cases hnone
      · intro heq
        exact absurd (Option.some.inj heq) ha
    · rw [if_neg ht]

/-- The foreman finds the actor that the board names. -/
theorem Owned.performer?_eq (h : f.Owned) (t : TaskId) : f.performer? t = f.board.assignee? t := by
  cases hperf : f.performer? t with
  | some actor => exact ((h actor t).mp (currentTask?_of_performer? hperf)).symm
  | none =>
    cases hass : f.board.assignee? t with
    | none => rfl
    | some actor => exact absurd ((h actor t).mpr hass) (currentTask?_ne_of_performer? hperf actor)

/-! ## Moves -/

theorem Owned.giveUp (h : f.Owned) {actor : ActorId} {run : Run} (hrun : f.running[actor]? = some run) :
    (f.giveUp actor run).Owned :=
  h.clear hrun Task.release_assignee? rfl rfl

theorem Owned.withTask (h : f.Owned) {job : Job} (hfresh : f.board.contains job.id = false) :
    (f.withTask job).Owned :=
  h.congr (fun _ => rfl) (Board.assignee?_insert hfresh)

theorem Owned.stopped (h : f.Owned) (who : Option ActorId) : (f.stopped who).Owned := by
  rcases stopped_cases f who with hwho | ⟨actor, run, hrun, hwho⟩ <;> rw [hwho]
  · exact h
  · exact h.giveUp hrun

/-- A change of membership leaves it to everybody what to do. -/
theorem Owned.withMembership (h : f.Owned) (g : GroupId) {changed : Scheduler × Board}
    (hboard : ∀ t, changed.2.assignee? t = f.board.assignee? t) : (f.withMembership g changed).Owned :=
  h.congr (fun _ => rfl) hboard

/-- **Every move keeps the runs and the board in agreement.** -/
theorem Move.owned {notes : List Note} (hmove : Move f notes f') (hnamed : f.board.Named) (h : f.Owned) :
    f'.Owned := by
  cases hmove with
  | clock => exact h
  | register _ => exact h
  | handIn hfresh => exact h.withTask hfresh
  | @schedule g s t changed _ hadd =>
    have hboard := (Scheduler.added_of_add hadd).board
    exact h.withMembership g fun t' => by rw [hboard, Board.assignee?_join]
  | @leave g s t changed _ hremove =>
    have hboard := (Scheduler.removed_of_remove hremove).board
    exact h.withMembership g fun t' => by rw [hboard, Board.assignee?_leave]
  | @replace g s t job changed f₁ _ hfresh hf₁ hreplace =>
    have hstopped : f₁.Owned := by
      rw [hf₁]
      refine (h.stopped _).withTask ?_
      rw [contains_stopped, hfresh]
    have hboard := (Scheduler.replaced_of_replace hreplace).board
    exact hstopped.withMembership g fun t' => by rw [hboard, Board.assignee?_join, Board.assignee?_leave]
  | @drop t task htask hempty hnone =>
    refine h.congr (fun _ => rfl) fun t' => ?_
    -- nobody is doing the task, so it is given to nobody and is not missed
    have hfree : f.board.assignee? t = none := by rw [← h.performer?_eq, hnone]
    refine (Board.assignee?_erase t t').trans ?_
    split
    · rename_i ht
      rw [← ht, hfree]
    · rfl
  | @assign g s t actor board task hidle _ hassign _ =>
    obtain ⟨task', htask', hstatus, -, hboard⟩ := Scheduler.assigned_of_assign hnamed hassign
    have hfree : f.board.assignee? t = none := by
      rw [Board.assignee?, htask', Option.bind_some, hstatus]
      rfl
    exact h.give ⟨t, _⟩ hidle (htask' ▸ rfl) hfree rfl hboard
  | print _ => exact h
  | @goOn actor run execution hrun =>
    refine h.congr (fun a => ?_) fun _ => rfl
    rw [currentTask?_of_insert rfl]
    split
    · rename_i ha
      rw [← ha, currentTask?_of_running hrun]
    · rfl
  | giveUp hrun _ => exact h.giveUp hrun
  | finish hrun => exact h.clear hrun (fun _ => rfl) rfl rfl

end Foreman

end TaskScript
