import TaskScript.Grid
import TaskScript.Proofs.Foreman.Effect

/-!
# `Proofs.Foreman.Undo`: giving a task up undoes its assignment

An actor that is given a task and gives it up again, because it is interrupted or because its program fails, leaves no
trace but in the log. In between the actor is `Engaged`: whatever its program has done, and however many turns it had,
the foreman is the one from before the assignment, with the status of one task and one entry of the table of runs
changed. To give the task up takes back the one and erases the other.

So the next assignment finds what the first one has found (`Relogged.assignIdle`), and gives out the same task with a new
execution.

## Contents
- `Relogged`: foremen that differ in their logs.
- `Engaged`, `engaged_assignIdle`, `Engaged.runActor`, `Engaged.giveUp`: **from the assignment to its end**.
- `Continues`, `GivesUp`: turns in a row, and how they end.
- `giving_up_undoes_assignment`.
-/

namespace TaskScript

open Std

/-! ## Tables -/

theorem insert_insert_self (running : ExtTreeMap ActorId Run) (actor : ActorId) (run run' : Run) :
    (running.insert actor run).insert actor run' = running.insert actor run' := by
  apply ExtTreeMap.ext_getElem?
  intro a
  rw [lookup_insert, lookup_insert, lookup_insert]
  split <;> rfl

theorem erase_insert_self {running : ExtTreeMap ActorId Run} {actor : ActorId} (run : Run)
    (h : running[actor]? = none) : (running.insert actor run).erase actor = running := by
  apply ExtTreeMap.ext_getElem?
  intro a
  rw [lookup_erase, lookup_insert]
  split
  · rename_i ha
    rw [← ha, h]
  · rfl

/-- **To take back a task that was given away** restores the board: the task was nobody's before. -/
theorem Board.release_assignTo {b : Board} {t : TaskId} {task : Task} (htask : b[t]? = some task)
    (hfree : task.status = .unassigned) (actor : ActorId) :
    (b.modify t (·.assignTo actor)).modify t (·.release) = b := by
  have htables : ((b.modify t (·.assignTo actor)).modify t (·.release)).tasks = b.tasks := by
    apply ExtTreeMap.ext_getElem?
    intro t'
    show ((b.modify t (·.assignTo actor)).modify t (·.release))[t']? = b[t']?
    rw [Board.getElem?_modify, Board.getElem?_modify]
    split
    · rename_i ht
      have hsame : (task.assignTo actor).release = task := by
        obtain ⟨job, status, groups⟩ := task
        cases hfree
        rfl
      rw [← ht, htask, Option.map_some, Option.map_some, hsame]
    · rfl
  exact congrArg Board.mk htables

namespace Foreman

variable {f f' f'' : Foreman} {t : TaskId} {actor : ActorId} {g : GroupId}

/-! ## The log -/

/-- The foremen are the same but for their logs and the counters of these. -/
def Relogged (f f' : Foreman) : Prop :=
  ∃ events sequence, f' = { f with events, sequence }

theorem Relogged.trans (h : Relogged f f') (h' : Relogged f' f'') : Relogged f f'' := by
  obtain ⟨_, _, rfl⟩ := h
  obtain ⟨events, sequence, rfl⟩ := h'
  exact ⟨events, sequence, rfl⟩

theorem relogged_record (f : Foreman) (type : EventType) (t : TaskId) (actor : Option ActorId) (details : Option Json) :
    Relogged f (f.record type t actor details) :=
  ⟨_, _, rfl⟩

theorem relogged_recordPrints (f : Foreman) (t : TaskId) (actor : ActorId) (values : List Value) :
    Relogged f (f.recordPrints t actor values) :=
  ⟨_, _, recordPrints_eq t actor values⟩

/-- **An assignment does not look at the log.** -/
theorem Relogged.assignIdle (h : Relogged f f') (actor : ActorId) (g : GroupId) :
    Relogged (f.assignIdle actor g).1 (f'.assignIdle actor g).1 ∧
      (f'.assignIdle actor g).2 = (f.assignIdle actor g).2 := by
  obtain ⟨events, sequence, rfl⟩ := h
  unfold Foreman.assignIdle
  dsimp only
  cases f.running[actor]? with
  | some run => exact ⟨⟨events, sequence, rfl⟩, rfl⟩
  | none =>
    dsimp only
    cases f.schedulers[g]?.bind fun s => s.assign f.board actor fun _ => true with
    | none => exact ⟨⟨events, sequence, rfl⟩, rfl⟩
    | some given =>
      obtain ⟨t, board⟩ := given
      dsimp only
      cases board[t]? with
      | none => exact ⟨⟨events, sequence, rfl⟩, rfl⟩
      | some task => exact ⟨⟨_, _, rfl⟩, rfl⟩

/-! ## While the actor has the task -/

/-- **A foreman whose actor was given a task**: it is the one from before but for the log, and for what it keeps about
the actor and the task. -/
def Engaged (f : Foreman) (actor : ActorId) (t : TaskId) (f' : Foreman) : Prop :=
  ∃ execution, Relogged (f.withRun actor ⟨t, execution⟩ (f.board.modify t (·.assignTo actor))) f'

theorem Engaged.running (h : Engaged f actor t f') : ∃ execution, f'.running[actor]? = some ⟨t, execution⟩ := by
  obtain ⟨execution, events, sequence, rfl⟩ := h
  exact ⟨execution, lookup_insert_self f.running actor ⟨t, execution⟩⟩

/-- **What an assignment does**: it gives away a task that was nobody's, and starts a new execution of it. -/
theorem engaged_assignIdle (h : f.Sound) (hidle : f.running[actor]? = none) (hassign : (f.assignIdle actor g).2 = some t) :
    ∃ task, f.board[t]? = some task ∧ task.status = .unassigned ∧
      Engaged f actor t (f.assignIdle actor g).1 ∧
      (f.assignIdle actor g).1.running[actor]? = some ⟨t, .start task.toJob f.maxSteps⟩ := by
  unfold Foreman.assignIdle at hassign ⊢
  rw [hidle] at hassign ⊢
  dsimp only at hassign ⊢
  cases hgiven : f.schedulers[g]?.bind fun s => s.assign f.board actor fun _ => true with
  | none =>
    rw [hgiven] at hassign
    cases hassign
  | some given =>
    obtain ⟨t', board⟩ := given
    obtain ⟨s, -, hassigned⟩ := Option.bind_eq_some_iff.mp hgiven
    obtain ⟨task, htask, hfree, -, rfl⟩ := Scheduler.assigned_of_assign h.mirrored.named hassigned
    have hboard : (f.board.modify t' (·.assignTo actor))[t']? = some (task.assignTo actor) := by
      rw [Board.getElem?_modify, if_pos rfl, htask]
      rfl
    rw [hgiven] at hassign
    dsimp only at hassign ⊢
    rw [hboard] at hassign ⊢
    obtain rfl := Option.some.inj hassign
    exact ⟨task, htask, hfree, ⟨_, _, _, rfl⟩, lookup_insert_self f.running actor _⟩

theorem Engaged.relogged (h : Engaged f actor t f') (hlog : Relogged f' f'') : Engaged f actor t f'' := by
  obtain ⟨execution, hbefore⟩ := h
  exact ⟨execution, hbefore.trans hlog⟩

theorem Engaged.goOn (h : Engaged f actor t f') (execution : Execution) :
    Engaged f actor t { f' with running := f'.running.insert actor ⟨t, execution⟩ } := by
  obtain ⟨_, events, sequence, rfl⟩ := h
  refine ⟨execution, events, sequence, ?_⟩
  dsimp only [withRun]
  rw [insert_insert_self]

/-- **To give the task up** leads back to before the assignment. -/
theorem Engaged.giveUp (h : Engaged f actor t f') (hidle : f.running[actor]? = none) {task : Task}
    (htask : f.board[t]? = some task) (hfree : task.status = .unassigned) (execution : Execution) :
    Relogged f (f'.giveUp actor ⟨t, execution⟩) := by
  obtain ⟨_, events, sequence, rfl⟩ := h
  refine ⟨events, sequence, ?_⟩
  unfold Foreman.giveUp withRun
  dsimp only
  rw [erase_insert_self _ hidle, Board.release_assignTo htask hfree]

variable {around : Surroundings} {dt : Float} {shift : Shift}

/-- **A turn of an actor that is engaged**, unless it completes the task: the actor stays engaged, or the program fails and
the foreman is as before the assignment. -/
theorem Engaged.runActor (h : Engaged f actor t f') (hidle : f.running[actor]? = none) {task : Task}
    (htask : f.board[t]? = some task) (hfree : task.status = .unassigned)
    (hshift : f'.runActor around actor dt = .ok shift) :
    shift.report = .running t ∧ Engaged f actor t shift.foreman ∨ shift.report = .completed t ∨
      (∃ cause, shift.report = .failed t cause) ∧ Relogged f shift.foreman := by
  obtain ⟨execution, hrun⟩ := h.running
  have hends := ends_of_runActor hrun hshift
  have hprinted := h.relogged (relogged_recordPrints f' t actor (execution.turn around actor dt).output)
  dsimp only at hends
  generalize f'.recordPrints t actor (execution.turn around actor dt).output = g at hends hprinted
  obtain ⟨after, report, requests⟩ := shift
  cases hends with
  | @goesOn execution' => exact .inl ⟨rfl, hprinted.goOn execution'⟩
  | completes => exact .inr (.inl rfl)
  | @fails cause =>
    have hback := hprinted.giveUp hidle htask hfree execution
    exact .inr (.inr ⟨⟨cause, rfl⟩, hback.trans (relogged_record _ _ _ _ _)⟩)

/-! ## Turns and their end -/

/-- **Turns in a row** of one actor, after each of which its task goes on: full turns, and turns without time. -/
inductive Continues (actor : ActorId) : Foreman → Foreman → Prop
  | refl (f : Foreman) : Continues actor f f
  | run {f f' : Foreman} {around : Surroundings} {dt : Float} {shift : Shift} {t : TaskId} :
      f.runActor around actor dt = .ok shift → shift.report = .running t → Continues actor shift.foreman f' →
      Continues actor f f'
  | settle {f f' : Foreman} {around : Surroundings} {shift : Shift} {t : TaskId} :
      f.settleActor around actor = .ok shift → shift.report = .running t → Continues actor shift.foreman f' →
      Continues actor f f'

/-- **An actor gives its task up**: it is interrupted, or the program fails in a turn. -/
inductive GivesUp (actor : ActorId) (f : Foreman) : Foreman → Prop
  | interrupt : GivesUp actor f (f.interrupt actor).1
  | run {around : Surroundings} {dt : Float} {shift : Shift} {t : TaskId} {cause : EvaluationError} :
      f.runActor around actor dt = .ok shift → shift.report = .failed t cause → GivesUp actor f shift.foreman
  | settle {around : Surroundings} {shift : Shift} {t : TaskId} {cause : EvaluationError} :
      f.settleActor around actor = .ok shift → shift.report = .failed t cause → GivesUp actor f shift.foreman

/-- **However long the actor goes on**, it stays engaged. -/
theorem Engaged.continues (h : Engaged f actor t f') (hidle : f.running[actor]? = none) {task : Task}
    (htask : f.board[t]? = some task) (hfree : task.status = .unassigned) (hturns : Continues actor f' f'') :
    Engaged f actor t f'' := by
  induction hturns with
  | refl => exact h
  | run hshift hruns _ ih | settle hshift hruns _ ih =>
    refine ih ?_
    rcases h.runActor hidle htask hfree hshift with ⟨-, hengaged⟩ | hcompleted | ⟨⟨_, hfailed⟩, -⟩
    · exact hengaged
    · rw [hruns] at hcompleted
      cases hcompleted
    · rw [hruns] at hfailed
      cases hfailed

/-- **Whichever way the actor gives up**, the foreman is as before the assignment. -/
theorem Engaged.givesUp (h : Engaged f actor t f') (hidle : f.running[actor]? = none) {task : Task}
    (htask : f.board[t]? = some task) (hfree : task.status = .unassigned) (hend : GivesUp actor f' f'') :
    Relogged f f'' := by
  cases hend with
  | interrupt =>
    obtain ⟨execution, hrun⟩ := h.running
    rw [interrupt_eq hrun]
    exact (h.giveUp hidle htask hfree execution).trans (relogged_record _ _ _ _ _)
  | run hshift hfails | settle hshift hfails =>
    rcases h.runActor hidle htask hfree hshift with ⟨hruns, -⟩ | hcompleted | ⟨-, hback⟩
    · rw [hfails] at hruns
      cases hruns
    · rw [hfails] at hcompleted
      cases hcompleted
    · exact hback

/-! ## Assignments that are undone -/

variable {maxSteps : UInt32} {f₂ f₃ : Foreman}

/-- **To give a task up undoes its assignment.** Take any foreman that there can be and an actor that does nothing. If the
actor is given a task, goes on with it for any number of turns, and is interrupted or fails, the foreman is as it was
before, but for the log: the board, the schedulers, and what all actors are doing. So the next assignment gives the actor
the same task again, with a new execution, and leaves what the first one has left. -/
theorem giving_up_undoes_assignment (h : Reachable maxSteps f) (hidle : f.running[actor]? = none)
    (hassign : (f.assignIdle actor g).2 = some t) (hturns : Continues actor (f.assignIdle actor g).1 f₂)
    (hend : GivesUp actor f₂ f₃) :
    f₃ = { f with events := f₃.events, sequence := f₃.sequence } ∧
      (f₃.assignIdle actor g).2 = some t ∧
      Relogged (f.assignIdle actor g).1 (f₃.assignIdle actor g).1 ∧
      ∃ task, f.board[t]? = some task ∧
        (f₃.assignIdle actor g).1.running[actor]? = some ⟨t, .start task.toJob f.maxSteps⟩ := by
  obtain ⟨task, htask, hfree, hengaged, hstarted⟩ := engaged_assignIdle h.sound_held.1 hidle hassign
  have hback := (hengaged.continues hidle htask hfree hturns).givesUp hidle htask hfree hend
  obtain ⟨hagain, hanswer⟩ := hback.assignIdle actor g
  refine ⟨?_, hanswer.trans hassign, hagain, task, htask, ?_⟩
  · obtain ⟨_, _, rfl⟩ := hback
    rfl
  · obtain ⟨_, _, hsame⟩ := hagain
    rw [hsame]
    exact hstarted

/-- A job that asks for some work, and then fails. -/
def errand : Job where
  id := ⟨1⟩
  name := "errand"
  priority := 0
  program :=
    { nodes := #[⟨none, .sequence [1, 2]⟩, ⟨some 0, .leaf (.action (.work .here))⟩,
        ⟨some 0, .leaf (.print (.bool (.variable "done")))⟩]
      root := 0 }
  selected := none

/-- A group in which the errand is scheduled. -/
def withErrand : Foreman :=
  ((registerGroup { maxSteps := 8 } ⟨1⟩).1.addTask ⟨1⟩ errand).1

theorem reachable_withErrand : Reachable 8 withErrand :=
  (Reachable.new.perform (.registerGroup ⟨1⟩) rfl).perform (.addTask ⟨1⟩ errand) rfl

/-- The theorem applies, for instance if an actor asks for the work in one turn, and fails in the next. -/
theorem giving_up_undoes_errand :
    let around := (Grid.addActor ⟨1, 1, 1, ∅, ∅, ∅, ∅, #[]⟩ ⟨7⟩ ⟨1⟩ ⟨0, 0, 0⟩).surroundings
    Reachable 8 withErrand ∧ withErrand.running[(⟨7⟩ : ActorId)]? = none ∧
      (withErrand.assignIdle ⟨7⟩ ⟨1⟩).2 = some ⟨1⟩ ∧
      ∃ shift shift', (withErrand.assignIdle ⟨7⟩ ⟨1⟩).1.runActor around ⟨7⟩ 1.0 = .ok shift ∧
        shift.report = .running ⟨1⟩ ∧ shift.foreman.settleActor around ⟨7⟩ = .ok shift' ∧
        shift'.report = .failed ⟨1⟩ (.unboundVariable "done") ∧
        shift'.foreman =
          { withErrand with events := shift'.foreman.events, sequence := shift'.foreman.sequence } := by
  intro around
  have hidle : withErrand.running[(⟨7⟩ : ActorId)]? = none := rfl
  have hassign : (withErrand.assignIdle ⟨7⟩ ⟨1⟩).2 = some ⟨1⟩ := by decide
  obtain ⟨shift, hshift, hruns, shift', hshift', hfails⟩ :
      ∃ shift, (withErrand.assignIdle ⟨7⟩ ⟨1⟩).1.runActor around ⟨7⟩ 1.0 = .ok shift ∧
        shift.report = .running ⟨1⟩ ∧ ∃ shift', shift.foreman.settleActor around ⟨7⟩ = .ok shift' ∧
          shift'.report = .failed ⟨1⟩ (.unboundVariable "done") := ⟨_, rfl, rfl, _, rfl, rfl⟩
  have hundone := giving_up_undoes_assignment reachable_withErrand hidle hassign (.run hshift hruns (.refl _))
    (.settle hshift' hfails)
  exact ⟨reachable_withErrand, hidle, hassign, shift, shift', hshift, hruns, hshift', hfails, hundone.1⟩

end Foreman

end TaskScript
