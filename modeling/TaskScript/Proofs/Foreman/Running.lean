import TaskScript.Proofs.Foreman.EventLog

/-!
# `Proofs.Foreman.Running`: who is running what after an operation

An operation leaves the run of every actor as it is, but for the one actor that it is about: it starts a run,
gives it a turn, or ends it. An actor that is stopped by a change of what is scheduled is named in the answer,
so that whoever made the change can stop it too.

The executions of runs are of jobs that were handed in. `HandedOnly` keeps what is known of these jobs.

## Contents
- `HandedOnly`: foremen to whom only certain jobs were handed in.
- `stoppedBy`, `running_removeTask`, `running_replaceTask`, `running_interrupt`: **runs that are ended**.
- `running_assignIdle`: **runs that are started**.
- `Gives`, `gives_of_runActor`: **turns**.
-/

namespace TaskScript.Foreman

open Std

variable {f f' : Foreman} {P Q : Job → Prop}

/-! ## Jobs that were handed in -/

/-- **A foreman that there can be, to whom only jobs with a property were handed in.** -/
def HandedOnly (P : Job → Prop) (f : Foreman) : Prop :=
  ∃ maxSteps diary collected, History maxSteps diary collected f ∧ ∀ job, Note.handedIn job ∈ diary → P job

theorem handedOnly_new (maxSteps : UInt32) : HandedOnly P { maxSteps } :=
  ⟨maxSteps, [], [], .new, fun _ hjob => absurd hjob List.not_mem_nil⟩

theorem HandedOnly.mono (h : f.HandedOnly P) (himp : ∀ job, P job → Q job) : f.HandedOnly Q := by
  obtain ⟨maxSteps, diary, collected, hhistory, hjobs⟩ := h
  exact ⟨maxSteps, diary, collected, hhistory, fun job hjob => himp job (hjobs job hjob)⟩

/-- An operation hands in the jobs that it is accepted with, and events hand in nothing. So a property of all jobs
is kept by an operation whose jobs have it. -/
theorem HandedOnly.perform (h : f.HandedOnly P) (op : Operation) (hop : f.perform op = .ok f')
    (hnew : ∀ job ∈ f.accepted op, P job) : f'.HandedOnly P := by
  obtain ⟨maxSteps, diary, collected, hhistory, hjobs⟩ := h
  refine ⟨maxSteps, _, collected, hhistory.perform op hop, fun job hjob => ?_⟩
  rcases List.mem_append.mp hjob with hold | hjob
  · exact hjobs job hold
  rcases List.mem_append.mp hjob with hjob | hevent
  · obtain ⟨job', hjob', heq⟩ := List.mem_map.mp hjob
    cases heq
    exact hnew job hjob'
  · obtain ⟨event, -, heq⟩ := List.mem_map.mp hevent
    cases heq

/-- To collect events takes nothing away from what was handed in. -/
theorem HandedOnly.drain (h : f.HandedOnly P) : f.drainEvents.1.HandedOnly P := by
  obtain ⟨maxSteps, diary, collected, hhistory, hjobs⟩ := h
  exact ⟨maxSteps, diary, _, hhistory.drain, hjobs⟩

theorem HandedOnly.sound (h : f.HandedOnly P) : f.Sound := by
  obtain ⟨_, _, _, hhistory, -⟩ := h
  exact hhistory.reachable.sound_held.1

/-- What is on the board was handed in. -/
theorem HandedOnly.of_board (h : f.HandedOnly P) {t : TaskId} {task : Task} (htask : f.board[t]? = some task) :
    P task.toJob := by
  obtain ⟨_, diary, _, hhistory, hjobs⟩ := h
  obtain ⟨note, hnote, hjob⟩ := List.exists_of_findSome?_eq_some (hhistory.known.latest t task htask)
  refine hjobs _ ?_
  cases note with
  | recorded event => cases hjob
  | handedIn job =>
    rw [Note.job?] at hjob
    split at hjob <;> cases hjob
    exact List.mem_reverse.mp hnote

/-! ## Runs that are ended -/

/-- The actor that was stopped, by what is answered. -/
def stoppedBy : Except SchedulingError (Option ActorId) → Option ActorId
  | .ok who => who
  | .error _ => none

/-- An interruption ends the run of its actor, if there is one, and no other. -/
theorem running_interrupt (f : Foreman) (actor b : ActorId) :
    (f.interrupt actor).1.running[b]? = if actor = b then none else f.running[b]? := by
  cases hrun : f.running[actor]? with
  | none =>
    rw [interrupt_eq_none hrun]
    split
    · rename_i h
      exact h ▸ hrun
    · rfl
  | some run =>
    rw [interrupt_eq hrun]
    exact lookup_erase f.running actor b

/-- To drop a task that no group has any more ends one run at most, and the answer names whose. -/
theorem running_dropIfOrphaned (f : Foreman) (t : TaskId) (b : ActorId) :
    (f.dropIfOrphaned t).1.running[b]? =
      if (f.dropIfOrphaned t).2 = some b then none else f.running[b]? := by
  rcases dropIfOrphaned_cases f t with ⟨-, heq⟩ | ⟨_, -, -, -, heq⟩ | ⟨_, actor, run, f₁, -, -, -, -, -, hf₁, heq⟩ <;>
    rw [heq]
  · rfl
  · rfl
  · have hrunning : f₁.running = f.running.erase actor := by rw [hf₁]; rfl
    simp only [hrunning, lookup_erase, Option.some.injEq]

/-- **Who is stopped by a removal is answered**: every other actor goes on with the run it has. A refused removal
stops nobody. -/
theorem running_removeTask (f : Foreman) (g : GroupId) (t : TaskId) (b : ActorId) :
    (f.removeTask g t).1.running[b]? =
      if stoppedBy (f.removeTask g t).2 = some b then none else f.running[b]? := by
  rcases removeTask_cases f g t with ⟨e, heq⟩ | ⟨s, changed, f₁, -, -, hf₁, heq⟩
  · rw [heq]
    rfl
  · rw [heq, running_dropIfOrphaned, hf₁]
    rfl

/-- A task without a performer is dropped without stopping anybody. -/
theorem dropIfOrphaned_idle {t : TaskId} (h : f.performer? t = none) : (f.dropIfOrphaned t).2 = none := by
  rcases dropIfOrphaned_cases f t with ⟨-, heq⟩ | ⟨_, -, -, -, heq⟩ | ⟨_, _, _, _, -, -, hperf, -⟩
  · rw [heq]
  · rw [heq]
  · rw [h] at hperf
    cases hperf

/-- To stop the performer of a task ends that actor's run; where nobody is at the task, it ends none. -/
theorem running_stopped_performer (f : Foreman) (t : TaskId) (b : ActorId) :
    (f.stopped (f.performer? t)).running[b]? =
      if f.performer? t = some b then none else f.running[b]? := by
  cases hperf : f.performer? t with
  | none => rfl
  | some actor =>
    obtain ⟨run, hrun, -⟩ := currentTask?_eq_some_iff.mp (currentTask?_of_performer? hperf)
    rw [stopped_some hrun, giveUp, lookup_erase]
    simp only [Option.some.injEq]

/-- **Who is stopped by a replacement is answered.** The performer is stopped before the original leaves the group,
so the original finds nobody to stop when it is dropped. -/
theorem running_replaceTask (h : f.Sound) (g : GroupId) (t : TaskId) (job : Job) (b : ActorId) :
    (f.replaceTask g t job).1.running[b]? =
      if stoppedBy (f.replaceTask g t job).2 = some b then none else f.running[b]? := by
  rcases replaceTask_cases h g t job with ⟨e, heq⟩ | ⟨s, changed, f₁, f₂, -, -, hf₁, -, hf₂, heq⟩
  · rw [heq]
    rfl
  · have hrunning : ∀ a, f₂.running[a]? = if f.performer? t = some a then none else f.running[a]? := by
      intro a
      rw [hf₂, hf₁]
      exact running_stopped_performer f t a
    have hnobody : f₂.performer? t = none := by
      -- whoever did the task still would have been its performer before
      refine Option.eq_none_iff_forall_ne_some.mpr fun a ha => ?_
      obtain ⟨run, hrun, htask⟩ := currentTask?_eq_some_iff.mp (currentTask?_of_performer? ha)
      rw [hrunning] at hrun
      split at hrun
      · cases hrun
      · rename_i hother
        refine hother ?_
        rw [h.owned.performer?_eq, ← h.owned a t]
        exact currentTask?_eq_some_iff.mpr ⟨run, hrun, htask⟩
    rw [heq, running_dropIfOrphaned, dropIfOrphaned_idle hnobody, if_neg nofun]
    exact hrunning b

/-! ## Runs that are left alone -/

theorem running_registerGroup (f : Foreman) (g : GroupId) : (f.registerGroup g).1.running = f.running := by
  unfold registerGroup
  split <;> rfl

/-- To schedule a task starts no run: that is left to `assignIdle`. -/
theorem running_addTask (h : f.Sound) (g : GroupId) (job : Job) : (f.addTask g job).1.running = f.running := by
  rcases addTask_cases h g job with ⟨e, heq⟩ | ⟨s, changed, -, -, -, heq⟩ <;> rw [heq]
  rfl

theorem running_scheduleExisting (f : Foreman) (g : GroupId) (t : TaskId) :
    (f.scheduleExisting g t).1.running = f.running := by
  rcases scheduleExisting_cases f g t with ⟨e, heq⟩ | ⟨s, changed, -, -, heq⟩ <;> rw [heq]
  rfl

/-! ## Runs that are started -/

/-- **An assignment starts one run at most**, for an actor that has none. It is a new execution of a job that was
handed in, whoever may have tried the task before. -/
theorem running_assignIdle (h : f.HandedOnly P) (actor : ActorId) (g : GroupId) :
    (f.assignIdle actor g).1.running = f.running ∨
      ∃ t job, P job ∧ f.running[actor]? = none ∧
        (f.assignIdle actor g).1.running = f.running.insert actor ⟨t, .start job f.maxSteps⟩ := by
  rcases assignIdle_cases h.sound actor g with heq | ⟨s, t, board, task, hidle, -, hassign, htask, heq⟩
  · rw [heq]
    exact .inl rfl
  · right
    obtain ⟨-, -, -, -, hboard⟩ := Scheduler.assigned_of_assign h.sound.mirrored.named hassign
    rw [hboard, Board.getElem?_modify, if_pos rfl] at htask
    obtain ⟨x, hx, rfl⟩ := Option.map_eq_some_iff.mp htask
    refine ⟨t, x.toJob, h.of_board hx, hidle, ?_⟩
    rw [heq]
    rfl

/-! ## Turns -/

variable {around : Surroundings} {actor : ActorId} {dt : Float} {shift : Shift}

/-- **What a shift makes of a run** whose execution had a turn: the run goes on or is over, as the turn ended. -/
inductive Gives (f : Foreman) (actor : ActorId) (run : Run) (turn : Turn) (shift : Shift) : Prop
  | goesOn :
      turn.result = .ok .suspended → shift.report = .running run.task →
      shift.foreman.running = f.running.insert actor { run with execution := turn.execution } →
      Gives f actor run turn shift
  | completes :
      turn.result = .ok .completed → shift.report = .completed run.task →
      shift.foreman.running = f.running.erase actor → Gives f actor run turn shift
  | fails {cause : EvaluationError} :
      turn.result = .error (.error cause) → shift.report = .failed run.task cause →
      shift.foreman.running = f.running.erase actor → Gives f actor run turn shift

theorem shift_of_idle (hrun : f.running[actor]? = none) (h : f.runActor around actor dt = .ok shift) :
    shift = ⟨f, .idle, []⟩ := by
  rw [runActor, hrun] at h
  cases h
  rfl

/-- **A shift is one turn of the actor's execution.** Its requests are those of the turn, and it keeps or ends the
run as the turn has ended. -/
theorem gives_of_runActor {run : Run} (hrun : f.running[actor]? = some run)
    (h : f.runActor around actor dt = .ok shift) :
    shift.requests = (run.execution.turn around actor dt).requests ∧
      Gives f actor run (run.execution.turn around actor dt) shift := by
  unfold runActor at h
  rw [hrun] at h
  dsimp only at h
  generalize run.execution.turn around actor dt = turn at h
  rw [recordPrints_erase, recordPrints_eq] at h
  split at h
  · cases h
  · rename_i hresult
    cases h
    exact ⟨rfl, .fails hresult rfl rfl⟩
  · rename_i hresult
    cases h
    exact ⟨rfl, .goesOn hresult rfl (insert_erase_self _ _ _)⟩
  · rename_i hresult
    cases h
    exact ⟨rfl, .completes hresult rfl rfl⟩

/-- A shift fails only if the turn of the execution overflows. -/
theorem overflow_of_runActor {run : Run} {cause : Overflow} (hrun : f.running[actor]? = some run)
    (h : f.runActor around actor dt = .error cause) :
    (run.execution.turn around actor dt).result = .error (.overflow cause) := by
  unfold runActor at h
  rw [hrun] at h
  dsimp only at h
  split at h
  · rename_i hresult
    cases h
    exact hresult
  · cases h
  · cases h
  · cases h

end TaskScript.Foreman
