import TaskScript.Proofs.Foreman.Membership
import TaskScript.Proofs.Foreman.Ownership

/-!
# `Proofs.Foreman.Operations`: operations as rows of moves

Each operation has a lemma `addTask_cases`, `scheduleExisting_cases`, … that tells everything it can do: it
is refused and changes nothing, or it makes the moves that the lemma lists. The branches of the code that are
in neither list cannot be taken, because the schedulers and the board agree (`Mirrored`); this is why a
refusal never leaves a change half made.

## Contents
- `Sound`: what all moves preserve.
- **What an operation can do**: a lemma `_cases` for each.
- `Performs`, and a lemma `performs_` for each operation: **operations as rows of moves**.
-/

namespace TaskScript.Foreman

open Std

variable {f f' : Foreman}

/-- **What holds between operations and in the middle of them**: the two accounts of membership agree, and
so do the two accounts of who is doing what. -/
structure Sound (f : Foreman) : Prop where
  mirrored : f.Mirrored
  owned : f.Owned

/-- **What every move preserves.** The invariants are proved move by move in the modules before; here they are put
together. -/
theorem Move.sound {notes : List Note} (hmove : Move f notes f') (h : f.Sound) : f'.Sound where
  mirrored := hmove.mirrored h.mirrored
  owned := hmove.owned h.mirrored.named h.owned

theorem Moves.sound {notes : List Note} (hmoves : Moves f notes f') (h : f.Sound) : f'.Sound := by
  induction hmoves with
  | nil => exact h
  | cons hmove _ ih => exact ih (hmove.sound h)

/-! ## What an operation can do -/

/-- A member of a group is on the board. -/
theorem Mirrored.isSome_of_mem (h : f.Mirrored) {g : GroupId} {s : Scheduler} {t : TaskId}
    (hs : f.schedulers[g]? = some s) (hmem : t ∈ s.taskIds) : f.board[t]?.isSome := by
  obtain ⟨task, htask, -⟩ := (h.member_iff hs t).mp hmem
  rw [htask]
  rfl

/-- What is not on the board is no member of a group. -/
theorem Mirrored.not_mem_of_contains (h : f.Mirrored) {g : GroupId} {s : Scheduler} {t : TaskId}
    (hs : f.schedulers[g]? = some s) (hfresh : f.board.contains t = false) : t ∉ s.taskIds := by
  intro hmem
  have hsome := h.isSome_of_mem hs hmem
  rw [← Board.contains_eq_isSome, hfresh] at hsome
  cases hsome

theorem isSome_withTask (job : Job) : (f.withTask job).board[job.id]?.isSome := by
  rw [withTask, Board.getElem?_insert, if_pos rfl]
  rfl

/-- An operation is refused and changes nothing, or its checks have been passed and it has made its moves. The
lemmas of this form are the only ones that open an operation. -/
theorem addTask_cases (h : f.Sound) (g : GroupId) (job : Job) :
    (∃ e, f.addTask g job = (f, .error e)) ∨
      ∃ s changed, f.schedulers[g]? = some s ∧ f.board.contains job.id = false ∧
        s.add (f.withTask job).board job.id = .ok changed ∧
        f.addTask g job =
          (((f.withTask job).withMembership g changed).record .scheduled job.id none (some (groupDetails g)),
            .ok job.id) := by
  unfold addTask
  cases hs : f.schedulers[g]? with
  | none => exact .inl ⟨_, rfl⟩
  | some s =>
    cases hfresh : f.board.contains job.id with
    | true => exact .inl ⟨_, rfl⟩
    | false =>
      cases hadd : s.add (f.withTask job).board job.id with
      | error e =>
        -- the job is new, so no scheduler can know it, and it has just been put on the board
        rcases Scheduler.add_error hadd with hmem | hnone
        · exact absurd hmem (h.mirrored.not_mem_of_contains hs hfresh)
        · have hsome := isSome_withTask job (f := f)
          rw [hnone] at hsome
          cases hsome
      | ok changed =>
        refine .inr ⟨s, changed, rfl, rfl, hadd, ?_⟩
        simp only [Bool.false_eq_true, if_false]
        rw [show s.add (f.board.insert { job with }) job.id = .ok changed from hadd]
        rfl

theorem scheduleExisting_cases (f : Foreman) (g : GroupId) (t : TaskId) :
    (∃ e, f.scheduleExisting g t = (f, .error e)) ∨
      ∃ s changed, f.schedulers[g]? = some s ∧ s.add f.board t = .ok changed ∧
        f.scheduleExisting g t =
          ((f.withMembership g changed).record .scheduled t none (some (groupDetails g)), .ok ()) := by
  unfold scheduleExisting
  cases hs : f.schedulers[g]? with
  | none => exact .inl ⟨_, rfl⟩
  | some s =>
    dsimp only
    cases hadd : s.add f.board t with
    | error e => exact .inl ⟨e, rfl⟩
    | ok changed => exact .inr ⟨s, changed, rfl, hadd, rfl⟩

/-- A removal takes the member out, and then drops the task if no group has it any more. -/
theorem removeTask_cases (f : Foreman) (g : GroupId) (t : TaskId) :
    (∃ e, f.removeTask g t = (f, .error e)) ∨
      ∃ s changed f₁, f.schedulers[g]? = some s ∧ s.remove f.board t = .ok changed ∧
        f₁ = (f.withMembership g changed).record .removed t none (some (groupDetails g)) ∧
        f.removeTask g t = ((f₁.dropIfOrphaned t).1, .ok (f₁.dropIfOrphaned t).2) := by
  unfold removeTask
  cases hs : f.schedulers[g]? with
  | none => exact .inl ⟨_, rfl⟩
  | some s =>
    dsimp only
    cases hremove : s.remove f.board t with
    | error e => exact .inl ⟨e, rfl⟩
    | ok changed => exact .inr ⟨s, changed, _, rfl, hremove, rfl, rfl⟩

/-- A replacement, once the checks are made. -/
theorem replaceTask_eq {g : GroupId} {s : Scheduler} {t : TaskId} {job : Job}
    (hs : f.schedulers[g]? = some s) (hmem : t ∈ s.taskIds) (hfresh : job.id ∉ s.taskIds)
    (hnew : f.board.contains job.id = false) :
    f.replaceTask g t job =
      match s.replace ((f.stopped (f.performer? t)).withTask job).board t job.id with
      | .error e => ((f.stopped (f.performer? t)).withTask job, .error e)
      | .ok changed =>
        let f₂ := (((f.stopped (f.performer? t)).withTask job).withMembership g changed).record .replaced t
          (f.performer? t) (some (replacedDetails g job.id))
        ((f₂.dropIfOrphaned t).1, .ok (f.performer? t)) := by
  unfold replaceTask
  rw [hs]
  dsimp only
  rw [Scheduler.contains_iff.mpr hmem, Scheduler.contains_eq_false_iff.mpr hfresh, hnew]
  cases f.performer? t <;> rfl

/-- A replacement stops the performer of the original first, and drops the original last, if it is in no other
group. -/
theorem replaceTask_cases (h : f.Sound) (g : GroupId) (t : TaskId) (job : Job) :
    (∃ e, f.replaceTask g t job = (f, .error e)) ∨
      ∃ s changed f₁ f₂, f.schedulers[g]? = some s ∧ f.board.contains job.id = false ∧
        f₁ = (f.stopped (f.performer? t)).withTask job ∧ s.replace f₁.board t job.id = .ok changed ∧
        f₂ = (f₁.withMembership g changed).record .replaced t (f.performer? t)
          (some (replacedDetails g job.id)) ∧
        f.replaceTask g t job = ((f₂.dropIfOrphaned t).1, .ok (f.performer? t)) := by
  cases hs : f.schedulers[g]? with
  | none =>
    left
    rw [replaceTask, hs]
    exact ⟨_, rfl⟩
  | some s =>
    by_cases hmem : t ∈ s.taskIds
    · cases hnew : f.board.contains job.id with
      | true =>
        left
        rw [replaceTask, hs]
        simp [hnew, Scheduler.contains_iff.mpr hmem]
      | false =>
        -- what is not on the board is no member, so the second check cannot fail by itself
        have hfresh := h.mirrored.not_mem_of_contains hs hnew
        have heq := replaceTask_eq hs hmem hfresh hnew
        cases hreplace : s.replace ((f.stopped (f.performer? t)).withTask job).board t job.id with
        | error e =>
          rcases Scheduler.replace_error hreplace with hmem' | hfresh' | hnone
          · exact absurd hmem hmem'
          · exact absurd hfresh' hfresh
          · have hsome := isSome_withTask job (f := f.stopped (f.performer? t))
            rw [hnone] at hsome
            cases hsome
        | ok changed =>
          rw [hreplace] at heq
          exact .inr ⟨s, changed, _, _, rfl, rfl, rfl, hreplace, rfl, heq⟩
    · left
      rw [replaceTask, hs]
      simp [Scheduler.contains_eq_false_iff.mpr hmem]

theorem interrupt_eq {actor : ActorId} {run : Run} (h : f.running[actor]? = some run) :
    f.interrupt actor =
      ((f.giveUp actor run).record .interrupted run.task (some actor) none, some run.task) := by
  rw [interrupt, discard_eq h]

theorem interrupt_eq_none {actor : ActorId} (h : f.running[actor]? = none) : f.interrupt actor = (f, none) := by
  rw [interrupt, discard_eq_none h]

/-- **What becomes of a task that may be in no group.** It stays as it is unless it is in none; otherwise it is dropped,
and its actor is interrupted first, if it has one. -/
theorem dropIfOrphaned_cases (f : Foreman) (t : TaskId) :
    (∀ task, f.board[t]? = some task → task.groups.isEmpty = false) ∧ f.dropIfOrphaned t = (f, none) ∨
      (∃ task, f.board[t]? = some task ∧ task.groups.isEmpty = true ∧ f.performer? t = none ∧
        f.dropIfOrphaned t = ({ f with board := f.board.erase t }, none)) ∨
      ∃ task actor run f₁, f.board[t]? = some task ∧ task.groups.isEmpty = true ∧ f.performer? t = some actor ∧
        f.running[actor]? = some run ∧ run.task = t ∧
        f₁ = (f.giveUp actor run).record .interrupted run.task (some actor) none ∧
        f.dropIfOrphaned t = ({ f₁ with board := f₁.board.erase t }, some actor) := by
  unfold dropIfOrphaned
  cases htask : f.board[t]? with
  | none => exact .inl ⟨nofun, rfl⟩
  | some task =>
    dsimp only
    cases hempty : task.groups.isEmpty with
    | false => exact .inl ⟨fun _ heq => Option.some.inj heq ▸ hempty, rfl⟩
    | true =>
      rw [if_pos rfl]
      cases hperf : f.performer? t with
      | none => exact .inr (.inl ⟨task, rfl, hempty, rfl, rfl⟩)
      | some actor =>
        obtain ⟨run, hrun, hrt⟩ := currentTask?_eq_some_iff.mp (currentTask?_of_performer? hperf)
        dsimp only
        rw [interrupt_eq hrun]
        exact .inr (.inr ⟨task, actor, run, _, rfl, hempty, rfl, hrun, hrt, rfl, rfl⟩)

/-- An actor that is busy, a group that is not registered and a group with nothing to do all come to nothing. Else
the actor starts a new execution of the task it is given. -/
theorem assignIdle_cases (h : f.Sound) (actor : ActorId) (g : GroupId) :
    (f.assignIdle actor g).1 = f ∨
      ∃ s t board task, f.running[actor]? = none ∧ f.schedulers[g]? = some s ∧
        s.assign f.board actor (fun _ => true) = some (t, board) ∧ board[t]? = some task ∧
        f.assignIdle actor g =
          ((f.withRun actor ⟨t, .start task.toJob f.maxSteps⟩ board).record .assigned t (some actor)
            (some (groupDetails g)), some t) := by
  unfold assignIdle
  cases hrun : f.running[actor]? with
  | some run => exact .inl rfl
  | none =>
    dsimp only
    cases hs : f.schedulers[g]? with
    | none => exact .inl rfl
    | some s =>
      dsimp only [Option.bind_some]
      cases hassign : s.assign f.board actor (fun _ => true) with
      | none => exact .inl rfl
      | some given =>
        obtain ⟨t, board⟩ := given
        obtain ⟨task, htask, -, -, hboard⟩ := Scheduler.assigned_of_assign h.mirrored.named hassign
        -- the task is on the board that the scheduler gives back, so it can be started
        have hgiven : board[t]? = some (task.assignTo actor) := by
          rw [hboard, Board.getElem?_modify, if_pos rfl, htask]
          rfl
        refine .inr ⟨s, t, board, task.assignTo actor, rfl, rfl, hassign, hgiven, ?_⟩
        dsimp only
        rw [hgiven]
        rfl

/-! ## Operations as rows of moves -/

/-- **A row of moves that is an operation**: it hands in `jobs` and then records events, and it leaves no
task without a group. -/
def Performs (f : Foreman) (jobs : List Job) (f' : Foreman) : Prop :=
  ∃ events : List TaskEvent, Moves f (jobs.map .handedIn ++ events.map .recorded) f' ∧ f'.HeldBut none

theorem performs_self (hheld : f.HeldBut none) : Performs f [] f :=
  ⟨[], .nil f, hheld⟩

/-- A task that may be in no group is dropped if it is in none; its actor is stopped first. -/
theorem performs_dropIfOrphaned (h : f.Sound) {t : TaskId} (hheld : f.HeldBut (some t)) :
    Performs f [] (f.dropIfOrphaned t).1 := by
  rcases dropIfOrphaned_cases f t with ⟨hgroups, heq⟩ | ⟨task, htask, hempty, hperf, heq⟩ |
    ⟨task, actor, run, f₁, htask, hempty, -, hrun, hrt, hf₁, heq⟩ <;> rw [heq]
  · exact performs_self (hheld.keep hgroups)
  · exact ⟨[], .single (.drop htask hempty hperf), hheld.drop htask hempty⟩
  · -- the interruption is a move of its own, after which the task has no groups still and no actor
    obtain ⟨event, hmove⟩ : ∃ event, Move f [.recorded event] f₁ := ⟨_, hf₁ ▸ Move.giveUp hrun (.inl rfl)⟩
    have hreleased : f₁.board[t]? = some task.release := by
      rw [hf₁, record, giveUp, Board.getElem?_modify, if_pos hrt, htask]
      rfl
    have hnobody : f₁.performer? t = none := by
      rw [(hmove.sound h).owned.performer?_eq, hf₁, record, giveUp,
        Board.assignee?_modify_of_none Task.release_assignee?, if_pos hrt]
    have hheld₁ : f₁.HeldBut (some t) := hf₁ ▸ hheld.giveUp actor run
    have hmoves := Moves.cons hmove (.single (.drop hreleased hempty hnobody))
    exact ⟨[event], hmoves, hheld₁.drop hreleased hempty⟩

/-- The jobs that an answer takes in. -/
def acceptedIf {α : Type} (job : Job) : Except SchedulingError α → List Job
  | .ok _ => [job]
  | .error _ => []

theorem mem_acceptedIf {α : Type} {job job' : Job} {answer : Except SchedulingError α}
    (h : job' ∈ acceptedIf job answer) : job' = job := by
  cases answer with
  | error _ => cases h
  | ok _ => exact List.mem_singleton.mp h

/-- A job that is handed in is in no group for a moment, between two moves. After the operation it is in one. -/
theorem performs_addTask (h : f.Sound) (hheld : f.HeldBut none) (g : GroupId) (job : Job) :
    Performs f (acceptedIf job (f.addTask g job).2) (f.addTask g job).1 := by
  rcases addTask_cases h g job with ⟨e, heq⟩ | ⟨s, changed, hs, hnew, hadd, heq⟩
  · rw [heq]
    exact performs_self hheld
  · rw [heq]
    have hmoves := Moves.cons (.handIn hnew) (.single (.schedule (f := f.withTask job) hs hadd))
    have hheld₁ := (hheld.withTask hnew).schedule (g := g) (Scheduler.added_of_add hadd) (.inr rfl)
    exact ⟨[_], hmoves, hheld₁⟩

theorem performs_scheduleExisting (hheld : f.HeldBut none) (g : GroupId) (t : TaskId) :
    Performs f [] (f.scheduleExisting g t).1 := by
  rcases scheduleExisting_cases f g t with ⟨e, heq⟩ | ⟨s, changed, hs, hadd, heq⟩
  · rw [heq]
    exact performs_self hheld
  · rw [heq]
    exact ⟨[_], .single (.schedule hs hadd), hheld.schedule (g := g) (Scheduler.added_of_add hadd) (.inl rfl)⟩

/-- A task that was taken out of its last group is dropped by the same operation, so no task is left without a
group. -/
theorem performs_removeTask (h : f.Sound) (hheld : f.HeldBut none) (g : GroupId) (t : TaskId) :
    Performs f [] (f.removeTask g t).1 := by
  rcases removeTask_cases f g t with ⟨e, heq⟩ | ⟨s, changed, f₁, hs, hremove, hf₁, heq⟩
  · rw [heq]
    exact performs_self hheld
  · rw [heq]
    obtain ⟨event, hmove⟩ : ∃ event, Move f [.recorded event] f₁ := ⟨_, hf₁ ▸ Move.leave hs hremove⟩
    have hheld₁ : f₁.HeldBut (some t) := hf₁ ▸ hheld.leave (g := g) (Scheduler.removed_of_remove hremove)
    obtain ⟨events, hmoves, hheld₂⟩ := performs_dropIfOrphaned (hmove.sound h) hheld₁
    have hrow := Moves.cons hmove hmoves
    exact ⟨event :: events, hrow, hheld₂⟩

/-- The replacement takes the group of the original over, and the original is treated like a task that was removed.
-/
theorem performs_replaceTask (h : f.Sound) (hheld : f.HeldBut none) (g : GroupId) (t : TaskId) (job : Job) :
    Performs f (acceptedIf job (f.replaceTask g t job).2) (f.replaceTask g t job).1 := by
  rcases replaceTask_cases h g t job with ⟨e, heq⟩ | ⟨s, changed, f₁, f₂, hs, hnew, hf₁, hreplace, hf₂, heq⟩
  · rw [heq]
    exact performs_self hheld
  · rw [heq]
    obtain ⟨event, hmove⟩ : ∃ event, Move f [.handedIn job, .recorded event] f₂ :=
      ⟨_, hf₂ ▸ Move.replace hs hnew hf₁ hreplace⟩
    have hheld₁ : f₁.HeldBut (some job.id) := by
      rw [hf₁]
      refine (hheld.stopped _).withTask ?_
      rw [contains_stopped, hnew]
    have hheld₂ : f₂.HeldBut (some t) := hf₂ ▸ hheld₁.replace (g := g) (Scheduler.replaced_of_replace hreplace)
    obtain ⟨events, hmoves, hheld₃⟩ := performs_dropIfOrphaned (hmove.sound h) hheld₂
    have hrow := Moves.cons hmove hmoves
    exact ⟨event :: events, hrow, hheld₃⟩

theorem performs_assignIdle (h : f.Sound) (hheld : f.HeldBut none) (actor : ActorId) (g : GroupId) :
    Performs f [] (f.assignIdle actor g).1 := by
  rcases assignIdle_cases h actor g with heq | ⟨s, t, board, task, hidle, hs, hassign, htask, heq⟩
  · rw [heq]
    exact performs_self hheld
  · rw [heq]
    obtain ⟨task', -, -, -, hboard⟩ := Scheduler.assigned_of_assign h.mirrored.named hassign
    exact ⟨[_], .single (.assign hidle hs hassign htask), hheld.withChange hboard fun _ => rfl⟩

theorem performs_interrupt (hheld : f.HeldBut none) (actor : ActorId) :
    Performs f [] (f.interrupt actor).1 := by
  cases hrun : f.running[actor]? with
  | none =>
    rw [interrupt_eq_none hrun]
    exact performs_self hheld
  | some run =>
    rw [interrupt_eq hrun]
    exact ⟨[_], .single (.giveUp hrun (.inl rfl)), hheld.giveUp actor run⟩

/-! ### Running -/

/-- What is printed changes the log and nothing else. -/
theorem recordPrints_eq (t : TaskId) (actor : ActorId) (values : List Value) :
    f.recordPrints t actor values =
      { f with
        events := (f.recordPrints t actor values).events
        sequence := (f.recordPrints t actor values).sequence } := by
  unfold recordPrints
  induction values generalizing f with
  | nil => rfl
  | cons value values ih =>
    rw [List.foldl_cons, ih]
    rfl

/-- It is printed all the same while the actor's run is taken out. -/
theorem recordPrints_erase (t : TaskId) (actor a : ActorId) (values : List Value) :
    ({ f with running := f.running.erase a } : Foreman).recordPrints t actor values =
      { f.recordPrints t actor values with running := f.running.erase a } := by
  unfold recordPrints
  induction values generalizing f with
  | nil => rfl
  | cons value values ih =>
    rw [List.foldl_cons, List.foldl_cons]
    exact ih (f := f.record .printed t (some actor) (some (.obj [("value", value.toJson)])))

/-- What is printed in a turn is recorded value by value, each with an event of its own. -/
theorem moves_recordPrints {actor : ActorId} {run : Run} (hrun : f.running[actor]? = some run)
    (values : List Value) :
    ∃ events : List TaskEvent, Moves f (events.map .recorded) (f.recordPrints run.task actor values) := by
  induction values generalizing f with
  | nil => exact ⟨[], .nil f⟩
  | cons value values ih =>
    obtain ⟨events, hmoves⟩ := ih
      (f := f.record .printed run.task (some actor) (some (.obj [("value", value.toJson)]))) hrun
    have hrow := Moves.cons (.print hrun) hmoves
    exact ⟨_ :: events, hrow⟩

theorem insert_erase_self (running : ExtTreeMap ActorId Run) (actor : ActorId) (run : Run) :
    (running.erase actor).insert actor run = running.insert actor run := by
  apply ExtTreeMap.ext_getElem?
  intro a
  rw [lookup_insert, lookup_insert, lookup_erase]
  split <;> rfl

/-- After what was printed, one more move ends the turn. -/
theorem performs_of_prints {g : Foreman} {events : List TaskEvent} (last : List TaskEvent)
    (hprints : Moves f (events.map .recorded) g) (hmove : Move g (last.map .recorded) f')
    (hheld : f'.HeldBut none) : Performs f [] f' := by
  have hrow := hprints.append (.single hmove)
  rw [← List.map_append] at hrow
  exact ⟨events ++ last, hrow, hheld⟩

theorem performs_runActor (hheld : f.HeldBut none) {around : Surroundings} {actor : ActorId} {dt : Float}
    {shift : Shift} (hshift : f.runActor around actor dt = .ok shift) : Performs f [] shift.foreman := by
  unfold runActor at hshift
  cases hrun : f.running[actor]? with
  | none =>
    rw [hrun] at hshift
    cases hshift
    exact performs_self hheld
  | some run =>
    rw [hrun] at hshift
    dsimp only at hshift
    generalize run.execution.turn around actor dt = turn at hshift
    -- the run is taken out before anything is printed, which makes no difference to what is recorded
    rw [recordPrints_erase] at hshift
    obtain ⟨events, hmoves⟩ := moves_recordPrints hrun turn.output
    have heq := recordPrints_eq run.task actor turn.output (f := f)
    generalize f.recordPrints run.task actor turn.output = g at hshift hmoves heq
    have hgrun : g.running[actor]? = some run := by rw [heq]; exact hrun
    have hgheld : g.HeldBut none := by rw [heq]; exact hheld
    have hrunning : f.running = g.running := by rw [heq]
    rw [hrunning] at hshift
    split at hshift
    · cases hshift
    · cases hshift
      exact performs_of_prints [_] hmoves (.giveUp hgrun (.inr rfl)) (hgheld.giveUp actor run)
    · cases hshift
      rw [insert_erase_self]
      exact performs_of_prints [] hmoves (.goOn hgrun) hgheld
    · cases hshift
      have hfinished : (g.finish actor run).HeldBut none := hgheld.withChange rfl fun _ => rfl
      exact performs_of_prints [_] hmoves (.finish hgrun) hfinished

end TaskScript.Foreman
