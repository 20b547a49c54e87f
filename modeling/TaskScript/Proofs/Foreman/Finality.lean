import TaskScript.Grid
import TaskScript.Proofs.Foreman.Effect

/-!
# `Proofs.Foreman.Finality`: a completed task stays completed

An actor that is given a task, is done with it or loses it changes the status of the task without looking at it.
That no task is given away twice, and none again that is completed, is up to those who ask for the change: a
scheduler gives away unassigned tasks only, and whoever is doing a task has it by the board too (`Owned`).

`Restatus` lists the changes of status that an operation makes to a task that stays on the board; none of them
leads away from `completed`. In the moves of an operation a completed task is `Done`: nobody works on it, so no
event tells of work on it, whatever else is done with it.

## Contents
- `Board.status?` after each change of a board.
- `Restatus`, `Effect.restatus`: **how an operation changes a status**.
- `Lists`, `Effect.keeps_listed`: members stay members until they are unscheduled.
- `Done`, `Move.done`, `Move.not_worked`: **nobody works on what is done**.
- `Course`: operations in a row.
- `completed_is_final`: **completed is final**.
-/

namespace TaskScript

open Std

/-! ## The status of a task -/

namespace Board

variable {b : Board}

/-- The status of a task of the board. -/
def status? (b : Board) (t : TaskId) : Option TaskStatus :=
  b[t]?.map (·.status)

theorem status?_insert {task : Task} {t : TaskId} (h : task.id ≠ t) : (b.insert task).status? t = b.status? t := by
  rw [status?, getElem?_insert, if_neg h]
  rfl

/-- A change of a task that changes its status in one way, or not at all. -/
theorem status?_modify {change : Task → Task} (restatus : TaskStatus → TaskStatus)
    (h : ∀ x, (change x).status = restatus x.status) (id t : TaskId) :
    (b.modify id change).status? t = if id = t then (b.status? t).map restatus else b.status? t := by
  rw [status?, getElem?_modify, status?]
  split
  · rw [Option.map_map, Option.map_map]
    exact Option.map_congr fun x _ => h x
  · rfl

theorem status?_modify_of_status {change : Task → Task} (h : ∀ x, (change x).status = x.status) (id t : TaskId) :
    (b.modify id change).status? t = b.status? t := by
  rw [status?_modify (fun status => status) h, Option.map_id', ite_self]

theorem status?_join (id t : TaskId) (g : GroupId) : (b.modify id (·.join g)).status? t = b.status? t := by
  apply status?_modify_of_status
  intro x
  rfl

theorem status?_leave (id t : TaskId) (g : GroupId) : (b.modify id (·.leave g)).status? t = b.status? t := by
  apply status?_modify_of_status
  intro x
  rfl

/-- What has a status is on the board. -/
theorem ne_of_status? {t t' : TaskId} {status : TaskStatus} (h : b.status? t = some status)
    (hnew : b.contains t' = false) : t' ≠ t := by
  rintro rfl
  rw [contains_eq_isSome] at hnew
  obtain ⟨task, htask, -⟩ := Option.map_eq_some_iff.mp h
  rw [htask] at hnew
  cases hnew

end Board

namespace Foreman

variable {f f' : Foreman} {t : TaskId} {actor : ActorId} {run : Run}

/-- What an actor is doing is assigned to it. -/
theorem Owned.status?_of_running (h : f.Owned) (hrun : f.running[actor]? = some run) :
    f.board.status? run.task = some (.assignedTo actor) := by
  have hassignee := (h actor run.task).mp (currentTask?_of_running hrun)
  obtain ⟨task, htask, hstatus⟩ := Option.bind_eq_some_iff.mp hassignee
  refine Option.map_eq_some_iff.mpr ⟨task, htask, ?_⟩
  cases hcase : task.status with
  | assignedTo actor' =>
    rw [hcase] at hstatus
    cases hstatus
    rfl
  | unassigned =>
    rw [hcase] at hstatus
    cases hstatus
  | completed =>
    rw [hcase] at hstatus
    cases hstatus

theorem Owned.status?_giveUp (h : f.Owned) (hrun : f.running[actor]? = some run) (t : TaskId) :
    (f.giveUp actor run).board.status? t = if run.task = t then some .unassigned else f.board.status? t := by
  rw [Foreman.giveUp, Board.status?_modify
    (fun status => if status = .completed then .completed else .unassigned) fun _ => rfl]
  split
  · rename_i ht
    rw [← ht, h.status?_of_running hrun]
    rfl
  · rfl

theorem Owned.status?_finish (h : f.Owned) (hrun : f.running[actor]? = some run) (t : TaskId) :
    (f.finish actor run).board.status? t = if run.task = t then some .completed else f.board.status? t := by
  rw [finish, Board.status?_modify (fun _ => .completed) fun _ => rfl]
  split
  · rename_i ht
    rw [← ht, h.status?_of_running hrun]
    rfl
  · rfl

/-- A task keeps its status unless it is dropped. -/
theorem status?_of_dropIfOrphaned {t₀ : TaskId} {status : TaskStatus}
    (h : (f.dropIfOrphaned t₀).1.board.status? t = some status) : f.board.status? t = some status := by
  rw [Board.status?] at h ⊢
  rcases getElem?_dropIfOrphaned f t₀ t with heq | hnone
  · rwa [heq] at h
  · rw [hnone] at h
    cases h

/-! ## Changes of status -/

/-- **The changes that an operation makes to the status of a task** that stays on the board. -/
inductive Restatus (f : Foreman) (t : TaskId) : Operation → TaskStatus → TaskStatus → Prop
  | kept {op status} : Restatus f t op status status
  /- An idle actor finds the task in its group. -/
  | assigned {actor : ActorId} {g s} :
      f.schedulers[g]? = some s → t ∈ s.taskIds → (f.assignIdle actor g).2 = some t →
      Restatus f t (.assignIdle actor g) .unassigned (.assignedTo actor)
  | completed {op around dt shift} {actor : ActorId} :
      op.turn? = some (around, actor, dt) → f.runActor around actor dt = .ok shift →
      shift.report = .completed t → Restatus f t op (.assignedTo actor) .completed
  | failed {op around dt shift cause} {actor : ActorId} :
      op.turn? = some (around, actor, dt) → f.runActor around actor dt = .ok shift →
      shift.report = .failed t cause → Restatus f t op (.assignedTo actor) .unassigned
  | interrupted {actor : ActorId} : Restatus f t (.interrupt actor) (.assignedTo actor) .unassigned
  /- The task loses its slot in one group, and is still scheduled in another. -/
  | replaced {g job} {actor : ActorId} :
      (f.replaceTask g t job).2 = .ok (some actor) →
      Restatus f t (.replaceTask g t job) (.assignedTo actor) .unassigned

theorem Restatus.of_eq {op : Operation} {status status' : TaskStatus} (h : some status' = some status) :
    Restatus f t op status status' := by
  cases h
  exact .kept

/-- The end of a run changes the status of its task only, and that was assigned. -/
theorem Owned.restatus_of_ended {g : Foreman} {op : Operation} {status status' ended : TaskStatus} (h : g.Owned)
    (hrun : g.running[actor]? = some run) (hst : g.board.status? t = some status)
    (hended : (if run.task = t then some ended else g.board.status? t) = some status')
    (hend : run.task = t → Restatus f t op (.assignedTo actor) ended) : Restatus f t op status status' := by
  split at hended
  · rename_i ht
    have hassigned := (h.status?_of_running hrun).symm.trans (ht ▸ hst)
    cases hassigned
    cases hended
    exact hend ht
  · exact .of_eq (hended.symm.trans hst)

/-- A turn changes the status of the actor's own task, and only when it ends the run. -/
theorem Ends.restatus {g : Foreman} {report : Report} {status status' : TaskStatus} {op : Operation}
    {around : Surroundings} {dt : Float} {shift : Shift} (hends : Ends g actor run report f') (h : g.Owned)
    (hrun : g.running[actor]? = some run) (hturn : op.turn? = some (around, actor, dt))
    (hshift : f.runActor around actor dt = .ok shift) (hreport : shift.report = report)
    (hst : g.board.status? t = some status) (hst' : f'.board.status? t = some status') :
    Restatus f t op status status' := by
  cases hends with
  | goesOn => exact .of_eq (hst'.symm.trans hst)
  | completes =>
    refine h.restatus_of_ended hrun hst ((h.status?_finish hrun t).symm.trans hst') ?_
    rintro rfl
    exact .completed hturn hshift hreport
  | fails =>
    refine h.restatus_of_ended hrun hst ((h.status?_giveUp hrun t).symm.trans hst') ?_
    rintro rfl
    exact .failed hturn hshift hreport

/-- A member is stopped when it is replaced, if somebody is doing it. -/
theorem restatus_replaced (h : f.Owned) {g : GroupId} {t₀ : TaskId} {job : Job} {status status' : TaskStatus}
    (hanswer : (f.replaceTask g t₀ job).2 = .ok (f.performer? t₀)) (hst : f.board.status? t = some status)
    (hst' : (f.stopped (f.performer? t₀)).board.status? t = some status') :
    Restatus f t (.replaceTask g t₀ job) status status' := by
  cases hperf : f.performer? t₀ with
  | none =>
    rw [hperf] at hst'
    exact .of_eq (hst'.symm.trans hst)
  | some actor =>
    obtain ⟨run, hrun, htask⟩ := currentTask?_eq_some_iff.mp (currentTask?_of_performer? hperf)
    rw [hperf, stopped_some hrun] at hst'
    refine h.restatus_of_ended hrun hst ((h.status?_giveUp hrun t).symm.trans hst') ?_
    rintro rfl
    rw [hperf, ← htask] at hanswer
    rw [← htask]
    exact .replaced hanswer

/-- **How an operation changes a status.** -/
theorem Effect.restatus {op : Operation} (heffect : Effect f op f') (h : f.Sound) {status status' : TaskStatus}
    (hst : f.board.status? t = some status) (hst' : f'.board.status? t = some status') :
    Restatus f t op status status' := by
  cases heffect with
  | nothing => exact .of_eq (hst'.symm.trans hst)
  | clock => exact .of_eq (hst'.symm.trans hst)
  | registers _ => exact .of_eq (hst'.symm.trans hst)
  | @adds g job s changed _ hnew hadd =>
    have hboard := (Scheduler.added_of_add hadd).board
    have hsame : changed.2.status? t = f.board.status? t := by
      rw [hboard, Board.status?_join, withTask, Board.status?_insert (Board.ne_of_status? hst hnew)]
    exact .of_eq (hst'.symm.trans (hsame.trans hst))
  | @shares g s t₀ changed _ hadd =>
    have hboard := (Scheduler.added_of_add hadd).board
    have hsame : changed.2.status? t = f.board.status? t := by rw [hboard, Board.status?_join]
    exact .of_eq (hst'.symm.trans (hsame.trans hst))
  | @removes g s t₀ changed f₁ _ hremove hf₁ =>
    have hboard := (Scheduler.removed_of_remove hremove).board
    have hsame : f₁.board.status? t = f.board.status? t := by
      rw [hf₁, record, withMembership, hboard, Board.status?_leave]
    exact .of_eq ((status?_of_dropIfOrphaned hst').symm.trans (hsame.trans hst))
  | @replaces g s t₀ job changed f₁ f₂ _ hnew hf₁ hreplace hf₂ hanswer =>
    have hboard := (Scheduler.replaced_of_replace hreplace).board
    have hsame : f₂.board.status? t = (f.stopped (f.performer? t₀)).board.status? t := by
      rw [hf₂, record, withMembership, hboard, Board.status?_join, Board.status?_leave, hf₁, withTask,
        Board.status?_insert (Board.ne_of_status? hst hnew)]
    exact restatus_replaced h.owned hanswer hst (hsame.symm.trans (status?_of_dropIfOrphaned hst'))
  | @assigns g s t₀ actor board task _ hs hassign hanswer =>
    obtain ⟨task', htask', hfree, hmem, hboard⟩ := Scheduler.assigned_of_assign h.mirrored.named hassign
    have hgiven : board.status? t = if t₀ = t then (f.board.status? t).map fun _ => .assignedTo actor
        else f.board.status? t := by
      rw [hboard]
      exact Board.status?_modify (fun _ => .assignedTo actor) (fun _ => rfl) t₀ t
    have hnow : board.status? t = some status' := hst'
    rw [hgiven] at hnow
    split at hnow
    · rename_i ht
      subst ht
      have hunassigned : f.board.status? t₀ = some .unassigned :=
        Option.map_eq_some_iff.mpr ⟨task', htask', hfree⟩
      rw [hunassigned] at hst hnow
      cases hst
      cases hnow
      exact .assigned hs hmem hanswer
    · exact .of_eq (hnow.symm.trans hst)
  | @turns _ around actor dt run shift hturn hrun hshift hends =>
    -- what was printed makes no difference to who is doing what
    have heq := recordPrints_eq run.task actor (run.execution.turn around actor dt).output (f := f)
    generalize f.recordPrints run.task actor (run.execution.turn around actor dt).output = g at heq hends
    have hgowned : g.Owned := by
      rw [heq]
      exact h.owned
    have hgrun : g.running[actor]? = some run := by
      rw [heq]
      exact hrun
    have hgst : g.board.status? t = some status := by
      rw [heq]
      exact hst
    exact hends.restatus hgowned hgrun hturn hshift rfl hgst hst'
  | @interrupts actor run hrun =>
    exact h.owned.restatus_of_ended hrun hst ((h.owned.status?_giveUp hrun t).symm.trans hst') fun _ => .interrupted

/-! ## Members -/

/-- A task is in the list of a group. -/
def Lists (f : Foreman) (g : GroupId) (t : TaskId) : Prop :=
  ∃ s, f.schedulers[g]? = some s ∧ t ∈ s.taskIds

/-- The operations that take a task out of a group. -/
def Operation.Unschedules (g : GroupId) (t : TaskId) : Operation → Prop
  | .removeTask group task => group = g ∧ task = t
  | .replaceTask group member _ => group = g ∧ member = t
  | _ => False

theorem Lists.congr {g : GroupId} (h : f.Lists g t) (hschedulers : f'.schedulers = f.schedulers) :
    f'.Lists g t := by
  obtain ⟨s, hs, hmem⟩ := h
  exact ⟨s, hschedulers ▸ hs, hmem⟩

/-- A change of membership in one group is nothing to the others. -/
theorem Lists.insert {g g₀ : GroupId} (h : f.Lists g t) {s₀ : Scheduler}
    (hschedulers : f'.schedulers = f.schedulers.insert g₀ s₀)
    (hkeeps : g₀ = g → ∀ s, f.schedulers[g]? = some s → t ∈ s.taskIds → t ∈ s₀.taskIds) : f'.Lists g t := by
  obtain ⟨s, hs, hmem⟩ := h
  by_cases hg : g₀ = g
  · refine ⟨s₀, ?_, hkeeps hg s hs hmem⟩
    rw [hschedulers, hg, lookup_insert_self]
  · refine ⟨s, ?_, hmem⟩
    rw [hschedulers, lookup_insert_of_ne _ _ hg, hs]

/-- So is a change that keeps the member in its own group. -/
theorem Lists.change {g g₀ : GroupId} (h : f.Lists g t) {s₀ s₁ : Scheduler} (hs₀ : f.schedulers[g₀]? = some s₀)
    (hschedulers : f'.schedulers = f.schedulers.insert g₀ s₁)
    (hkeeps : g₀ = g → t ∈ s₀.taskIds → t ∈ s₁.taskIds) : f'.Lists g t := by
  refine h.insert hschedulers fun hg s hs hmem => ?_
  rw [hg, hs] at hs₀
  cases hs₀
  exact hkeeps hg hmem

/-- **A member stays a member** until it is unscheduled. -/
theorem Effect.keeps_listed {op : Operation} (heffect : Effect f op f') (h : f.Sound) {g : GroupId}
    (hlists : f.Lists g t) (hop : ¬op.Unschedules g t) : f'.Lists g t := by
  cases heffect with
  | nothing => exact hlists
  | clock => exact hlists
  | @registers g₀ hnew =>
    refine hlists.insert rfl fun hg s hs _ => ?_
    rw [hg, ExtTreeMap.contains_eq_isSome_getElem?, hs] at hnew
    cases hnew
  | adds hs₀ _ hadd =>
    exact hlists.change hs₀ rfl fun _ hmem => ((Scheduler.added_of_add hadd).mem_iff t).mpr (.inr hmem)
  | shares hs₀ hadd =>
    exact hlists.change hs₀ rfl fun _ hmem => ((Scheduler.added_of_add hadd).mem_iff t).mpr (.inr hmem)
  | @removes g₀ s₀ t₀ changed f₁ hs₀ hremove hf₁ =>
    have hchanged : f₁.Lists g t := by
      refine hlists.change hs₀ (by rw [hf₁]; rfl) fun hg hmem => ?_
      have hremoved := Scheduler.removed_of_remove hremove
      exact (hremoved.mem_iff (h.mirrored.nodup hs₀) t).mpr ⟨fun ht => hop ⟨hg, ht⟩, hmem⟩
    exact hchanged.congr (schedulers_dropIfOrphaned f₁ t₀)
  | @replaces g₀ s₀ t₀ job changed f₁ f₂ hs₀ _ hf₁ hreplace hf₂ _ =>
    have hinsert : f₂.schedulers = f.schedulers.insert g₀ changed.1 := by
      rw [hf₂, record, withMembership, hf₁, withTask, schedulers_stopped]
    have hchanged : f₂.Lists g t := by
      refine hlists.change hs₀ hinsert fun hg hmem => ?_
      have hreplaced := Scheduler.replaced_of_replace hreplace
      exact (hreplaced.mem_iff t).mpr (.inr ⟨fun ht => hop ⟨hg, ht⟩, hmem⟩)
    exact hchanged.congr (schedulers_dropIfOrphaned f₂ t₀)
  | assigns _ _ _ _ => exact hlists.congr rfl
  | @turns _ around actor dt run shift _ _ _ hends =>
    have heq := recordPrints_eq run.task actor (run.execution.turn around actor dt).output (f := f)
    generalize f.recordPrints run.task actor (run.execution.turn around actor dt).output = g₁ at heq hends
    have hg₁ : g₁.schedulers = f.schedulers := by rw [heq]
    exact hlists.congr (hends.schedulers.trans hg₁)
  | interrupts _ => exact hlists.congr rfl

/-! ## Tasks that are done -/

/-- **A task that is done**: if it is on the board, it is completed there. -/
def Done (f : Foreman) (t : TaskId) : Prop :=
  ∀ status, f.board.status? t = some status → status = .completed

theorem Done.congr (h : f.Done t) (hstatus : f'.board.status? t = f.board.status? t) : f'.Done t := by
  intro status hst
  exact h status (hstatus ▸ hst)

/-- A change of a task that leaves `completed` alone. -/
theorem Done.modify (h : f.Done t) {id : TaskId} {change : Task → Task} (restatus : TaskStatus → TaskStatus)
    (hboard : f'.board = f.board.modify id change) (hchange : ∀ x, (change x).status = restatus x.status)
    (hcompleted : restatus .completed = .completed) : f'.Done t := by
  intro status hst
  rw [hboard, Board.status?_modify restatus hchange] at hst
  split at hst
  · obtain ⟨status', hst', rfl⟩ := Option.map_eq_some_iff.mp hst
    rw [h status' hst', hcompleted]
  · exact h status hst

theorem Done.giveUp (h : f.Done t) (actor : ActorId) (run : Run) : (f.giveUp actor run).Done t := by
  refine h.modify (fun status => if status = .completed then .completed else .unassigned) rfl ?_ rfl
  intro x
  rfl

theorem Done.stopped (h : f.Done t) (who : Option ActorId) : (f.stopped who).Done t := by
  rcases stopped_cases f who with hwho | ⟨actor, run, -, hwho⟩ <;> rw [hwho]
  · exact h
  · exact h.giveUp actor run

/-- Nobody is doing what is done. -/
theorem Done.ne_of_running (h : f.Done t) (howned : f.Owned) (hrun : f.running[actor]? = some run) :
    run.task ≠ t := by
  intro ht
  have hassigned := h _ (ht ▸ howned.status?_of_running hrun)
  cases hassigned

/-- What is done is not given away. -/
theorem Done.ne_of_unassigned (h : f.Done t) {t₀ : TaskId} {task : Task} (htask : f.board[t₀]? = some task)
    (hfree : task.status = .unassigned) : t₀ ≠ t := by
  rintro rfl
  have hcompleted := h .unassigned (Option.map_eq_some_iff.mpr ⟨task, htask, hfree⟩)
  cases hcompleted

/-- **What is done stays so**, whatever move is made, unless another job of the same name is handed in. -/
theorem Move.done {notes : List Note} (hmove : Move f notes f') (h : f.Sound) (hdone : f.Done t)
    (hother : ∀ job, .handedIn job ∈ notes → job.id ≠ t) : f'.Done t := by
  cases hmove with
  | clock => exact hdone.congr rfl
  | register _ => exact hdone.congr rfl
  | handIn _ => exact hdone.congr (Board.status?_insert (hother _ List.mem_cons_self))
  | @schedule g s t₀ changed _ hadd =>
    refine hdone.congr ?_
    rw [record, withMembership, (Scheduler.added_of_add hadd).board, Board.status?_join]
  | @leave g s t₀ changed _ hremove =>
    refine hdone.congr ?_
    rw [record, withMembership, (Scheduler.removed_of_remove hremove).board, Board.status?_leave]
  | @replace g s t₀ job changed f₁ _ _ hf₁ hreplace =>
    refine (hdone.stopped (f.performer? t₀)).congr ?_
    rw [record, withMembership, (Scheduler.replaced_of_replace hreplace).board, Board.status?_join,
      Board.status?_leave, hf₁, withTask, Board.status?_insert (hother job List.mem_cons_self)]
  | @drop t₀ task _ _ _ =>
    intro status hst
    rw [Board.status?, Board.getElem?_erase] at hst
    split at hst
    · cases hst
    · exact hdone status hst
  | @assign g s t₀ actor board task _ _ hassign _ =>
    obtain ⟨task', htask', hfree, -, hboard⟩ := Scheduler.assigned_of_assign h.mirrored.named hassign
    refine hdone.congr ?_
    rw [record, withRun, hboard, Board.status?, Board.getElem?_modify,
      if_neg (hdone.ne_of_unassigned htask' hfree)]
    rfl
  | print _ => exact hdone.congr rfl
  | goOn _ => exact hdone.congr rfl
  | @giveUp actor run _ _ _ _ => exact (hdone.giveUp actor run).congr rfl
  | @finish actor run _ => exact hdone.modify (fun _ => .completed) rfl (fun _ => rfl) rfl

/-- The events that tell of work on a task. -/
def worked : List EventType :=
  [.assigned, .printed, .failed, .interrupted, .completed]

/-- **Nobody works on what is done**, so no event tells of it. -/
theorem Move.not_worked {notes : List Note} (hmove : Move f notes f') (h : f.Sound) (hdone : f.Done t) :
    ∀ e, .recorded e ∈ notes → e.task = t → e.type ∉ worked := by
  intro e he ht
  -- what a move records is of another kind, or it is about a task that is not done
  cases hmove with
  | clock => cases he
  | register _ => cases he
  | drop _ _ _ => cases he
  | goOn _ => cases he
  | handIn _ => cases List.mem_singleton.mp he
  | schedule _ _ =>
    cases List.mem_singleton.mp he
    show EventType.scheduled ∉ worked
    decide
  | leave _ _ =>
    cases List.mem_singleton.mp he
    show EventType.removed ∉ worked
    decide
  | replace _ _ _ _ =>
    rcases List.mem_cons.mp he with he | he
    · cases he
    · cases List.mem_singleton.mp he
      show EventType.replaced ∉ worked
      decide
  | assign _ _ hassign _ =>
    cases List.mem_singleton.mp he
    obtain ⟨task', htask', hfree, -, -⟩ := Scheduler.assigned_of_assign h.mirrored.named hassign
    exact absurd ht (hdone.ne_of_unassigned htask' hfree)
  | print hrun =>
    cases List.mem_singleton.mp he
    exact absurd ht (hdone.ne_of_running h.owned hrun)
  | giveUp hrun _ =>
    cases List.mem_singleton.mp he
    exact absurd ht (hdone.ne_of_running h.owned hrun)
  | finish hrun =>
    cases List.mem_singleton.mp he
    exact absurd ht (hdone.ne_of_running h.owned hrun)

/-- What is done stays so through a row of moves, and none of their events tells of work on it. -/
theorem Moves.done {notes : List Note} (hmoves : Moves f notes f') (h : f.Sound) (hdone : f.Done t)
    (hother : ∀ job, .handedIn job ∈ notes → job.id ≠ t) :
    f'.Done t ∧ ∀ e, .recorded e ∈ notes → e.task = t → e.type ∉ worked := by
  induction hmoves with
  | nil => exact ⟨hdone, fun _ he => absurd he List.not_mem_nil⟩
  | cons hmove _ ih =>
    have hfirst := hmove.done h hdone fun job hjob => hother job (List.mem_append_left _ hjob)
    obtain ⟨hlast, hevents⟩ := ih (hmove.sound h) hfirst fun job hjob => hother job (List.mem_append_right _ hjob)
    refine ⟨hlast, fun e he ht => ?_⟩
    rcases List.mem_append.mp he with he | he
    · exact hmove.not_worked h hdone e he ht
    · exact hevents e he ht

/-- No scheduler yields what is done. -/
theorem Done.not_open (h : f.Done t) (hnamed : f.board.Named) (s : Scheduler) :
    ∀ task ∈ s.openTasks f.board, task.id ≠ t := by
  rintro task htask rfl
  obtain ⟨hmem, hopen⟩ := List.mem_filter.mp htask
  obtain ⟨entry, -, hentry⟩ := List.mem_filterMap.mp hmem
  have hid := hnamed _ _ hentry
  have hcompleted := h task.status (by rw [Board.status?, hid, hentry]; rfl)
  rw [hcompleted] at hopen
  cases hopen

/-! ## Operations in a row -/

/-- **A course of operations**, with events collected in between: what was done, and the notes that it adds to
the diary. -/
inductive Course : Foreman → List Operation → List Note → Foreman → Prop
  | nil (f : Foreman) : Course f [] [] f
  | perform {f f₁ f' : Foreman} {ops : List Operation} {notes : List Note} (op : Operation) :
      f.perform op = .ok f₁ → Course f₁ ops notes f' →
      Course f (op :: ops) ((f.accepted op).map .handedIn ++ (f.recordedSince f₁).map .recorded ++ notes) f'
  | drain {f f' : Foreman} {ops : List Operation} {notes : List Note} :
      Course f.drainEvents.1 ops notes f' → Course f ops notes f'

variable {maxSteps : UInt32} {ops : List Operation} {notes : List Note}

theorem Course.reachable (hcourse : Course f ops notes f') (h : Reachable maxSteps f) :
    Reachable maxSteps f' := by
  induction hcourse with
  | nil => exact h
  | perform op hop _ ih => exact ih (h.perform op hop)
  | drain _ ih => exact ih h.drain

theorem Course.done (hcourse : Course f ops notes f') (h : Reachable maxSteps f) (hdone : f.Done t)
    (hother : ∀ job, .handedIn job ∈ notes → job.id ≠ t) :
    f'.Done t ∧ ∀ e, .recorded e ∈ notes → e.task = t → e.type ∉ worked := by
  induction hcourse with
  | nil => exact ⟨hdone, fun _ he => absurd he List.not_mem_nil⟩
  | perform op hop _ ih =>
    have hfirst := (moves_of_perform h hop).done h.sound_held.1 hdone fun job hjob =>
      hother job (List.mem_append_left _ hjob)
    obtain ⟨hlast, hevents⟩ := ih (h.perform op hop) hfirst.1 fun job hjob =>
      hother job (List.mem_append_right _ hjob)
    refine ⟨hlast, fun e he ht => ?_⟩
    rcases List.mem_append.mp he with he | he
    · exact hfirst.2 e he ht
    · exact hevents e he ht
  | drain _ ih => exact ih h.drain (hdone.congr rfl) hother

theorem Course.keeps_listed (hcourse : Course f ops notes f') (h : Reachable maxSteps f) {g : GroupId}
    (hlists : f.Lists g t) (hops : ∀ op ∈ ops, ¬op.Unschedules g t) : f'.Lists g t := by
  induction hcourse with
  | nil => exact hlists
  | perform op hop _ ih =>
    have hsound := h.sound_held.1
    have hfirst := (effect_perform hsound hop).keeps_listed hsound hlists (hops op List.mem_cons_self)
    exact ih (h.perform op hop) hfirst fun op' hop' => hops op' (List.mem_cons_of_mem _ hop')
  | drain _ ih => exact ih h.drain (hlists.congr rfl) hops

/-- A job is taken in only if the board has no task of its name. -/
theorem accepted_fresh (h : f.Sound) {op : Operation} {job : Job} (hjob : job ∈ f.accepted op) :
    f.board.contains job.id = false := by
  cases op with
  | addTask g job₀ =>
    rcases addTask_cases h g job₀ with ⟨e, heq⟩ | ⟨s, changed, -, hnew, -, -⟩
    · rw [accepted, heq] at hjob
      cases hjob
    · rw [mem_acceptedIf hjob]
      exact hnew
  | replaceTask g t job₀ =>
    rcases replaceTask_cases h g t job₀ with ⟨e, heq⟩ | ⟨s, changed, f₁, f₂, -, hnew, -, -, -, -⟩
    · rw [accepted, heq] at hjob
      cases hjob
    · rw [mem_acceptedIf hjob]
      exact hnew
  | _ => cases hjob

/-- **Completed is final.** An operation changes the status of a task that stays on the board only in the ways that
`Restatus` lists, and it takes in no job whose name is on the board. So until another job of its name is handed in,
a completed task is completed whenever it is on the board, no event tells of work on it, no scheduler yields it, and
it stays in each of its groups until it is removed from the group or replaced there. -/
theorem completed_is_final (h : Reachable maxSteps f) (t : TaskId) :
    (∀ (op : Operation) (f' : Foreman) (status status' : TaskStatus), f.perform op = .ok f' →
        f.board.status? t = some status → f'.board.status? t = some status' → Restatus f t op status status') ∧
      (∀ (op : Operation), ∀ job ∈ f.accepted op, f.board.contains job.id = false) ∧
      ∀ (ops : List Operation) (notes : List Note) (f' : Foreman), Course f ops notes f' →
        f.board.status? t = some .completed → (∀ job, .handedIn job ∈ notes → job.id ≠ t) →
        (∀ status, f'.board.status? t = some status → status = .completed) ∧
          (∀ e, .recorded e ∈ notes → e.task = t →
            e.type ∉ [EventType.assigned, .printed, .failed, .interrupted, .completed]) ∧
          (∀ s : Scheduler, ∀ task ∈ s.openTasks f'.board, task.id ≠ t) ∧
          ∀ g, f.Lists g t → (∀ op ∈ ops, ¬op.Unschedules g t) → f'.Lists g t := by
  have hsound := h.sound_held.1
  refine ⟨?_, ?_, ?_⟩
  · intro op f' status status' hop hst hst'
    exact (effect_perform hsound hop).restatus hsound hst hst'
  · intro op job hjob
    exact accepted_fresh hsound hjob
  · intro ops notes f' hcourse hcompleted hother
    have hdone : f.Done t := by
      intro status hst
      exact Option.some.inj (hst.symm.trans hcompleted)
    obtain ⟨hlast, hevents⟩ := hcourse.done h hdone hother
    have hnamed := (hcourse.reachable h).sound_held.1.mirrored.named
    exact ⟨hlast, hevents, hlast.not_open hnamed, fun g => hcourse.keeps_listed h⟩

/-- The two groups after the task that they share was completed. -/
def sharedDug : Foreman :=
  match sharedDig.perform (.runActor (Grid.surroundings { sizeX := 0, sizeY := 0, sizeZ := 0 }) ⟨7⟩ 1.0) with
  | .ok f => f
  | .error _ => sharedDig

theorem reachable_sharedDug : Reachable 8 sharedDug := by
  unfold sharedDug
  split
  · rename_i hop
    exact reachable_sharedDig.perform _ hop
  · exact reachable_sharedDig

/-- The two groups after the first one let the completed task go, and an actor of the second looked for work. -/
def sharedLeft : Foreman :=
  ((sharedDug.removeTask ⟨1⟩ ⟨1⟩).1.assignIdle ⟨8⟩ ⟨2⟩).1

theorem course_sharedLeft :
    ∃ notes, Course sharedDug [.removeTask ⟨1⟩ ⟨1⟩, .assignIdle ⟨8⟩ ⟨2⟩] notes sharedLeft ∧
      ∀ job, .handedIn job ∉ notes := by
  refine ⟨_, .perform _ rfl (.perform _ rfl (.nil sharedLeft)), ?_⟩
  intro job hjob
  simp [accepted] at hjob

theorem sharedDug_stays_completed :
    Reachable 8 sharedDug ∧ sharedDug.board.status? ⟨1⟩ = some .completed ∧
      sharedLeft.board.status? ⟨1⟩ = some .completed ∧ sharedLeft.Lists ⟨2⟩ ⟨1⟩ := by
  have hcompleted : sharedDug.board.status? ⟨1⟩ = some .completed := by decide +kernel
  have hlists : sharedDug.Lists ⟨2⟩ ⟨1⟩ := ⟨_, rfl, by decide +kernel⟩
  obtain ⟨status, hstatus⟩ : ∃ status, sharedLeft.board.status? ⟨1⟩ = some status := ⟨_, rfl⟩
  obtain ⟨notes, hcourse, hnone⟩ := course_sharedLeft
  obtain ⟨-, -, hfinal⟩ := completed_is_final reachable_sharedDug ⟨1⟩
  obtain ⟨hstays, -, -, hkeeps⟩ := hfinal _ notes sharedLeft hcourse hcompleted fun job hjob =>
    absurd hjob (hnone job)
  have hmember := hkeeps ⟨2⟩ hlists (by simp [Operation.Unschedules])
  rw [hstays status hstatus] at hstatus
  exact ⟨reachable_sharedDug, hcompleted, hstatus, hmember⟩

end Foreman

end TaskScript
