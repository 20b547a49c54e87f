import TaskScript.Proofs.Foreman.Running
import TaskScript.Proofs.Sandbox.Reachable
import TaskScript.Proofs.Sandbox.Visit
import TaskScript.Proofs.Task.Supply

/-!
# `Proofs.Sandbox.Orderly`: a sandbox and its foreman

A sandbox keeps accounts of its own next to those of its foreman: the groups that it knows, and the names that
were used for jobs. `Sandbox.Orderly` says that they fit: a known group has a scheduler, and every job that was
handed in was made as jobs are, and has a name that counts as used.

Whatever a command or a visit does to the foreman is an operation on it (`Orderly.operate`), so all that is
known of foremen holds in a sandbox.

## Contents
- `Foreman.keeps_scheduler`: groups stay registered.
- `Orderly`, `Orderly.operate`, `Orderly.perform`, `Orderly.visited`.
- `Reachable.orderly`: **every sandbox is orderly**.
-/

namespace TaskScript

open Std

/-! ## Groups -/

namespace Foreman

variable {f f' : Foreman} {g : GroupId}

/-- A group that is registered stays so. -/
theorem Move.keeps_scheduler {notes : List Note} (hmove : Move f notes f')
    (h : f.schedulers.contains g = true) : f'.schedulers.contains g = true := by
  have hinsert : ∀ (k : GroupId) (s : Scheduler) (m : ExtTreeMap GroupId Scheduler),
      m.contains g = true → (m.insert k s).contains g = true := by
    intro k s m hm
    rw [ExtTreeMap.contains_insert, hm, Bool.or_true]
  cases hmove with
  | register _ => exact hinsert _ _ _ h
  | schedule _ _ => exact hinsert _ _ _ h
  | leave _ _ => exact hinsert _ _ _ h
  | replace _ _ hf₁ _ =>
    refine hinsert _ _ _ ?_
    rw [hf₁, withTask, schedulers_stopped]
    exact h
  | clock => exact h
  | handIn _ => exact h
  | drop _ _ _ => exact h
  | assign _ _ _ _ => exact h
  | print _ => exact h
  | goOn _ => exact h
  | giveUp _ _ => exact h
  | finish _ => exact h

theorem Moves.keeps_scheduler {notes : List Note} (hmoves : Moves f notes f')
    (h : f.schedulers.contains g = true) : f'.schedulers.contains g = true := by
  induction hmoves with
  | nil => exact h
  | cons hmove _ ih => exact ih (hmove.keeps_scheduler h)

theorem HandedOnly.keeps_scheduler {P : Job → Prop} (hhanded : f.HandedOnly P) (op : Operation)
    (hop : f.perform op = .ok f') (h : f.schedulers.contains g = true) : f'.schedulers.contains g = true := by
  obtain ⟨maxSteps, diary, collected, hhistory, -⟩ := hhanded
  exact (moves_of_perform hhistory.reachable hop).keeps_scheduler h

theorem contains_registerGroup (f : Foreman) (g : GroupId) :
    (f.registerGroup g).1.schedulers.contains g = true := by
  unfold registerGroup
  split
  · assumption
  · exact ExtTreeMap.contains_insert_self

end Foreman

/-! ## Orderly sandboxes -/

namespace Sandbox

variable {s s' : Sandbox}

/-- **A sandbox whose accounts fit those of its foreman.** -/
structure Orderly (s : Sandbox) : Prop where
  handed : s.foreman.HandedOnly fun job => job.Fresh ∧ successor job.id.val ≤ s.factory.nextId
  registered : ∀ g, s.groups.contains g = true → s.foreman.schedulers.contains g = true

theorem orderly_new (config : Config) : (new config).Orderly where
  handed := Foreman.handedOnly_new _
  registered g hg := by
    rw [show (new config).groups = ∅ from rfl, ExtTreeSet.contains_empty] at hg
    cases hg

/-- **An operation on the foreman**, with more names used if need be. -/
theorem Orderly.operate (h : s.Orderly) (op : Foreman.Operation) (hop : s.foreman.perform op = .ok s'.foreman)
    (hgroups : s'.groups = s.groups) (hnames : s.factory.nextId ≤ s'.factory.nextId)
    (hnew : ∀ job ∈ s.foreman.accepted op, job.Fresh ∧ successor job.id.val ≤ s'.factory.nextId) :
    s'.Orderly where
  handed := (h.handed.mono fun _ hjob => ⟨hjob.1, UInt64.le_trans hjob.2 hnames⟩).perform op hop hnew
  registered g hg := h.handed.keeps_scheduler op hop (h.registered g (hgroups ▸ hg))

/-- An operation that takes in no job. -/
theorem Orderly.operate_nil (h : s.Orderly) (op : Foreman.Operation) (hop : s.foreman.perform op = .ok s'.foreman)
    (hgroups : s'.groups = s.groups) (hnames : s.factory = s'.factory) (hnew : s.foreman.accepted op = []) :
    s'.Orderly :=
  h.operate op hop hgroups (hnames ▸ UInt64.le_refl _) fun job hjob => by
    rw [hnew] at hjob
    cases hjob

/-- A change of the world, and names that are used up. -/
theorem Orderly.congr (h : s.Orderly) (hforeman : s'.foreman = s.foreman) (hgroups : s'.groups = s.groups)
    (hnames : s.factory.nextId ≤ s'.factory.nextId) : s'.Orderly where
  handed := hforeman ▸ h.handed.mono fun _ hjob => ⟨hjob.1, UInt64.le_trans hjob.2 hnames⟩
  registered g hg := hforeman ▸ h.registered g (hgroups ▸ hg)

/-- A job is handed in, and its name counts as used. -/
theorem Orderly.handIn (h : s.Orderly) (op : Foreman.Operation) (hop : s.foreman.perform op = .ok s'.foreman)
    (hgroups : s'.groups = s.groups) {α : Type} {job : Job} {answer : Except SchedulingError α}
    (hnames : s'.factory = s.factory.reserveThrough job.id)
    (hnew : s.foreman.accepted op = Foreman.acceptedIf job answer) (hfresh : job.Fresh) : s'.Orderly := by
  refine h.operate op hop hgroups (hnames ▸ s.factory.le_reserveThrough job.id) fun job' hjob' => ?_
  rw [hnew] at hjob'
  rw [Foreman.mem_acceptedIf hjob', hnames]
  exact ⟨hfresh, s.factory.successor_le_reserveThrough job.id⟩

theorem Orderly.addTask (h : s.Orderly) (g : GroupId) {job : Job} (hfresh : job.Fresh) :
    (s.addTask g job).1.Orderly := by
  unfold Sandbox.addTask
  split
  · exact h.handIn (.addTask g job) rfl rfl rfl rfl hfresh
  · exact h

theorem Orderly.addTasks (h : s.Orderly) (g : GroupId) {jobs : List Job} (hfresh : ∀ job ∈ jobs, job.Fresh) :
    (Sandbox.addTasks g jobs s).1.Orderly :=
  keeps_addTasks (fun _ job hjob hs => hs.addTask g (hfresh job hjob)) h

theorem Orderly.registers (h : s.Orderly) (g : GroupId) :
    Orderly { s with groups := s.groups.insert g, foreman := (s.foreman.registerGroup g).1 } where
  handed := h.handed.perform (.registerGroup g) rfl fun _ hjob => absurd hjob List.not_mem_nil
  registered g' hg' := by
    rw [ExtTreeSet.contains_insert, Bool.or_eq_true, beq_iff_eq, Std.compare_eq_iff_eq] at hg'
    rcases hg' with rfl | hg'
    · exact s.foreman.contains_registerGroup g
    · exact h.handed.keeps_scheduler (.registerGroup g) rfl (h.registered g' hg')

/-- **A command leaves a sandbox orderly**, accepted or refused. -/
theorem Orderly.perform (h : s.Orderly) {c : Command} (hc : c.Fresh) : (s.perform c).1.Orderly := by
  have heffect := effect_perform s c
  generalize s.perform c = result at heffect
  cases heffect with
  | refused => exact h
  | ignored => exact h
  | furnishes _ => exact h.congr rfl rfl (UInt64.le_refl _)
  | @registers g => exact h.registers g
  | @creates g name priority program targets factory jobs _ hjobs =>
    have hnames : Orderly { s with factory } := h.congr rfl rfl (Factory.le_createJobs hjobs)
    exact hnames.addTasks g (Factory.fresh_of_createJobs hc hjobs)
  | @adds g job _ => exact h.handIn (.addTask g job) rfl rfl rfl rfl hc
  | @shares g t _ => exact h.operate_nil (.scheduleExisting g t) rfl rfl rfl rfl
  | @replaces g t job _ => exact h.handIn (.replaceTask g t job) rfl rfl rfl rfl hc
  | @removes g t _ => exact h.operate_nil (.removeTask g t) rfl rfl rfl rfl
  | @stops _ actor change _ => exact h.operate_nil (.interrupt actor) rfl rfl rfl rfl

/-! ### Visits -/

theorem Orderly.offered (h : s.Orderly) (actor : ActorId) (a : ActorState) : (s.offered actor a).Orderly := by
  unfold Sandbox.offered
  split
  · exact h.operate_nil (.assignIdle actor a.group) rfl rfl rfl rfl
  · exact h

theorem Orderly.absorbed (h : s.Orderly) {around : Surroundings} {actor : ActorId} {dt : Float} {shift : Shift}
    (hturn : s.foreman.runActor around actor dt = .ok shift) : (s.absorbed actor shift).Orderly := by
  refine h.operate_nil (.runActor around actor dt) ?_ rfl rfl rfl
  rw [Foreman.perform, hturn]
  rfl

theorem Orderly.readied (h : s.Orderly) {dt : Float} {actor : ActorId} {a : ActorState}
    (hready : s.readied dt actor a = .ok s') : s'.Orderly := by
  obtain ⟨shift, hturn, rfl⟩ := turn_of_readied hready
  exact (h.offered actor a).absorbed hturn

theorem Orderly.visited (h : s.Orderly) {dt : Float} {actor : ActorId} {a : ActorState}
    (hvisited : Visited s dt actor a s') : s'.Orderly := by
  cases hvisited with
  | goesOn hready _ _ => exact (h.readied hready).congr rfl rfl (UInt64.le_refl _)
  | @settles s₁ world shift hready _ hsettle =>
    have hmoved : Orderly { s₁ with world } := (h.readied hready).congr rfl rfl (UInt64.le_refl _)
    exact hmoved.absorbed hsettle

theorem Orderly.ticked (h : s.Orderly) : s.ticked.Orderly :=
  h.operate_nil (.beginTick (successor s.tick)) rfl rfl rfl rfl

/-- **Every sandbox is orderly.** -/
theorem Reachable.orderly (h : Reachable s) : s.Orderly := by
  induction h with
  | new config => exact orderly_new config
  | perform c hc _ ih => exact ih.perform hc
  | advanceTime _ htick ih => exact keeps_of_advanceTime htick ih.ticked fun _ hvisited hs => hs.visited hvisited
  | nextTaskId _ ih => exact ih.congr rfl rfl (le_successor _)
  | drainEvents _ ih => exact ⟨ih.handed.drain, ih.registered⟩

end Sandbox

end TaskScript
