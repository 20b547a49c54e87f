import Mathlib.Algebra.GroupWithZero.Nat
import Mathlib.Data.List.Forall2
import TaskScript.Proofs.Sandbox.Reachable
import TaskScript.Proofs.Task.Supply

/-!
# `Proofs.Sandbox.Setup`: how many tasks a setup makes

How many jobs are made of an entry of a scenario is up to the entry, and not to the factory that makes them
(`TaskSpec.Makes`). Each job that is handed in is one task more on the board, and nothing else in a setup puts a task
there or takes one off. So the tasks of a sandbox that was set up are counted by the entries of its scenario.

## Contents
- `TaskSpec.Makes`, `TaskSpec.makes_of_createJobs`: **the jobs of an entry**.
- `Foreman.size_addTask`, `Sandbox.taskCount`, `taskCount_addTasks`: one task for each job.
- `Sandbox.makes_addSpec`, `makes_ofScenario`: **the tasks of a setup**.
-/

namespace TaskScript

open Std

/-! ## The jobs of an entry -/

/-- **How many jobs are made of an entry**, whatever names the factory has left. -/
def TaskSpec.Makes (spec : TaskSpec) (n : Nat) : Prop :=
  ∃ program, spec.program.build = .ok program ∧ ∀ f : Factory, ∃ f' jobs,
    f.createJobs spec.name spec.priority program spec.targets = .ok (f', jobs) ∧ jobs.length = n

/-- What one factory makes of an entry, every other does. -/
theorem TaskSpec.makes_of_createJobs {spec : TaskSpec} {program : Program} {f f' : Factory} {jobs : List Job}
    (hbuild : spec.program.build = .ok program)
    (h : f.createJobs spec.name spec.priority program spec.targets = .ok (f', jobs)) : spec.Makes jobs.length := by
  refine ⟨program, hbuild, fun g => ?_⟩
  cases hrefused : (Factory.Call.create spec.name spec.priority program spec.targets).refused with
  | true =>
    obtain ⟨e, he⟩ := Factory.createJobs_refused hrefused f
    rw [h] at he
    cases he
  | false =>
    obtain ⟨_, _, hjobs, hselected, -⟩ := Factory.createJobs_accepted hrefused f
    obtain ⟨g', jobs', hjobs', hselected', -⟩ := Factory.createJobs_accepted hrefused g
    cases h.symm.trans hjobs
    have hlength := congrArg List.length (hselected'.trans hselected.symm)
    rw [List.length_map, List.length_map] at hlength
    exact ⟨g', jobs', hjobs', hlength⟩

/-! ## The size of the board -/

namespace Foreman

variable {f : Foreman} {g : GroupId}

/-- A job that is taken in is one task more. -/
theorem size_addTask {job : Job} {t : TaskId} (h : (f.addTask g job).2 = .ok t) :
    (f.addTask g job).1.board.tasks.size = f.board.tasks.size + 1 := by
  unfold addTask at h ⊢
  cases hs : f.schedulers[g]? with
  | none =>
    rw [hs] at h
    cases h
  | some s =>
    cases hnew : f.board.contains job.id with
    | true =>
      rw [hs, hnew] at h
      cases h
    | false =>
      simp only [hs, hnew, Bool.false_eq_true, if_false] at h ⊢
      cases hadd : s.add (f.board.insert { job with }) job.id with
      | error e =>
        rw [hadd] at h
        cases h
      | ok changed =>
        show changed.2.tasks.size = _
        rw [(Scheduler.added_of_add hadd).board, Board.modify, ExtTreeMap.size_modify, Board.insert,
          ExtTreeMap.size_insert]
        exact if_neg (by rw [← Board.contains, hnew]; decide)

/-- Sharing a task makes no new one. -/
theorem size_scheduleExisting (f : Foreman) (g : GroupId) (t : TaskId) :
    (f.scheduleExisting g t).1.board.tasks.size = f.board.tasks.size := by
  rcases scheduleExisting_cases f g t with ⟨e, heq⟩ | ⟨s, changed, hs, hadd, heq⟩
  · rw [heq]
  · rw [heq]
    show changed.2.tasks.size = _
    rw [(Scheduler.added_of_add hadd).board, Board.modify, ExtTreeMap.size_modify]

end Foreman

namespace Sandbox

variable {s s' : Sandbox}

/-- How many tasks are on the board. -/
def taskCount (s : Sandbox) : Nat :=
  s.foreman.board.tasks.size

theorem length_board (s : Sandbox) : s.foreman.board.toList.length = s.taskCount := by
  rw [Board.toList, List.length_map, ExtTreeMap.length_toList, taskCount]

theorem taskCount_shareTask (s : Sandbox) (g : GroupId) (t : TaskId) : (s.shareTask g t).1.taskCount = s.taskCount := by
  unfold shareTask
  split
  · exact s.foreman.size_scheduleExisting g t
  · rfl

theorem taskCount_addTask {g : GroupId} {job : Job} {t : TaskId} (h : s.addTask g job = (s', .ok t)) :
    s'.taskCount = s.taskCount + 1 := by
  unfold addTask at h
  split at h
  · obtain ⟨rfl, hanswer⟩ := Prod.mk.inj h
    exact Foreman.size_addTask (eq_ok_of_mapError hanswer)
  · cases h

theorem taskCount_addTasks {g : GroupId} {jobs : List Job} {ids : List TaskId}
    (h : addTasks g jobs s = (s', .ok ids)) : s'.taskCount = s.taskCount + jobs.length := by
  induction jobs generalizing s ids with
  | nil =>
    cases h
    rfl
  | cons job rest ih =>
    unfold addTasks at h
    split at h
    · cases h
    · rename_i s₁ t hfirst
      cases hrest : addTasks g rest s₁ with
      | mk s₂ answer =>
        rw [hrest] at h
        cases answer with
        | error e => cases h
        | ok ids' =>
          cases h
          rw [ih hrest, taskCount_addTask hfirst, List.length_cons]
          omega

/-- The tasks that are created of an entry are on the board. -/
theorem makes_createTasks {spec : TaskSpec} {program : Program} {g : GroupId} {ids : List TaskId}
    (hbuild : spec.program.build = .ok program)
    (h : s.createTasks g spec.name spec.priority program spec.targets = (s', .ok ids)) :
    ∃ n, spec.Makes n ∧ s'.taskCount = s.taskCount + n := by
  unfold createTasks at h
  split at h
  · split at h
    · cases h
    · rename_i factory jobs hjobs
      have hcount := taskCount_addTasks h
      exact ⟨jobs.length, TaskSpec.makes_of_createJobs hbuild hjobs, hcount⟩
  · cases h

/-- **An entry of a scenario brings the tasks that are made of it.** -/
theorem makes_addSpec {spec : TaskSpec} (h : s.addSpec spec = .ok s') :
    ∃ n, spec.Makes n ∧ s'.taskCount = s.taskCount + n := by
  obtain ⟨program, first, others, s₁, ids, hbuild, -, hcreate, hshare⟩ := addSpec_eq_ok h
  obtain ⟨n, hmakes, hcount⟩ := makes_createTasks hbuild (eq_of_accepted hcreate)
  refine ⟨n, hmakes, ?_⟩
  rw [← hcount]
  -- to share a task makes no new one
  refine foldlM_keeps (P := (·.taskCount = s₁.taskCount)) (fun s g s' _ hs hgroup => ?_) rfl hshare
  refine foldlM_keeps (P := (·.taskCount = s₁.taskCount)) (fun s t s' _ hs ht => ?_) hs hgroup
  rw [eq_of_settled ht, taskCount_shareTask, hs]

/-- Entries in a row. -/
theorem makes_addSpecs {specs : List TaskSpec} (h : specs.foldlM addSpec s = .ok s') :
    ∃ counts, List.Forall₂ TaskSpec.Makes specs counts ∧ s'.taskCount = s.taskCount + counts.sum := by
  induction specs generalizing s with
  | nil =>
    cases h
    exact ⟨[], .nil, rfl⟩
  | cons spec rest ih =>
    rw [List.foldlM_cons] at h
    obtain ⟨s₁, hspec, hrest⟩ := bind_eq_ok h
    obtain ⟨n, hmakes, hcount⟩ := makes_addSpec hspec
    obtain ⟨counts, hall, hsum⟩ := ih hrest
    refine ⟨n :: counts, .cons hmakes hall, ?_⟩
    rw [hsum, hcount, List.sum_cons, Nat.add_assoc]

/-! ## The tasks of a scenario -/

/-- The tasks come last in a setup. -/
theorem ofScenario_eq_bind (scenario : Scenario) :
    ofScenario scenario = ofScenario { scenario with tasks := [] } >>= (scenario.tasks.foldlM addSpec ·) := by
  unfold ofScenario
  simp

theorem taskCount_addGroup (s : Sandbox) (g : GroupId) : (s.addGroup g).taskCount = s.taskCount := by
  unfold addGroup Foreman.registerGroup
  split
  · rfl
  · split <;> rfl

theorem taskCount_spawnActor (s : Sandbox) (actor : ActorId) (g : GroupId) (position : Cube) :
    (s.spawnActor actor g position).1.taskCount = s.taskCount := by
  unfold spawnActor
  split_ifs <;> rfl

theorem taskCount_setCarrying (s : Sandbox) (actor : ActorId) (item : Option Item) :
    (s.setCarrying actor item).1.taskCount = s.taskCount := by
  unfold setCarrying
  split <;> rfl

theorem taskCount_onCube (s : Sandbox) (c : Cube) (world : World) :
    (s.onCube c { s with world }).1.taskCount = s.taskCount := by
  unfold onCube
  split <;> rfl

/-- Before them, there are none on the board. -/
theorem taskCount_ofScenario_nil {scenario : Scenario} (hnone : scenario.tasks = []) (h : ofScenario scenario = .ok s) :
    s.taskCount = 0 := by
  refine keeps_ofScenario (P := (·.taskCount = 0)) (fun s c hc hs => ?_) rfl h
  cases hc with
  | addGroup => exact (s.taskCount_addGroup _).trans hs
  | spawnActor => exact (s.taskCount_spawnActor _ _ _).trans hs
  | setCarrying => exact (s.taskCount_setCarrying _ _).trans hs
  | setTerrain => exact (s.taskCount_onCube _ _).trans hs
  | placeLog => exact (s.taskCount_onCube _ _).trans hs
  | placeBoulder => exact (s.taskCount_onCube _ _).trans hs
  | createTasks hspec _ =>
    rw [hnone] at hspec
    cases hspec
  | shareTask => exact (s.taskCount_shareTask _ _).trans hs

/-- **The tasks of a scenario that is accepted**: so many of each entry, and as many in all as are on the board. -/
theorem makes_ofScenario {scenario : Scenario} (h : ofScenario scenario = .ok s) :
    ∃ counts, List.Forall₂ TaskSpec.Makes scenario.tasks counts ∧ s.taskCount = counts.sum := by
  rw [ofScenario_eq_bind] at h
  obtain ⟨s₀, hbefore, htasks⟩ := bind_eq_ok h
  obtain ⟨counts, hmakes, hcount⟩ := makes_addSpecs htasks
  rw [taskCount_ofScenario_nil rfl hbefore, Nat.zero_add] at hcount
  exact ⟨counts, hmakes, hcount⟩

end Sandbox

end TaskScript
