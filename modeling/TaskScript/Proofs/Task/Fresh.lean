import TaskScript.Proofs.Except
import TaskScript.Proofs.Program.Sealed
import TaskScript.Task.Factory

/-!
# `Proofs.Task.Fresh`: jobs as they are made

A job is made by `Job.make` or `Job.makeAt`, or by a factory, and each of them first checks the program of the job.
A factory makes no other jobs than the first two do (`fresh_of_createJobs`). So whatever is proved of jobs that are
`Fresh` is proved of every job that was let pass, and their programs obey the static rules (`Fresh.check`).

## Contents
- `Job.Fresh`, `Fresh.check`.
- `Factory.createJobs_eq_ok`, `of_mem_createJobs`, `fresh_of_createJobs`: **what a factory makes**.
-/

namespace TaskScript

/-- **A job as it is made**, of a sealed program. -/
def Job.Fresh (job : Job) : Prop :=
  job.program.Sealed ∧
    (Job.make job.id job.name job.priority job.program = .ok job ∨
      ∃ selected, Job.makeAt job.id job.name job.priority job.program selected = .ok job)

/-- **The program of a job has passed the formation check.** -/
theorem Job.Fresh.check {job : Job} (h : job.Fresh) : job.program.check = .ok () := by
  obtain ⟨-, hmake | ⟨selected, hmake⟩⟩ := h
  · obtain ⟨_, hcheck, -⟩ := bind_eq_ok hmake
    exact hcheck
  · obtain ⟨_, hcheck, -⟩ := bind_eq_ok hmake
    exact hcheck

/-- A factory makes its jobs for target cubes one after the other, each of the same program. -/
theorem Factory.of_mem_jobsFor {name : String} {priority : Int64} {program : Program} {cubes : List Cube}
    {f : Factory} {job : Job} (hjob : job ∈ (jobsFor name priority program cubes f).2) :
    ∃ id, ∃ c ∈ cubes, job = { id, name, priority, program, selected := some c } := by
  induction cubes generalizing f with
  | nil => cases hjob
  | cons c rest ih =>
    rcases List.mem_cons.mp hjob with rfl | hjob
    · exact ⟨_, c, List.mem_cons_self, rfl⟩
    · obtain ⟨id, c', hc', heq⟩ := ih hjob
      exact ⟨id, c', List.mem_cons_of_mem _ hc', heq⟩

/-- **What a factory does for an order that it accepts.** -/
theorem Factory.createJobs_eq_ok {f f' : Factory} {name : String} {priority : Int64} {program : Program}
    {targets : List Cube} {jobs : List Job} (h : f.createJobs name priority program targets = .ok (f', jobs)) :
    program.check = .ok () ∧
      (program.usesSelected = true ∧ targets ≠ [] ∧ jobsFor name priority program targets f = (f', jobs) ∨
        program.usesSelected = false ∧ f' = f.allocate.1 ∧
          jobs = [{ id := f.allocate.2, name, priority, program, selected := none }]) := by
  obtain ⟨_, hcheck, h⟩ := bind_eq_ok h
  refine ⟨hcheck, ?_⟩
  cases hself : program.usesSelected with
  | true =>
    rw [hself, if_pos rfl] at h
    cases targets with
    | nil => cases h
    | cons c rest => exact .inl ⟨rfl, List.cons_ne_nil c rest, Except.ok.inj h⟩
  | false =>
    rw [hself, if_neg Bool.false_ne_true] at h
    cases h
    exact .inr ⟨rfl, rfl, rfl⟩

/-- **The jobs that a factory makes**: for the target cubes, or for none if the program reads no selected cube. -/
theorem Factory.of_mem_createJobs {f f' : Factory} {name : String} {priority : Int64} {program : Program}
    {targets : List Cube} {jobs : List Job} (h : f.createJobs name priority program targets = .ok (f', jobs))
    {job : Job} (hjob : job ∈ jobs) :
    program.check = .ok () ∧ ∃ id, (∃ c ∈ targets, job = { id, name, priority, program, selected := some c }) ∨
      program.usesSelected = false ∧ job = { id, name, priority, program, selected := none } := by
  obtain ⟨hcheck, ⟨-, -, hjobs⟩ | ⟨hself, -, rfl⟩⟩ := createJobs_eq_ok h
  · have hmade : (jobsFor name priority program targets f).2 = jobs := congrArg Prod.snd hjobs
    obtain ⟨id, hc⟩ := of_mem_jobsFor (hmade ▸ hjob)
    exact ⟨hcheck, id, .inl hc⟩
  · exact ⟨hcheck, _, .inr ⟨hself, List.mem_singleton.mp hjob⟩⟩

/-- The jobs of a factory are as they are made. -/
theorem Factory.fresh_of_createJobs {f f' : Factory} {name : String} {priority : Int64} {program : Program}
    {targets : List Cube} {jobs : List Job} (hsealed : program.Sealed)
    (h : f.createJobs name priority program targets = .ok (f', jobs)) : ∀ job ∈ jobs, job.Fresh := by
  intro job hjob
  obtain ⟨hcheck, id, ⟨c, -, rfl⟩ | ⟨hself, rfl⟩⟩ := of_mem_createJobs h hjob
  · refine ⟨hsealed, .inr ⟨c, ?_⟩⟩
    rw [Job.makeAt, hcheck]
    rfl
  · refine ⟨hsealed, .inl ?_⟩
    rw [Job.make, hcheck, hself]
    rfl

end TaskScript
