import TaskScript.CommandLine
import TaskScript.Proofs.Sandbox.Setup

/-!
# `Proofs.CommandLine.Check`: a check agrees with a run

A check makes the jobs of a scenario twice: first on its own, with a factory that serves for nothing else and without
a look at groups, bounds or shares, and then as part of a setup. The two come upon the faults of a scenario in different
orders, but not to different answers: whether jobs are made of an entry, and how many, is up to the entry
(`TaskSpec.Makes`), so what the setup accepts the first pass does not reject.

A run ends with a message only if it does not get past its setup. Afterwards there is nothing to complain about but a
coordinate out of range.

## Contents
- `acceptedLine`, `checkTasks_eq`: **entries of which jobs are made are reported**.
- `checkScenario_eq`: what a check prints of a scenario that can be set up.
- `run_fails_iff`: **how a run fails**.
- `check_agrees_with_setup`.
-/

namespace TaskScript.CommandLine

/-! ## The first pass -/

/-- The line of an entry of which some number of jobs is made. -/
def acceptedLine (spec : TaskSpec) (n : Nat) : String :=
  "ok " ++ spec.name ++ " (" ++ toString n ++ " task(s))"

/-- **Entries of which jobs are made are reported** with their numbers, and none is rejected. -/
theorem checkTasks_eq {specs : List TaskSpec} {counts : List Nat} (h : List.Forall₂ TaskSpec.Makes specs counts)
    (f : Factory) : checkTasks specs f = (List.zipWith acceptedLine specs counts, 0) := by
  induction h generalizing f with
  | nil => rfl
  | @cons spec n specs counts hmakes _ ih =>
    obtain ⟨program, hbuild, hmade⟩ := hmakes
    obtain ⟨f', jobs, hjobs, rfl⟩ := hmade f
    have hmade : (do
        let program ← spec.program.build
        f.createJobs spec.name spec.priority program spec.targets) = .ok (f', jobs) := by
      rw [hbuild]
      exact hjobs
    rw [checkTasks]
    simp only [hmade, ih]
    rfl

/-- **What a check prints of a scenario that can be set up.** -/
theorem checkScenario_eq {s : Scenario} {sandbox : Sandbox} (h : Sandbox.ofScenario s = .ok sandbox) :
    ∃ counts, List.Forall₂ TaskSpec.Makes s.tasks counts ∧ sandbox.taskCount = counts.sum ∧
      checkScenario s = ⟨List.zipWith acceptedLine s.tasks counts, .ok ()⟩ := by
  obtain ⟨counts, hmakes, hcount⟩ := Sandbox.makes_ofScenario h
  refine ⟨counts, hmakes, hcount, ?_⟩
  rw [checkScenario, checkTasks_eq hmakes, h]
  rfl

theorem checkScenario_succeeds_iff (s : Scenario) :
    (checkScenario s).result = .ok () ↔ ∃ sandbox, Sandbox.ofScenario s = .ok sandbox := by
  constructor
  · intro hok
    cases h : Sandbox.ofScenario s with
    | error e =>
      rw [checkScenario, h] at hok
      cases hok
    | ok sandbox => exact ⟨sandbox, rfl⟩
  · rintro ⟨sandbox, h⟩
    obtain ⟨counts, -, -, heq⟩ := checkScenario_eq h
    rw [heq]

/-! ## Runs -/

/-- Once it is set up, a sandbox runs without complaint, unless a coordinate is out of range. -/
theorem runSandbox_ne_message (json : Bool) (dt : Float) (n : Nat) (s : Sandbox) (lines : Array String)
    (text : String) : (runSandbox json dt n s lines).result ≠ .error (.message text) := by
  induction n generalizing s lines with
  | zero => nofun
  | succ n ih =>
    rw [runSandbox]
    split
    · nofun
    · exact ih _ _

section

variable {s : Scenario} {path ticks : Option String} {contents : Except String String} {n : Nat}

/-- A run of a scenario that can be set up. -/
theorem print_run_eq (hs : scenario path contents = .ok s) (hticks : ticksOr s.ticks.toNat ticks = .ok n)
    {sandbox : Sandbox} (h : Sandbox.ofScenario s = .ok sandbox) (json : Bool) :
    (Invocation.mk (.run path ticks) json).print contents = runSandbox json s.dt n sandbox #[] := by
  rw [Invocation.print]
  simp only [hs, hticks, h]

/-- **A run ends with a message** exactly if its scenario cannot be set up, as long as there is a scenario to run and
the number of ticks is one. -/
theorem run_fails_iff (hs : scenario path contents = .ok s) (hticks : ticksOr s.ticks.toNat ticks = .ok n)
    (json : Bool) :
    (∃ text, ((Invocation.mk (.run path ticks) json).print contents).result = .error (.message text)) ↔
      ∃ e, Sandbox.ofScenario s = .error e := by
  cases h : Sandbox.ofScenario s with
  | error e =>
    refine ⟨fun _ => ⟨e, rfl⟩, fun _ => ⟨e.message, ?_⟩⟩
    rw [Invocation.print]
    simp only [hs, hticks, h]
    rfl
  | ok sandbox =>
    rw [print_run_eq hs hticks h json]
    constructor
    · rintro ⟨text, hfails⟩
      exact absurd hfails (runSandbox_ne_message json s.dt n sandbox #[] text)
    · nofun

end

/-- **A check agrees with a setup.** It succeeds exactly if the scenario can be set up; that is, exactly if a run of the
same document gets past its setup and goes on to its ticks. If it succeeds, every entry is reported with the number of
jobs that are made of it, and these add up to the tasks on the board. -/
theorem check_agrees_with_setup (s : Scenario) :
    ((checkScenario s).result = .ok () ↔ ∃ sandbox, Sandbox.ofScenario s = .ok sandbox) ∧
    (∀ (path ticks : Option String) (contents : Except String String) (n : Nat) (json json' : Bool),
      scenario path contents = .ok s → ticksOr s.ticks.toNat ticks = .ok n →
        (((Invocation.mk (.check path) json).print contents).result = .ok () ↔
          ∀ text, ((Invocation.mk (.run path ticks) json').print contents).result ≠ .error (.message text)) ∧
        ∀ sandbox, Sandbox.ofScenario s = .ok sandbox →
          (Invocation.mk (.run path ticks) json').print contents = runSandbox json' s.dt n sandbox #[]) ∧
    ∀ sandbox, Sandbox.ofScenario s = .ok sandbox →
      ∃ counts, List.Forall₂ TaskSpec.Makes s.tasks counts ∧
        (checkScenario s).lines = List.zipWith acceptedLine s.tasks counts ∧
        counts.sum = sandbox.foreman.board.toList.length := by
  refine ⟨checkScenario_succeeds_iff s, fun path ticks contents n json json' hs hticks => ⟨?_, ?_⟩, ?_⟩
  · have hcheck : (Invocation.mk (.check path) json).print contents = checkScenario s := by
      rw [Invocation.print]
      simp only [hs]
    rw [hcheck, checkScenario_succeeds_iff, ← not_exists, run_fails_iff hs hticks]
    cases Sandbox.ofScenario s with
    | error e => simp
    | ok sandbox => simp
  · exact fun sandbox h => print_run_eq hs hticks h json'
  · intro sandbox h
    obtain ⟨counts, hmakes, hcount, heq⟩ := checkScenario_eq h
    exact ⟨counts, hmakes, by rw [heq], by rw [sandbox.length_board, hcount]⟩

/-- Two groups share the work at two cubes, and one has a walk to itself. -/
def sharedWork : Scenario where
  groups := [⟨1⟩, ⟨2⟩]
  tasks := [⟨"work", [⟨1⟩, ⟨2⟩], 0, [⟨1, 0, 0⟩, ⟨2, 0, 0⟩], .leaf (.action (.work .selected))⟩,
    ⟨"walk", [⟨2⟩], 0, [], .leaf (.action (.moveTo .here))⟩]

/-- The same, but the groups are not there. -/
def orphanedWork : Scenario :=
  { sharedWork with groups := [] }

theorem sharedWork_checked :
    ((checkScenario sharedWork).result = .ok () ∧ ∃ sandbox counts, Sandbox.ofScenario sharedWork = .ok sandbox ∧
      (checkScenario sharedWork).lines = List.zipWith acceptedLine sharedWork.tasks counts ∧
      counts.sum = sandbox.foreman.board.toList.length) ∧
    (checkTasks orphanedWork.tasks {}).2 = 0 ∧ (checkScenario orphanedWork).result ≠ .ok () := by
  obtain ⟨sandbox, hsetup⟩ : ∃ sandbox, Sandbox.ofScenario sharedWork = .ok sandbox := exists_ok_of_isOk (by decide)
  have hrefused : ¬ ∃ sandbox, Sandbox.ofScenario orphanedWork = .ok sandbox := by
    rintro ⟨sandbox, h⟩
    have hok : (Sandbox.ofScenario orphanedWork).isOk = false := by decide
    rw [h] at hok
    cases hok
  obtain ⟨hsucceeds, -, hcounts⟩ := check_agrees_with_setup sharedWork
  obtain ⟨counts, -, hlines, hsum⟩ := hcounts sandbox hsetup
  exact ⟨⟨hsucceeds.mpr ⟨sandbox, hsetup⟩, sandbox, counts, hsetup, hlines, hsum⟩, by decide,
    fun hok => hrefused ((check_agrees_with_setup orphanedWork).1.mp hok)⟩

end TaskScript.CommandLine
