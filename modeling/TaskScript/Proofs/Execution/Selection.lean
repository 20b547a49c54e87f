import TaskScript.Proofs.Evaluation.Selection
import TaskScript.Proofs.Execution.Path
import TaskScript.Proofs.Execution.Refinement

/-!
# `Proofs.Execution.Selection`: jobs that read no selected cube

Two executions of one program that were created for different cubes, or one of them for none, can be told apart only by
an expression that reads the cube. If the program reads it nowhere, they do the same, step by step and call by call
(`Resting.call_reselect`).

Whether a program reads the cube is looked up in its tree, statement by statement, and an execution runs statements of
that tree only, because its stack is a path in it. This is why a job without a cube is made only of a program of which
the look-up says no, and why no job ever fails for want of a cube.

## Contents
- `Execution.reselect`: the same execution with another selection.
- `Resting.sameRun_call`, `Resting.sameRun_after`: **what a run keeps**.
- `step_reselect`, `Rooted.steps_reselect`, `Resting.call_reselect`: **steps, turns and calls**.
- `step_elsewhere`, `Resting.call_elsewhere`: executions that were created for a cube.
- `Job.Made`, `selection_matters_only_if_read`.
-/

namespace TaskScript

/-- The execution as it would be, had its job been created for another cube, or for none. -/
def Execution.reselect (e : Execution) (selected : Option Cube) : Execution :=
  { e with selected }

/-- The step as it would be with another selection. -/
def Step.reselect (s : Step) (selected : Option Cube) : Step :=
  { s with execution := s.execution.reselect selected }

/-- The turn as it would be with another selection. -/
def Turn.reselect (t : Turn) (selected : Option Cube) : Turn :=
  { t with execution := t.execution.reselect selected }

/-- The dispatch as it would be with another selection. -/
def Dispatch.reselect (d : Dispatch) (selected : Option Cube) : Dispatch :=
  ⟨d.before.reselect selected, d.step.reselect selected⟩

namespace Execution

variable {around : Surroundings} {actor : ActorId} {e : Execution} {top : Frame} {rest : List Frame}

/-! ## What a run keeps -/

/-- **A step exchanges neither the program nor the selection.** -/
theorem Stride.sameRun {s : Step} (h : Stride around actor e top rest s) : e.SameRun s.execution := by
  cases h with
  | enters | loops =>
    rw [enter_eq]
    exact ⟨rfl, rfl, rfl⟩
  | _ => exact ⟨rfl, rfl, rfl⟩

theorem Rooted.sameRun_step (h : e.Rooted) (hstack : e.stack = top :: rest) {s : Step}
    (hstep : e.step around actor top = .ok s) : e.SameRun s.execution := by
  obtain ⟨st, hst, hsuits⟩ := h.standing.suits top (hstack ▸ List.mem_cons_self)
  exact (Execution.stride hst hsuits hstack hstep).sameRun

theorem Rooted.sameRun_turns {n : Nat} {ds : List Dispatch} {e' : Execution} {r : Except Fault Outcome}
    (hturns : Turns around actor n e ds e' r) (h : e.Rooted) : e.SameRun e' := by
  induction hturns with
  | completed _ | exhausted _ | failed _ _ => exact ⟨rfl, rfl, rfl⟩
  | yielded hstack hstep _ => exact h.sameRun_step hstack hstep
  | goesOn hstack hstep _ _ ih => exact (h.sameRun_step hstack hstep).trans (ih (h.step hstack hstep))

theorem Resting.sameRun_call (h : e.Resting) (c : Call) : e.SameRun (e.call c).execution := by
  cases hfinished : e.finished with
  | true =>
    rw [Execution.call, turn_of_finished c.dt hfinished]
    exact ⟨rfl, rfl, rfl⟩
  | false => exact (sameRun_wake e c.dt).1.trans ((h.wake hfinished c.dt).sameRun_turns (turns_call c hfinished))

theorem Resting.sameRun_after (h : e.Resting) (calls : List Call) : e.SameRun (e.after calls) := by
  induction calls generalizing e with
  | nil => exact ⟨rfl, rfl, rfl⟩
  | cons c calls ih => exact (h.sameRun_call c).trans (ih (h.call c).2)

/-! ## Steps -/

section

variable (selected : Option Cube)

theorem replaceTop_reselect (frame : Frame) :
    (e.reselect selected).replaceTop frame = (e.replaceTop frame).reselect selected :=
  rfl

theorem enter_reselect (id : StatementId) : (e.reselect selected).enter id = (e.enter id).reselect selected := by
  rw [enter_eq, enter_eq]
  rfl

theorem completeTop_reselect : (e.reselect selected).completeTop = e.completeTop.reselect selected := by
  cases hstack : e.stack with
  | nil =>
    unfold completeTop
    rw [hstack, show (e.reselect selected).stack = [] from hstack]
  | cons frame rest =>
    rw [completeTop_eq hstack, completeTop_eq (show (e.reselect selected).stack = frame :: rest from hstack)]
    rfl

theorem reset_reselect (ids : List StatementId) :
    (e.reselect selected).reset ids = (e.reset ids).reselect selected := by
  rw [reset_eq, reset_eq]
  rfl

theorem unwind_reselect (frames : List Frame) :
    unwind frames (e.reselect selected) = (unwind frames e).reselect selected := by
  rw [unwind_eq, unwind_eq]
  rfl

/-- **A step of a statement that does not read the selected cube** does the same whatever was selected. -/
theorem step_reselect (frame : Frame)
    (h : ∀ st, e.program.statement? frame.id = some st → st.usesSelected = false) :
    (e.reselect selected).step around actor frame =
      (e.step around actor frame).map fun s => s.reselect selected := by
  have hscope : (e.reselect selected).scope around.toWorldView actor =
      (e.scope around.toWorldView actor).reselect selected := rfl
  have hprogram : (e.reselect selected).program = e.program := rfl
  unfold step
  dsimp only
  rw [hprogram, hscope]
  -- the cases are in the order of the step: sequence, `if`, loop before and after its body, action before and after
  -- its request, assignment, print, `break`, and every other frame
  split
  · split
    · rw [replaceTop_reselect, enter_reselect]
      rfl
    · rw [completeTop_reselect]
      rfl
  · rename_i hst
    rw [Scope.holds_reselect selected (h _ hst), replaceTop_reselect, completeTop_reselect]
    cases (e.scope around.toWorldView actor).holds _ with
    | error fault => rfl
    | ok holds =>
      dsimp only [bind, Except.bind]
      split
      · rw [enter_reselect]
        rfl
      · rfl
  · rename_i hst
    rw [Scope.holds_reselect selected (h _ hst), reset_reselect, replaceTop_reselect, enter_reselect,
      completeTop_reselect]
    rcases (e.scope around.toWorldView actor).holds _ with fault | _ | _ <;> rfl
  · rfl
  · rename_i hst
    rw [Scope.request_reselect selected (h _ hst)]
    show (if 0.0 < e.allowance then _ else _) = _
    split
    · cases (e.scope around.toWorldView actor).request _ <;> rfl
    · rfl
  · rw [completeTop_reselect]
    split <;> rfl
  · rename_i name _ hst
    rw [Scope.evaluate_reselect selected (h _ hst)]
    cases (e.scope around.toWorldView actor).evaluate _ with
    | error fault => rfl
    | ok v =>
      let bound : Execution := { e with env := e.env.insert name v }
      show Except.ok (Step.mk (bound.reselect selected).completeTop _ _) = _
      rw [completeTop_reselect]
      rfl
  · rename_i hst
    rw [Scope.evaluate_reselect selected (h _ hst), completeTop_reselect]
    cases (e.scope around.toWorldView actor).evaluate _ <;> rfl
  · show Except.ok (Step.mk (unwind e.stack (e.reselect selected)) _ _) = _
    rw [unwind_reselect]
    rfl
  · rw [completeTop_reselect]
    rfl

/-! ## Turns -/

/-- **What is run is looked up**: the statement on top of the stack is one of the tree. -/
theorem Rooted.usesSelected_eq_false (h : e.Rooted) (hself : e.program.usesSelected = false)
    (hstack : e.stack = top :: rest) {st : Statement} (hst : e.program.statement? top.id = some st) :
    st.usesSelected = false := by
  have hpath := h.path
  rw [hstack] at hpath
  have hmem : top.id ∈ e.program.subtree e.program.root :=
    (h.tree.mem_subtree_iff (Nat.le_of_lt h.tree.ordered.root)).mpr (hpath.within_root h.tree)
  by_contra hread
  rw [Bool.not_eq_false] at hread
  have huses : e.program.usesSelected = true := by
    refine List.any_eq_true.mpr ⟨top.id, hmem, ?_⟩
    rw [hst]
    exact hread
  rw [hself] at huses
  cases huses

/-- **The steps of a turn** are the same whatever was selected, and so is what they lead to. -/
theorem Rooted.steps_reselect (h : e.Rooted) (hself : e.program.usesSelected = false) (n : Nat) (done : List Deed) :
    steps around actor n (e.reselect selected) done = (steps around actor n e done).reselect selected ∧
      (e.reselect selected).dispatches around actor n = (e.dispatches around actor n).map (·.reselect selected) := by
  induction n generalizing e done with
  | zero =>
    cases hstack : e.stack with
    | nil =>
      have hstack' : (e.reselect selected).stack = [] := hstack
      rw [steps_nil 0 done hstack, steps_nil 0 done hstack']
      exact ⟨rfl, rfl⟩
    | cons top rest =>
      have hstack' : (e.reselect selected).stack = top :: rest := hstack
      rw [steps_zero done hstack, steps_zero done hstack']
      exact ⟨rfl, rfl⟩
  | succ n ih =>
    cases hstack : e.stack with
    | nil =>
      have hstack' : (e.reselect selected).stack = [] := hstack
      rw [steps_nil _ done hstack, steps_nil _ done hstack', dispatches_nil _ hstack, dispatches_nil _ hstack']
      exact ⟨rfl, rfl⟩
    | cons top rest =>
      have hstack' : (e.reselect selected).stack = top :: rest := hstack
      -- the one step, where it is used that the statement on top does not read the selected cube
      have hstep : (e.reselect selected).step around actor top =
          (e.step around actor top).map fun s => s.reselect selected :=
        step_reselect selected top fun st hst => h.usesSelected_eq_false hself hstack hst
      rw [steps_succ n done hstack, steps_succ n done hstack', dispatches_succ n hstack, dispatches_succ n hstack',
        hstep]
      cases hs : e.step around actor top with
      | error fault => exact ⟨rfl, rfl⟩
      | ok s =>
        have hself' : s.execution.program.usesSelected = false := by rwa [(h.sameRun_step hstack hs).program]
        have hnext := ih (h.step hstack hs) hself' (s.deed.toList ++ done)
        have hsame : (s.reselect selected).execution = s.execution.reselect selected := rfl
        have hgoes : (s.reselect selected).goesOn = s.goesOn := rfl
        have hdeed : (s.reselect selected).deed = s.deed := rfl
        dsimp only [Except.map]
        rw [hsame, hgoes, hdeed]
        cases hgo : s.goesOn with
        | true => exact ⟨hnext.1, congrArg _ hnext.2⟩
        | false => exact ⟨rfl, rfl⟩

theorem wake_reselect (dt : Float) : (e.reselect selected).wake dt = (e.wake dt).reselect selected := by
  unfold wake
  dsimp only
  rw [show (e.reselect selected).stack = e.stack from rfl]
  split
  · exact enter_reselect (e := { e with allowance := if 0.0 < dt then dt else 0.0 }) selected _
  · rfl

/-- **A call** does the same whatever was selected. -/
theorem Resting.call_reselect (h : e.Resting) (hself : e.program.usesSelected = false) (c : Call) :
    (e.reselect selected).call c = (e.call c).reselect selected ∧
      (e.reselect selected).dispatchesIn c = (e.dispatchesIn c).map (·.reselect selected) := by
  cases hfinished : e.finished with
  | true =>
    have hfinished' : (e.reselect selected).finished = true := hfinished
    rw [Execution.call, Execution.call, turn_of_finished c.dt hfinished, turn_of_finished c.dt hfinished',
      dispatchesIn_of_finished c hfinished, dispatchesIn_of_finished c hfinished']
    exact ⟨rfl, rfl⟩
  | false =>
    have hfinished' : (e.reselect selected).finished = false := hfinished
    have hwoken : (e.wake c.dt).program.usesSelected = false := by rwa [(sameRun_wake e c.dt).1.program]
    have hsteps := @Rooted.steps_reselect c.around c.actor _ selected (h.wake hfinished c.dt) hwoken
      (e.wake c.dt).maxSteps []
    rw [Execution.call, Execution.call, turn_eq_steps c.dt hfinished, turn_eq_steps c.dt hfinished', dispatchesIn,
      dispatchesIn, hfinished, hfinished', wake_reselect]
    exact hsteps

/-- **A row of calls** does the same whatever was selected. -/
theorem Resting.after_reselect (h : e.Resting) (hself : e.program.usesSelected = false) (calls : List Call) :
    (e.reselect selected).after calls = (e.after calls).reselect selected := by
  induction calls generalizing e with
  | nil => rfl
  | cons c calls ih =>
    have hself' : (e.call c).execution.program.usesSelected = false := by rwa [(h.sameRun_call c).program]
    show ((e.reselect selected).call c).execution.after calls = _
    rw [(h.call_reselect selected hself c).1]
    exact ih (h.call c).2 hself'

end

/-! ## Selections that were made -/

/-- An execution that was created for a cube takes no step that misses it. -/
theorem step_elsewhere (h : e.selected ≠ none) (frame : Frame) :
    EndsIn Fault.IsElsewhere (fun _ => True) (e.step around actor frame) := by
  have hscope : (e.scope around.toWorldView actor).selected ≠ none := h
  unfold step
  dsimp only
  -- the cases are in the order of the step: sequence, `if`, loop before and after its body, action before and after
  -- its request, assignment, print, `break`, and every other frame
  split
  · split <;> trivial
  · refine (Scope.holds_elsewhere hscope _).bind fun holds _ => ?_
    split <;> trivial
  · refine (Scope.holds_elsewhere hscope _).bind fun holds _ => ?_
    split <;> trivial
  · trivial
  · split
    · exact (Scope.request_elsewhere hscope _).bind fun _ _ => trivial
    · trivial
  · split <;> trivial
  · exact (Scope.evaluate_elsewhere hscope _).bind fun _ _ => trivial
  · exact (Scope.evaluate_elsewhere hscope _).bind fun _ _ => trivial
  · trivial
  · trivial

theorem Rooted.turns_elsewhere {n : Nat} {ds : List Dispatch} {e' : Execution} {r : Except Fault Outcome}
    (hturns : Turns around actor n e ds e' r) (h : e.Rooted) (hselected : e.selected ≠ none) :
    EndsIn Fault.IsElsewhere (fun _ => True) r := by
  induction hturns with
  | completed _ | exhausted _ | yielded _ _ _ => trivial
  | failed _ hstep => exact (step_elsewhere hselected _).of_error hstep
  | goesOn hstack hstep _ _ ih =>
    exact ih (h.step hstack hstep) (by rwa [(h.sameRun_step hstack hstep).selected])

/-- **A call of an execution that was created for a cube** does not fail for want of one. -/
theorem Resting.call_elsewhere (h : e.Resting) (hselected : e.selected ≠ none) (c : Call) :
    EndsIn Fault.IsElsewhere (fun _ => True) (e.call c).result := by
  cases hfinished : e.finished with
  | true =>
    rw [Execution.call, turn_of_finished c.dt hfinished]
    trivial
  | false =>
    refine (h.wake hfinished c.dt).turns_elsewhere (turns_call c hfinished) ?_
    rwa [(sameRun_wake e c.dt).1.selected]

end Execution

/-! ## Runs of jobs -/

/-- **A job as it is made**, by one of the three ways to make one. -/
inductive Job.Made (job : Job) : Prop
  | make : Job.make job.id job.name job.priority job.program = .ok job → Made job
  | makeAt (selected : Cube) :
      Job.makeAt job.id job.name job.priority job.program selected = .ok job → Made job
  | createJobs (f f' : Factory) (targets : List Cube) (jobs : List Job) :
      f.createJobs job.name job.priority job.program targets = .ok (f', jobs) → job ∈ jobs → Made job

namespace Job.Made

variable {job : Job}

theorem fresh (h : job.Made) (hsealed : job.program.Sealed) : job.Fresh := by
  cases h with
  | make hmake => exact ⟨hsealed, .inl hmake⟩
  | makeAt selected hmake => exact ⟨hsealed, .inr ⟨selected, hmake⟩⟩
  | createJobs f f' targets jobs hjobs hmem => exact Factory.fresh_of_createJobs hsealed hjobs job hmem

/-- **A job is made without a cube only if its program reads none.** -/
theorem selected_or (h : job.Made) : job.selected ≠ none ∨ job.program.usesSelected = false := by
  cases h with
  | make hmake =>
    obtain ⟨_, -, hmake⟩ := bind_eq_ok hmake
    cases hself : job.program.usesSelected with
    | true =>
      rw [hself] at hmake
      cases hmake
    | false => exact .inr rfl
  | makeAt selected hmake =>
    obtain ⟨_, -, hmake⟩ := bind_eq_ok hmake
    rw [← Except.ok.inj hmake]
    exact .inl nofun
  | createJobs f f' targets jobs hjobs hmem =>
    obtain ⟨-, id, ⟨c, -, hjob⟩ | ⟨hself, -⟩⟩ := Factory.of_mem_createJobs hjobs hmem
    · rw [hjob]
      exact .inl nofun
    · exact .inr hself

end Job.Made

namespace Execution

variable {job : Job}

/-- A program that reads no selected cube can be made a job for any cube, and for none. -/
theorem fresh_of_selected (hsealed : job.program.Sealed) (hcheck : job.program.check = .ok ())
    (hself : job.program.usesSelected = false) (selected : Option Cube) : Job.Fresh { job with selected } := by
  refine ⟨hsealed, ?_⟩
  cases selected with
  | none =>
    left
    rw [Job.make, hcheck, hself]
    rfl
  | some c =>
    right
    refine ⟨c, ?_⟩
    rw [Job.makeAt, hcheck]
    rfl

/-- The selection is handed on to the execution, and decides nothing else of it. -/
theorem start_reselect (job : Job) (limit : UInt32) (selected : Option Cube) :
    (start job limit).reselect selected = start { job with selected } limit :=
  rfl

/-- **The selected cube matters only to programs that read it.** Take a program that has passed the formation check.

If it does not read the selected cube, two executions of it that were created for different cubes, or for none, are the
same but for the cube after any calls; and so is what they do in every further call, step by step: the executions before
and after each step, its deed, the values printed, the requests, and the result.

And a job that was made by one of the three ways to make one never fails for want of a cube. -/
theorem selection_matters_only_if_read (hsealed : job.program.Sealed) (limit : UInt32) :
    (job.program.check = .ok () → job.program.usesSelected = false → ∀ selected selected' calls,
      let e := (start { job with selected } limit).after calls
      let e' := (start { job with selected := selected' } limit).after calls
      e' = e.reselect selected' ∧
        ∀ c, e'.call c = (e.call c).reselect selected' ∧
          e'.dispatchesIn c = (e.dispatchesIn c).map (·.reselect selected')) ∧
    (job.Made → ∀ calls c, (((start job limit).after calls).call c).result ≠ .error (.error .noSelection)) := by
  have hsame : job.program.check = .ok () → job.program.usesSelected = false → ∀ selected selected' calls,
      let e := (start { job with selected } limit).after calls
      let e' := (start { job with selected := selected' } limit).after calls
      e' = e.reselect selected' ∧
        ∀ c, e'.call c = (e.call c).reselect selected' ∧
          e'.dispatchesIn c = (e.dispatchesIn c).map (·.reselect selected') := by
    intro hcheck hself selected selected' calls
    have hresting := resting_start (fresh_of_selected hsealed hcheck hself selected) limit
    have hafter := hresting.after_reselect selected' hself calls
    rw [start_reselect] at hafter
    refine ⟨hafter, fun c => ?_⟩
    rw [hafter]
    refine (hresting.after calls).call_reselect selected' ?_ c
    rwa [(hresting.sameRun_after calls).program]
  refine ⟨hsame, fun hmade calls c hresult => ?_⟩
  have hfresh := hmade.fresh hsealed
  rcases hmade.selected_or with hselected | hself
  · have hresting := (resting_start hfresh limit).after calls
    have hkept : ((start job limit).after calls).selected ≠ none := by
      rwa [((resting_start hfresh limit).sameRun_after calls).selected]
    exact (hresting.call_elsewhere hkept c).of_error hresult rfl
  · -- whatever the job was created for, it fails as one does that was created for some cube
    let cube : Option Cube := some ⟨0, 0, 0⟩
    have hresting := resting_start (fresh_of_selected hsealed hfresh.check hself cube) limit
    have hkept : ((start { job with selected := cube } limit).after calls).selected ≠ none := by
      rw [(hresting.sameRun_after calls).selected]
      nofun
    have hcall := ((hsame hfresh.check hself job.selected cube calls).2 c).1
    have hfails : (((start { job with selected := cube } limit).after calls).call c).result =
        .error (.error .noSelection) := by
      rw [hcall]
      exact hresult
    exact ((hresting.after calls).call_elsewhere hkept c).of_error hfails rfl

/-- The theorem applies, for instance to work at a place that was noted before. -/
theorem selection_matters_only_if_read_at_home :
    let s : Script := .sequence [.leaf (.assign "home" (.position .here)), .leaf (.action (.work (.variable "home")))]
    let job : Job := ⟨⟨1⟩, "work", 0, ⟨(s.nodes none 0).toArray, s.rootAt 0⟩, none⟩
    let c : Call := ⟨(Grid.addActor ⟨1, 1, 1, ∅, ∅, ∅, ∅, #[]⟩ ⟨1⟩ ⟨1⟩ ⟨0, 0, 0⟩).surroundings, ⟨1⟩, 1.0⟩
    job.program.Sealed ∧ job.program.check = .ok () ∧ job.program.usesSelected = false ∧ job.Made ∧
      ((start job 9).call c).requests = [.work ⟨1⟩ ⟨0, 0, 0⟩] ∧
      (start { job with selected := some ⟨5, 5, 5⟩ } 9).call c = ((start job 9).call c).reselect (some ⟨5, 5, 5⟩) ∧
      ∀ calls c, (((start job 9).after calls).call c).result ≠ .error (.error .noSelection) := by
  intro s job c
  have hbuild : s.build = .ok job.program := Script.build_eq s
  have hsealed : job.program.Sealed := Script.sealed_of_build hbuild
  have hcheck : job.program.check = .ok () := by decide
  have hself : job.program.usesSelected = false := by decide
  have hmade : job.Made := .make (by decide)
  have hall := @selection_matters_only_if_read job hsealed 9
  exact ⟨hsealed, hcheck, hself, hmade, by decide, ((hall.1 hcheck hself none (some ⟨5, 5, 5⟩) []).2 c).1, hall.2 hmade⟩

/-- Of a program that reads the cube no job is made without one, and rightly so. -/
example :
    let program : Program := ⟨#[⟨none, .leaf (.action (.work .selected))⟩], 0⟩
    let job : Job := ⟨⟨1⟩, "work", 0, program, none⟩
    let c : Call := ⟨(Grid.addActor ⟨1, 1, 1, ∅, ∅, ∅, ∅, #[]⟩ ⟨1⟩ ⟨1⟩ ⟨0, 0, 0⟩).surroundings, ⟨1⟩, 1.0⟩
    Job.make ⟨1⟩ "work" 0 program = .error .missingSelection ∧
      ((start job 9).call c).result = .error (.error .noSelection) := by
  decide

end Execution

end TaskScript
