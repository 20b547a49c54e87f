import TaskScript.Proofs.Evaluation.Room
import TaskScript.Proofs.Execution.Dispatch

/-!
# `Proofs.Execution.Room`: executions that stay in range

An execution evaluates the expressions of its program, with variables that were bound by earlier evaluations. So if
every cube has room that the program names, the job was created for or a variable holds, no step overflows, and it
leaves such an execution behind (`HasRoom.step`); a turn does as its steps do (`HasRoom.turn`). Views may differ from
turn to turn, as long as they are of worlds whose cubes have room.

## Contents
- `Program.HasRoom`, `Job.HasRoom`, `Execution.HasRoom`.
- `HasRoom.step`: **a step**.
- `HasRoom.turns`, `HasRoom.turn`: **a turn**.
-/

namespace TaskScript

variable {size : Extent}

/-- Every cube that a statement of the program names has room. -/
def Program.HasRoom (size : Extent) (p : Program) : Prop :=
  ∀ (i : StatementId) (st : Statement), p.statement? i = some st → ∀ c ∈ st.literals, c.HasRoom size

/-- **A job whose cubes have room**: those that its program names, and the one that it was created for. -/
structure Job.HasRoom (size : Extent) (job : Job) : Prop where
  program : job.program.HasRoom size
  selected : ∀ c, job.selected = some c → c.HasRoom size

/-- **An execution whose cubes have room.** -/
structure Execution.HasRoom (size : Extent) (e : Execution) : Prop where
  program : e.program.HasRoom size
  selected : ∀ c, e.selected = some c → c.HasRoom size
  env : Environment.HasRoom size e.env

/-- A step that leads to an execution with room, and requests nothing without. -/
structure Step.HasRoom (size : Extent) (s : Step) : Prop where
  execution : s.execution.HasRoom size
  request : ∀ r, s.deed.bind Deed.request? = some r → r.HasRoom size

namespace Execution

variable {e : Execution} {around : Surroundings} {actor : ActorId}

/-- A step that requests nothing. -/
theorem HasRoom.quiet (h : e.HasRoom size) {deed : Option Deed} (hdeed : deed.bind Deed.request? = none)
    (goesOn : Bool) : Step.HasRoom size ⟨e, deed, goesOn⟩ := by
  refine ⟨h, fun r hr => ?_⟩
  rw [hdeed] at hr
  cases hr

theorem hasRoom_start {job : Job} (h : job.HasRoom size) (limit : UInt32) : (start job limit).HasRoom size :=
  ⟨h.program, h.selected, Environment.hasRoom_empty⟩

namespace HasRoom

/-! ## Steps -/

theorem scope (h : e.HasRoom size) (hview : around.toWorldView.HasRoom size) (actor : ActorId) :
    (e.scope around.toWorldView actor).HasRoom size :=
  ⟨hview, h.env, h.selected⟩

theorem enter (h : e.HasRoom size) (id : StatementId) : (e.enter id).HasRoom size := by
  rw [enter_eq]
  exact ⟨h.program, h.selected, h.env⟩

theorem completeTop (h : e.HasRoom size) : e.completeTop.HasRoom size := by
  unfold Execution.completeTop
  split
  · exact h
  · exact ⟨h.program, h.selected, h.env⟩

theorem replaceTop (h : e.HasRoom size) (frame : Frame) : (e.replaceTop frame).HasRoom size :=
  ⟨h.program, h.selected, h.env⟩

theorem reset (h : e.HasRoom size) (ids : List StatementId) : (e.reset ids).HasRoom size := by
  rw [reset_eq]
  exact ⟨h.program, h.selected, h.env⟩

theorem unwind (h : e.HasRoom size) (frames : List Frame) : (Execution.unwind frames e).HasRoom size := by
  rw [unwind_eq]
  exact ⟨h.program, h.selected, h.env⟩

/-- **A step does not overflow**, and what it leads to has room again. -/
theorem step (h : e.HasRoom size) (hview : around.toWorldView.HasRoom size) (actor : ActorId) (frame : Frame) :
    EndsIn Fault.InRange (Step.HasRoom size) (e.step around actor frame) := by
  have hscope := h.scope hview actor
  unfold Execution.step
  dsimp only
  -- the cases are in the order of the step: sequence, `if`, loop before and after its body, action before and after
  -- its request, assignment, print, `break`, and every other frame
  split
  · split
    · exact ((h.replaceTop _).enter _).quiet rfl true
    · exact h.completeTop.quiet rfl true
  · rename_i hst
    refine (hscope.holds (h.program _ _ hst)).bind fun holds _ => ?_
    split
    · exact ((h.replaceTop _).enter _).quiet rfl true
    · exact h.completeTop.quiet rfl true
  · rename_i hst
    refine (hscope.holds (h.program _ _ hst)).bind fun holds _ => ?_
    split
    · exact (((h.reset _).replaceTop _).enter _).quiet rfl true
    · exact h.completeTop.quiet rfl true
  · exact (h.replaceTop _).quiet rfl true
  · rename_i hst
    split
    · refine (hscope.request (h.program _ _ hst)).bind fun r hr => ?_
      refine ⟨⟨h.program, h.selected, h.env⟩, fun r' hr' => ?_⟩
      cases hr'
      exact hr
    · exact h.quiet rfl false
  · split
    · exact h.completeTop.quiet rfl true
    · have hspent : HasRoom size { e with allowance := 0.0 } := ⟨h.program, h.selected, h.env⟩
      exact hspent.quiet rfl false
  · rename_i name value hst
    refine (hscope.evaluate (h.program _ _ hst)).bind fun v hv => ?_
    have hbound : HasRoom size { e with env := e.env.insert name v } := ⟨h.program, h.selected, h.env.insert name hv⟩
    exact hbound.completeTop.quiet rfl true
  · rename_i hst
    refine (hscope.evaluate (h.program _ _ hst)).bind fun v _ => ?_
    exact h.completeTop.quiet rfl true
  · exact (h.unwind _).quiet rfl true
  · exact h.completeTop.quiet rfl true

/-! ## Turns -/

theorem wake (h : e.HasRoom size) (dt : Float) : (e.wake dt).HasRoom size := by
  have hgiven : HasRoom size { e with allowance := if 0.0 < dt then dt else 0.0 } :=
    ⟨h.program, h.selected, h.env⟩
  unfold Execution.wake
  dsimp only
  split
  · exact hgiven.enter _
  · exact hgiven

/-- The steps of a turn keep what each of them keeps. -/
theorem turns (hview : around.toWorldView.HasRoom size) {n : Nat} {ds : List Dispatch} {e' : Execution}
    {r : Except Fault Outcome} (hturns : Turns around actor n e ds e' r) (h : e.HasRoom size) :
    (∀ d ∈ ds, Step.HasRoom size d.step) ∧ e'.HasRoom size ∧ EndsIn Fault.InRange (fun _ => True) r := by
  induction hturns with
  | completed _ => exact ⟨List.forall_mem_nil _, ⟨h.program, h.selected, h.env⟩, trivial⟩
  | exhausted _ => exact ⟨List.forall_mem_nil _, h, trivial⟩
  | @failed n e frame rest fault _ hstep =>
    exact ⟨List.forall_mem_nil _, h, (h.step hview actor frame).of_error hstep⟩
  | @yielded n e frame rest s _ hstep _ =>
    have hs := (h.step hview actor frame).of_ok hstep
    exact ⟨List.forall_mem_singleton.mpr hs, hs.execution, trivial⟩
  | @goesOn n e frame rest s ds e' r _ hstep _ _ ih =>
    have hs := (h.step hview actor frame).of_ok hstep
    obtain ⟨hrest, hafter⟩ := ih hs.execution
    exact ⟨List.forall_mem_cons.mpr ⟨hs, hrest⟩, hafter⟩

/-- **A turn does not overflow**: it leaves an execution with room behind, and its requests have room, too. -/
theorem turn (h : e.HasRoom size) (hview : around.toWorldView.HasRoom size) (actor : ActorId) (dt : Float) :
    (e.turn around actor dt).execution.HasRoom size ∧ (∀ r ∈ (e.turn around actor dt).requests, r.HasRoom size) ∧
      EndsIn Fault.InRange (fun _ => True) (e.turn around actor dt).result := by
  cases hfinished : e.finished with
  | true =>
    rw [turn_of_finished dt hfinished]
    exact ⟨h, List.forall_mem_nil _, trivial⟩
  | false =>
    let c : Call := ⟨around, actor, dt⟩
    obtain ⟨hsteps, hafter, hresult⟩ := (h.wake dt).turns hview (turns_call c hfinished)
    refine ⟨hafter, fun r hr => ?_, hresult⟩
    -- what was requested in the turn was requested in one of its steps
    obtain ⟨deed, hdeed, hr⟩ := List.mem_filterMap.mp hr
    rw [show (e.turn around actor dt).deeds = _ from deeds_call e c] at hdeed
    obtain ⟨d, hd, hdeed⟩ := List.mem_filterMap.mp hdeed
    exact (hsteps d hd).request r (hdeed ▸ hr)

end HasRoom

end Execution

end TaskScript
