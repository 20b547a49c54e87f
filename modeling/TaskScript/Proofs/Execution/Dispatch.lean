import TaskScript.Proofs.Execution.Moves
import TaskScript.Proofs.Script.Semantics

/-!
# `Proofs.Execution.Dispatch`: the steps of a turn, and the turns of a run

A turn returns what was done in it, but not where it was done. This module keeps the successful steps of a
turn one by one, each with the execution it started from: `Execution.dispatches`. A turn is made of exactly
these (`turns_steps`), so what a step preserves, a turn does; and the deeds of a turn are those of its
dispatches (`deeds_steps`).

A run is a list of calls. Every call may find another world, another actor and another time to give.

## Contents
- `Dispatch`, `Execution.dispatches`, and `Turns`, the ways in which the steps of a turn can go.
- `Execution.wake`: what a turn does before its first step.
- `Call`, `Execution.after`, `Execution.trace`: runs, and the record of what was done in them.
-/

namespace TaskScript

/-- A step that did not fail: the execution it started from, and what it led to. -/
structure Dispatch where
  before : Execution
  step : Step

/-- What was done, apart from the statement that it was done for. -/
def Deed.act : Deed → Act
  | .decided _ holds => .decided holds
  | .bound _ name value => .bound name value
  | .printed _ value => .printed value
  | .requested _ request => .requested request
  | .retired _ => .retired

/-- What was done in a step, with the moment at which it was done. -/
def Dispatch.seen (around : Surroundings) (actor : ActorId) (d : Dispatch) : Option Observation :=
  d.step.deed.map fun deed => ⟨⟨around, actor, d.before.env⟩, deed.act⟩

namespace Execution

/-! ## Steps of a turn -/

/-- The successful steps of a turn that may take `n` of them, in order. -/
def dispatches (around : Surroundings) (actor : ActorId) : Nat → Execution → List Dispatch
  | 0, _ => []
  | n + 1, e =>
    match e.stack with
    | [] => []
    | frame :: _ =>
      match e.step around actor frame with
      | .error _ => []
      | .ok s => ⟨e, s⟩ :: if s.goesOn then dispatches around actor n s.execution else []

/-- **How the steps of a turn go**, at most `n` of them: the dispatches, the execution after them, and how
the turn ends. -/
inductive Turns (around : Surroundings) (actor : ActorId) :
    Nat → Execution → List Dispatch → Execution → Except Fault Outcome → Prop
  | completed {n e} : e.stack = [] → Turns around actor n e [] { e with finished := true } (.ok .completed)
  | exhausted {e frame rest} : e.stack = frame :: rest → Turns around actor 0 e [] e (.ok .suspended)
  | failed {n e frame rest fault} :
      e.stack = frame :: rest → e.step around actor frame = .error fault →
      Turns around actor (n + 1) e [] e (.error fault)
  | yielded {n e frame rest s} :
      e.stack = frame :: rest → e.step around actor frame = .ok s → s.goesOn = false →
      Turns around actor (n + 1) e [⟨e, s⟩] s.execution (.ok .suspended)
  | goesOn {n e frame rest s ds e' r} :
      e.stack = frame :: rest → e.step around actor frame = .ok s → s.goesOn = true →
      Turns around actor n s.execution ds e' r → Turns around actor (n + 1) e (⟨e, s⟩ :: ds) e' r

variable {around : Surroundings} {actor : ActorId}

theorem steps_nil (n : Nat) {e : Execution} (done : List Deed) (h : e.stack = []) :
    steps around actor n e done = ⟨{ e with finished := true }, done.reverse, .ok .completed⟩ := by
  rw [steps.eq_def]
  dsimp only
  split
  · rfl
  all_goals simp_all

theorem steps_zero {e : Execution} {frame : Frame} {rest : List Frame} (done : List Deed)
    (h : e.stack = frame :: rest) :
    steps around actor 0 e done = ⟨e, done.reverse, .ok .suspended⟩ := by
  rw [steps.eq_def]
  dsimp only
  split
  · simp_all
  · rfl
  · rename_i hn
    cases hn

theorem steps_succ (n : Nat) {e : Execution} {frame : Frame} {rest : List Frame} (done : List Deed)
    (h : e.stack = frame :: rest) :
    steps around actor (n + 1) e done =
      match e.step around actor frame with
      | .error fault => ⟨e, done.reverse, .error fault⟩
      | .ok s =>
        if s.goesOn then steps around actor n s.execution (s.deed.toList ++ done)
        else ⟨s.execution, (s.deed.toList ++ done).reverse, .ok .suspended⟩ := by
  rw [steps.eq_def]
  dsimp only
  -- only the last branch has both a frame and a step left
  split
  · simp_all
  · rename_i hn
    cases hn
  · rename_i frame' tail m hstack hn
    obtain rfl := Nat.succ.inj hn
    obtain ⟨rfl, -⟩ := List.cons.inj (h.symm.trans hstack)
    rfl

theorem dispatches_succ (n : Nat) {e : Execution} {frame : Frame} {rest : List Frame}
    (h : e.stack = frame :: rest) :
    e.dispatches around actor (n + 1) =
      match e.step around actor frame with
      | .error _ => []
      | .ok s => ⟨e, s⟩ :: if s.goesOn then s.execution.dispatches around actor n else [] := by
  rw [dispatches]
  split
  · simp_all
  · rename_i frame' tail hstack
    obtain ⟨rfl, -⟩ := List.cons.inj (h.symm.trans hstack)
    rfl

theorem dispatches_nil (n : Nat) {e : Execution} (h : e.stack = []) : e.dispatches around actor n = [] := by
  cases n with
  | zero => rfl
  | succ n => rw [dispatches, h]

/-- **The steps of a turn are its dispatches.** -/
theorem turns_steps (around : Surroundings) (actor : ActorId) (n : Nat) (e : Execution)
    (done : List Deed) :
    Turns around actor n e (e.dispatches around actor n) (steps around actor n e done).execution
      (steps around actor n e done).result := by
  induction n generalizing e done with
  | zero =>
    cases hstack : e.stack with
    | nil => rw [steps_nil 0 done hstack]; exact .completed hstack
    | cons frame rest => rw [steps_zero done hstack]; exact .exhausted hstack
  | succ n ih =>
    cases hstack : e.stack with
    | nil => rw [steps_nil _ done hstack, dispatches_nil _ hstack]; exact .completed hstack
    | cons frame rest =>
      rw [steps_succ n done hstack, dispatches_succ n hstack]
      cases hstep : e.step around actor frame with
      | error fault => exact .failed hstack hstep
      | ok s =>
        cases hgo : s.goesOn with
        | true => simpa [hgo] using .goesOn hstack hstep hgo (ih s.execution _)
        | false => simpa [hgo] using .yielded hstack hstep hgo

/-- The deeds of a turn are those of its dispatches, in order. -/
theorem deeds_steps (n : Nat) (e : Execution) (done : List Deed) :
    (steps around actor n e done).deeds =
      done.reverse ++ (e.dispatches around actor n).filterMap (·.step.deed) := by
  induction n generalizing e done with
  | zero =>
    cases hstack : e.stack with
    | nil => simp [steps_nil 0 done hstack, dispatches]
    | cons frame rest => simp [steps_zero done hstack, dispatches]
  | succ n ih =>
    cases hstack : e.stack with
    | nil => simp [steps_nil _ done hstack, dispatches_nil _ hstack]
    | cons frame rest =>
      rw [steps_succ n done hstack, dispatches_succ n hstack]
      cases hstep : e.step around actor frame with
      | error fault => simp
      | ok s => cases hgo : s.goesOn <;> cases hdeed : s.deed <;> simp [hgo, hdeed, ih]

/-- What the steps of a row did that can be told from outside. -/
def deedsOf (ds : List Dispatch) : List Deed :=
  ds.filterMap (·.step.deed)

theorem deedsOf_cons (d : Dispatch) (ds : List Dispatch) : deedsOf (d :: ds) = d.step.deed.toList ++ deedsOf ds := by
  cases hdeed : d.step.deed <;> simp [deedsOf, hdeed]

/-! ## Turns -/

/-- What a turn of `dt` seconds does before its first step: it takes up the time, and enters the program if
nothing of it is being run. -/
def wake (dt : Float) (e : Execution) : Execution :=
  let e := { e with allowance := if 0.0 < dt then dt else 0.0 }
  if e.stack.isEmpty then e.enter e.program.root else e

theorem allowance_wake (dt : Float) (e : Execution) : (e.wake dt).allowance = if 0.0 < dt then dt else 0.0 := by
  unfold wake
  dsimp only
  split
  · unfold enter
    dsimp only
    split <;> rfl
  · rfl

theorem turn_eq_steps {e : Execution} (dt : Float) (h : e.finished = false) :
    e.turn around actor dt = steps around actor (e.wake dt).maxSteps (e.wake dt) [] := by
  unfold turn
  rw [if_neg (by simp [h])]
  rfl

theorem turn_of_finished {e : Execution} (dt : Float) (h : e.finished = true) :
    e.turn around actor dt = ⟨e, [], .ok .completed⟩ := by
  unfold turn
  rw [if_pos h]

end Execution

/-! ## Runs -/

/-- A call of an execution: the world and the actor that it finds, and the time that it is given. -/
structure Call where
  around : Surroundings
  actor : ActorId
  dt : Float

namespace Execution

/-- The turn that a call gets. -/
def call (e : Execution) (c : Call) : Turn :=
  e.turn c.around c.actor c.dt

/-- The dispatches of a call. -/
def dispatchesIn (e : Execution) (c : Call) : List Dispatch :=
  if e.finished then [] else (e.wake c.dt).dispatches c.around c.actor (e.wake c.dt).maxSteps

theorem dispatchesIn_of_finished {e : Execution} (c : Call) (h : e.finished = true) : e.dispatchesIn c = [] := by
  rw [dispatchesIn, if_pos h]

/-- **The steps of a call are its dispatches**, unless the execution is finished. -/
theorem turns_call {e : Execution} (c : Call) (h : e.finished = false) :
    Turns c.around c.actor (e.wake c.dt).maxSteps (e.wake c.dt) (e.dispatchesIn c) (e.call c).execution
      (e.call c).result := by
  rw [call, turn_eq_steps c.dt h, dispatchesIn, if_neg (by simp [h])]
  exact turns_steps _ _ _ _ []

/-- What a call reports is what its dispatches did. -/
theorem deeds_call (e : Execution) (c : Call) : (e.call c).deeds = (e.dispatchesIn c).filterMap (·.step.deed) := by
  cases h : e.finished with
  | true =>
    rw [call, turn_of_finished c.dt h, dispatchesIn_of_finished c h]
    rfl
  | false =>
    rw [call, turn_eq_steps c.dt h, deeds_steps, dispatchesIn, if_neg (by simp [h])]
    rfl

/-- What is done in a call, each act with the moment at which it was done. -/
def observe (e : Execution) (c : Call) : List Observation :=
  (e.dispatchesIn c).filterMap (·.seen c.around c.actor)

/-- The execution after some calls. -/
def after (e : Execution) (calls : List Call) : Execution :=
  calls.foldl (fun e c => (e.call c).execution) e

/-- **The record of a run**: what is done in some calls, in order. -/
def trace : Execution → List Call → List Observation
  | _, [] => []
  | e, c :: calls => e.observe c ++ (e.call c).execution.trace calls

/-- What the turns of a run report. -/
def deeds : Execution → List Call → List Deed
  | _, [] => []
  | e, c :: calls => (e.call c).deeds ++ (e.call c).execution.deeds calls

theorem trace_append (e : Execution) (calls more : List Call) :
    e.trace (calls ++ more) = e.trace calls ++ (e.after calls).trace more := by
  induction calls generalizing e with
  | nil => rfl
  | cons c calls ih => rw [List.cons_append, trace, trace, ih, List.append_assoc]; rfl

theorem observe_of_finished {e : Execution} (c : Call) (h : e.finished = true) : e.observe c = [] := by
  rw [observe, dispatchesIn_of_finished c h]
  rfl

/-- Further calls of a finished execution change nothing and do nothing. -/
theorem run_of_finished {e : Execution} (calls : List Call) (h : e.finished = true) :
    e.after calls = e ∧ e.trace calls = [] := by
  induction calls with
  | nil => exact ⟨rfl, rfl⟩
  | cons c calls ih =>
    have hcall : (e.call c).execution = e := by rw [call, turn_of_finished c.dt h]
    refine ⟨?_, ?_⟩
    · rw [after, List.foldl_cons, hcall]
      exact ih.1
    · rw [trace, observe_of_finished c h, hcall, ih.2, List.append_nil]

/-- What a call does is what its turn reports. -/
theorem map_act_observe (e : Execution) (c : Call) :
    (e.observe c).map (·.act) = (e.call c).deeds.map (·.act) := by
  -- a dispatch is seen exactly if its step reports a deed
  rw [deeds_call, observe, List.map_filterMap, List.map_filterMap]
  congr 1
  funext d
  rw [Dispatch.seen, Option.map_map]
  rfl

/-- **The record of a run is what its turns report**, in the same order. -/
theorem map_act_trace (e : Execution) (calls : List Call) :
    (e.trace calls).map (·.act) = (e.deeds calls).map (·.act) := by
  induction calls generalizing e with
  | nil => rfl
  | cons c calls ih => rw [trace, deeds, List.map_append, List.map_append, map_act_observe, ih]

end Execution

end TaskScript
