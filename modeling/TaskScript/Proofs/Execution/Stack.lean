import TaskScript.Proofs.Execution.Continuation
import TaskScript.Proofs.Execution.Dispatch

/-!
# `Proofs.Execution.Stack`: what the frames of a stack stand for

A frame stands for what is left of its statement: `Frame.Fits` relates it to a pending script, and a stack to
a list of them, position by position. This is the simulation relation between executions and scripts.

A step of an execution is an `Advance` of the pending scripts, and the frames after it fit what is left
after it; and it fails only where the pending script on top does (`forward_step`).

## Contents
- `Script.At` by the form of the script.
- `Frame.Fits`, `Execution.Fits`.
- **One step**: `forward_sequence`, `forward_ifThen`, … , `forward_step`.
-/

namespace TaskScript

/-! ## Scripts found under a name, by their form -/

namespace Script.At

variable {p : Program} {id : StatementId}

/-- What a script of each form looks like under its name in a program: the statement names the scripts inside, and
they are found under these names. -/
theorem sequence {body : List Script} (h : (Script.sequence body).At p id) :
    ∃ ids, p.statement? id = some (.sequence ids) ∧ List.Forall₂ (Script.At p) body ids := by
  cases h with
  | intro hs hbody => exact ⟨_, hs, hbody⟩

theorem whileDo {condition : Expr} {body : Script} (h : (Script.whileDo condition body).At p id) :
    ∃ bodyId, p.statement? id = some (.whileDo condition bodyId) ∧ body.At p bodyId := by
  cases h with
  | intro hs hbody =>
    cases hbody with
    | cons hbody hnil =>
      cases hnil
      exact ⟨_, hs, hbody⟩

theorem leaf {l : Leaf} (h : (Script.leaf l).At p id) : p.statement? id = some (.leaf l) := by
  cases h with
  | intro hs _ => exact hs

/-- The branches of a condition are found where its statement says, whichever way it turns out. -/
theorem ifThen {condition : Expr} {thenBranch : Script} {otherwise : Option Script}
    (h : (Script.ifThen condition thenBranch otherwise).At p id) :
    ∃ thenId elseId, p.statement? id = some (.ifThen condition thenId elseId) ∧
      thenBranch.At p thenId ∧
      (otherwise = none ∧ elseId = none ∨
        ∃ s elseId', otherwise = some s ∧ elseId = some elseId' ∧ s.At p elseId') := by
  cases h with
  | intro hs hbranches =>
    cases hbranches with
    | cons hthen helse =>
      refine ⟨_, _, hs, hthen, ?_⟩
      cases otherwise with
      | none =>
        cases helse
        exact .inl ⟨rfl, rfl⟩
      | some s =>
        cases helse with
        | cons helse _ => exact .inr ⟨s, _, rfl, rfl, helse⟩

end Script.At

/-! ## The simulation relation -/

open Pending (Advance Fails)

/-- What a frame stands for. -/
inductive Frame.Fits (p : Program) : Frame → Pending → Prop
  | sequence {id next ids body} :
      p.statement? id = some (.sequence ids) → List.Forall₂ (Script.At p) body (ids.drop next) →
      Fits p (.sequence id next) (.run (.sequence body))
  | ifThen {id condition thenBranch otherwise} :
      (Script.ifThen condition thenBranch otherwise).At p id →
      Fits p (.ifThen id false) (.run (.ifThen condition thenBranch otherwise))
  /- Behind a branch there is nothing left to do. -/
  | entered {id} : Fits p (.ifThen id true) (.run (.leaf .noOp))
  | whileDo {id inBody condition body} :
      (Script.whileDo condition body).At p id → Fits p (.whileDo id inBody) (.run (.whileDo condition body))
  | action {id a} : (Script.leaf (.action a)).At p id → Fits p (.action id false) (.run (.leaf (.action a)))
  | started {id a} : (Script.leaf (.action a)).At p id → Fits p (.action id true) .await
  | simple {id l} :
      (Script.leaf l).At p id → (∀ a, l ≠ .action a) → Fits p (.simple id) (.run (.leaf l))

namespace Frame.Fits

variable {p : Program}

theorem isAction {frame : Frame} {x : Pending} (h : frame.Fits p x) : frame.isAction = x.isAction := by
  cases h with
  | @simple _ l _ hl =>
    cases l with
    | action a => exact absurd rfl (hl a)
    | _ => rfl
  | _ => rfl

/-- A frame is a loop exactly if what it stands for is, so a `break` stops at the same place on both sides. -/
theorem isLoop {frame : Frame} {x : Pending} (h : frame.Fits p x) : frame.isLoop = x.isLoop := by
  cases h <;> rfl

/-- A `break` leaves the same of a stack and of what the stack stands for. -/
theorem leaveLoop {frames : List Frame} {ps : List Pending} (h : List.Forall₂ (Frame.Fits p) frames ps) :
    List.Forall₂ (Frame.Fits p) (Frame.leaveLoop frames) (Pending.leaveLoop ps) := by
  induction h with
  | nil => exact .nil
  | cons hfit hrest ih =>
    rw [Frame.leaveLoop, Pending.leaveLoop, hfit.isLoop]
    split
    · exact hrest
    · exact ih

/-- The frame with which a script is entered stands for the whole of it. -/
theorem enter {s : Script} {id : StatementId} (h : s.At p id) :
    (Frame.enter id (p.statement? id)).Fits p (.run s) := by
  cases s with
  | sequence body =>
    obtain ⟨ids, hs, hbody⟩ := h.sequence
    rw [hs]
    exact .sequence hs hbody
  | ifThen condition thenBranch otherwise =>
    obtain ⟨thenId, elseId, hs, -⟩ := h.ifThen
    rw [hs]
    exact .ifThen h
  | whileDo condition body =>
    obtain ⟨bodyId, hs, -⟩ := h.whileDo
    rw [hs]
    exact .whileDo h
  | leaf l =>
    rw [h.leaf]
    cases l with
    | action a => exact .action h
    | _ => exact .simple h (fun a => Leaf.noConfusion)

end Frame.Fits

/-- The frames of an execution stand for `ps`. -/
def Execution.Fits (e : Execution) (ps : List Pending) : Prop :=
  List.Forall₂ (Frame.Fits e.program) e.stack ps

/-- What an execution keeps all along. -/
structure Execution.SameRun (e e' : Execution) : Prop where
  program : e'.program = e.program
  selected : e'.selected = e.selected
  maxSteps : e'.maxSteps = e.maxSteps

theorem Execution.SameRun.trans {e e' e'' : Execution} (h : e.SameRun e') (h' : e'.SameRun e'') :
    e.SameRun e'' :=
  ⟨h'.program.trans h.program, h'.selected.trans h.selected, h'.maxSteps.trans h.maxSteps⟩

/-- Whether an action is the innermost statement of an execution. -/
def Execution.atAction (e : Execution) : Bool :=
  e.stack.head?.any (·.isAction)

/-- **A step that is an advance** of what the frames stand for, from `ps` to `ps'`. -/
structure Dispatch.Simulates (around : Surroundings) (actor : ActorId) (d : Dispatch) (ps ps' : List Pending) :
    Prop where
  sameRun : d.before.SameRun d.step.execution
  finished : d.step.execution.finished = d.before.finished
  fits : d.step.execution.Fits ps'
  advance : Advance d.before.selected ps d.before.env (d.seen around actor).toList ps' d.step.execution.env
  /-- A turn ends early only with an action. -/
  atAction : d.step.goesOn = false → d.step.execution.atAction = true

namespace Execution

/-- What becomes of a step of an execution whose frames stand for `ps`. -/
inductive Forward (around : Surroundings) (actor : ActorId) (e : Execution) (ps : List Pending) :
    Except Fault Step → Prop
  | ok {s ps'} : Dispatch.Simulates around actor ⟨e, s⟩ ps ps' → Forward around actor e ps (.ok s)
  | error {cause x qs} :
      ps = x :: qs → Fails e.selected ⟨around, actor, e.env⟩ cause x →
      Forward around actor e ps (.error cause)

/-! ## One step -/

variable {around : Surroundings} {actor : ActorId} {e : Execution} {rest : List Frame} {qs : List Pending}
  {id : StatementId}

/-- The steps by the frame on top. A sequence moves on in its list of names and in its list of scripts at the same
time. -/
theorem forward_sequence {next : Nat} {ids : List StatementId} {body : List Script}
    (hstack : e.stack = .sequence id next :: rest) (hrest : List.Forall₂ (Frame.Fits e.program) rest qs)
    (hs : e.program.statement? id = some (.sequence ids))
    (hbody : List.Forall₂ (Script.At e.program) body (ids.drop next)) :
    e.Forward around actor (.run (.sequence body) :: qs) (e.step around actor (.sequence id next)) := by
  rw [step_sequence hs, ← List.head?_drop]
  cases body with
  | nil =>
    rw [List.forall₂_nil_left_iff.mp hbody, List.head?_nil, completeTop_eq hstack]
    exact .ok ⟨⟨rfl, rfl, rfl⟩, rfl, hrest, .sequenceDone, Bool.noConfusion⟩
  | cons c body =>
    obtain ⟨child, tail, hc, htail, hdrop⟩ := List.forall₂_cons_left_iff.mp hbody
    -- once the frame has moved on, the statements after the next one are what it has left
    have hnext : ids.drop (next + 1) = tail := by rw [← List.tail_drop, hdrop, List.tail_cons]
    have hstack' : List.Forall₂ (Frame.Fits e.program)
        (Frame.enter child (e.program.statement? child) :: .sequence id (next + 1) :: rest)
        (.run c :: .run (.sequence body) :: qs) :=
      .cons (.enter hc) (.cons (.sequence hs (hnext ▸ htail)) hrest)
    simp only [hdrop, List.head?_cons, replaceTop_eq hstack, enter_eq]
    exact .ok ⟨⟨rfl, rfl, rfl⟩, rfl, hstack', .sequenceNext, Bool.noConfusion⟩

/-- A condition is evaluated on both sides in the same scope, and both take the branch that it decides on. -/
theorem forward_ifThen {condition : Expr} {thenBranch : Script} {otherwise : Option Script}
    (hstack : e.stack = .ifThen id false :: rest) (hrest : List.Forall₂ (Frame.Fits e.program) rest qs)
    (hat : (Script.ifThen condition thenBranch otherwise).At e.program id) :
    e.Forward around actor (.run (.ifThen condition thenBranch otherwise) :: qs)
      (e.step around actor (.ifThen id false)) := by
  obtain ⟨thenId, elseId, hs, hthen, helse⟩ := hat.ifThen
  rw [step_ifThen hs]
  cases hc : (e.scope around.toWorldView actor).holds condition with
  | error cause => exact .error rfl (.ifThen hc)
  | ok holds =>
    -- the branch that the script takes is where the executor goes, or there is none on either side
    have hbranch : (∃ branch branchId, (if holds then some thenBranch else otherwise) = some branch ∧
        (if holds then some thenId else elseId) = some branchId ∧ branch.At e.program branchId) ∨
        holds = false ∧ otherwise = none ∧ elseId = none := by
      cases holds with
      | true => exact .inl ⟨thenBranch, thenId, rfl, rfl, hthen⟩
      | false =>
        rcases helse with ⟨ho, he⟩ | ⟨s, elseId', ho, he, hat⟩
        · exact .inr ⟨rfl, ho, he⟩
        · exact .inl ⟨s, elseId', ho, he, hat⟩
    rcases hbranch with ⟨branch, branchId, hb, hbId, hat⟩ | ⟨rfl, rfl, rfl⟩
    · have hstack' : List.Forall₂ (Frame.Fits e.program)
          (Frame.enter branchId (e.program.statement? branchId) :: .ifThen id true :: rest)
          (.run branch :: .run (.leaf .noOp) :: qs) := .cons (.enter hat) (.cons .entered hrest)
      simp only [hbId, replaceTop_eq hstack, enter_eq]
      exact .ok ⟨⟨rfl, rfl, rfl⟩, rfl, hstack', .ifChosen hc hb, Bool.noConfusion⟩
    · rw [completeTop_eq hstack]
      exact .ok ⟨⟨rfl, rfl, rfl⟩, rfl, hrest, .ifSkipped hc, Bool.noConfusion⟩

/-- The frame of an `if` whose branch is done stands for nothing, and is left without doing anything. -/
theorem forward_entered (hstack : e.stack = .ifThen id true :: rest)
    (hrest : List.Forall₂ (Frame.Fits e.program) rest qs) :
    e.Forward around actor (.run (.leaf .noOp) :: qs) (e.step around actor (.ifThen id true)) := by
  rw [step_ifThen_entered, completeTop_eq hstack]
  exact .ok ⟨⟨rfl, rfl, rfl⟩, rfl, hrest, .noOp, Bool.noConfusion⟩

/-- A loop stands for itself, whether its body is being run or not. To get back from the body is a step that does
nothing. -/
theorem forward_whileDo {inBody : Bool} {condition : Expr} {body : Script}
    (hstack : e.stack = .whileDo id inBody :: rest) (hrest : List.Forall₂ (Frame.Fits e.program) rest qs)
    (hat : (Script.whileDo condition body).At e.program id) :
    e.Forward around actor (.run (.whileDo condition body) :: qs)
      (e.step around actor (.whileDo id inBody)) := by
  obtain ⟨bodyId, hs, hbody⟩ := hat.whileDo
  cases inBody with
  | true =>
    rw [step_whileDo_inBody hs, replaceTop_eq hstack]
    exact .ok ⟨⟨rfl, rfl, rfl⟩, rfl, .cons (.whileDo hat) hrest, .again, Bool.noConfusion⟩
  | false =>
    rw [step_whileDo hs]
    cases hc : (e.scope around.toWorldView actor).holds condition with
    | error cause => exact .error rfl (.whileDo hc)
    | ok holds =>
      cases holds with
      | false =>
        rw [completeTop_eq hstack]
        exact .ok ⟨⟨rfl, rfl, rfl⟩, rfl, hrest, .whileEnded hc, Bool.noConfusion⟩
      | true =>
        have hstack' : List.Forall₂ (Frame.Fits e.program)
            (Frame.enter bodyId (e.program.statement? bodyId) :: .whileDo id true :: rest)
            (.run body :: .run (.whileDo condition body) :: qs) :=
          .cons (.enter hbody) (.cons (.whileDo hat) hrest)
        -- a reset changes progress alone, so the frame of the loop is still on top
        have hreset : (e.reset (e.program.subtree bodyId)).stack = .whileDo id false :: rest := by
          rw [reset_eq, hstack]
        dsimp only
        rw [replaceTop_eq hreset, reset_eq, enter_eq]
        exact .ok ⟨⟨rfl, rfl, rfl⟩, rfl, hstack', .whileAgain hc, Bool.noConfusion⟩

/-- An action is held up, requested, or fails for want of a target; in each case it is the action that is on top
afterwards. -/
theorem forward_action {a : Action} (hstack : e.stack = .action id false :: rest)
    (hrest : List.Forall₂ (Frame.Fits e.program) rest qs) (hat : (Script.leaf (.action a)).At e.program id) :
    e.Forward around actor (.run (.leaf (.action a)) :: qs) (e.step around actor (.action id false)) := by
  rw [step_action hat.leaf]
  split
  · cases hr : (e.scope around.toWorldView actor).request a with
    | error cause => exact .error rfl (.action hr)
    | ok request =>
      have hactive : (e.setProgress id .active).stack = .action id false :: rest := hstack
      rw [replaceTop_eq hactive]
      exact .ok ⟨⟨rfl, rfl, rfl⟩, rfl, .cons (.started hat) hrest, .requested hr, fun _ => rfl⟩
  · -- without time the action is held up, and everything stays as it is
    refine .ok ⟨⟨rfl, rfl, rfl⟩, rfl, ?_, .heldUp, fun _ => ?_⟩
    · rw [Fits, hstack]
      exact .cons (.action hat) hrest
    · rw [atAction, hstack]
      rfl

/-- Whether an actor has finished is asked of the surroundings on both sides. -/
theorem forward_started {a : Action} (hstack : e.stack = .action id true :: rest)
    (hrest : List.Forall₂ (Frame.Fits e.program) rest qs) (hat : (Script.leaf (.action a)).At e.program id) :
    e.Forward around actor (.await :: qs) (e.step around actor (.action id true)) := by
  rw [step_action_started hat.leaf]
  split
  · rw [completeTop_eq hstack]
    exact .ok ⟨⟨rfl, rfl, rfl⟩, rfl, hrest, .retired ‹_›, Bool.noConfusion⟩
  · refine .ok ⟨⟨rfl, rfl, rfl⟩, rfl, ?_, .waiting, fun _ => ?_⟩
    · rw [Fits, hstack]
      exact .cons (.started hat) hrest
    · rw [atAction, hstack]
      rfl

theorem forward_simple {l : Leaf} (hstack : e.stack = .simple id :: rest)
    (hrest : List.Forall₂ (Frame.Fits e.program) rest qs) (hat : (Script.leaf l).At e.program id)
    (hl : ∀ a, l ≠ .action a) :
    e.Forward around actor (.run (.leaf l) :: qs) (e.step around actor (.simple id)) := by
  cases l with
  | action a => exact absurd rfl (hl a)
  | noOp =>
    rw [step_noOp hat.leaf, completeTop_eq hstack]
    exact .ok ⟨⟨rfl, rfl, rfl⟩, rfl, hrest, .noOp, Bool.noConfusion⟩
  | breakLoop =>
    -- the frame of the `break` is no loop itself, so the loop to be left is further down on both sides
    have hleft := Frame.Fits.leaveLoop hrest
    rw [step_breakLoop hat.leaf, unwind_eq, hstack]
    exact .ok ⟨⟨rfl, rfl, rfl⟩, rfl, hleft, .broke, Bool.noConfusion⟩
  | assign name value =>
    rw [step_assign hat.leaf]
    cases hv : (e.scope around.toWorldView actor).evaluate value with
    | error cause => exact .error rfl (.assign hv)
    | ok v =>
      have hbound : { e with env := e.env.insert name v }.stack = .simple id :: rest := hstack
      simp only [completeTop_eq hbound]
      exact .ok ⟨⟨rfl, rfl, rfl⟩, rfl, hrest, .assigned hv, Bool.noConfusion⟩
  | print value =>
    rw [step_print hat.leaf]
    cases hv : (e.scope around.toWorldView actor).evaluate value with
    | error cause => exact .error rfl (.print hv)
    | ok v =>
      rw [completeTop_eq hstack]
      exact .ok ⟨⟨rfl, rfl, rfl⟩, rfl, hrest, .printed hv, Bool.noConfusion⟩

/-- **One step.** With frames that stand for `ps`, a step either is an advance of `ps`, or fails where the
innermost script of `ps` does. -/
theorem forward_step (around : Surroundings) (actor : ActorId) {frame : Frame} {ps : List Pending}
    (hstack : e.stack = frame :: rest) (hfits : e.Fits ps) :
    e.Forward around actor ps (e.step around actor frame) := by
  rw [Fits, hstack] at hfits
  cases hfits with
  | cons hfit hrest =>
    cases hfit with
    | sequence hs hbody => exact forward_sequence hstack hrest hs hbody
    | ifThen hat => exact forward_ifThen hstack hrest hat
    | entered => exact forward_entered hstack hrest
    | whileDo hat => exact forward_whileDo hstack hrest hat
    | action hat => exact forward_action hstack hrest hat
    | started hat => exact forward_started hstack hrest hat
    | simple hat hl => exact forward_simple hstack hrest hat hl

end Execution

end TaskScript
