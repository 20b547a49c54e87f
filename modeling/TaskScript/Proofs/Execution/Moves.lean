import TaskScript.Execution

/-!
# `Proofs.Execution.Moves`: what the moves of an execution change

The moves of the stack change the stack and the progress of statements, and nothing else: each lemma
`enter_eq`, `completeTop_eq`, `reset_eq`, `unwind_eq` writes a move as an update of these two fields. A step
puts the moves together, in one way for each frame that fits its statement. No later proof opens a move or
the match of a step.

## Contents
- `Execution.mark`: progress noted for several statements.
- `Frame.leaveLoop`, `Frame.leftByBreak`: the two parts of a stack at a `break`.
- `step_sequence`, `step_ifThen`, … : a step, by the frame on top.
-/

namespace TaskScript

namespace Frame

/-- The frames that are left after a `break`: those under the innermost loop. -/
def leaveLoop : List Frame → List Frame
  | [] => []
  | frame :: rest => if frame.isLoop then rest else leaveLoop rest

/-- The frames that a `break` is done with: those down to the innermost loop. -/
def leftByBreak : List Frame → List Frame
  | [] => []
  | frame :: rest => if frame.isLoop then [frame] else frame :: leftByBreak rest

end Frame

namespace Execution

variable {e : Execution}

/-! ## Moves of the stack -/

/-- Progress after the same is noted for several statements. -/
def mark (p : Progress) (ids : List StatementId) (progress : Array Progress) : Array Progress :=
  ids.foldl (fun progress id => progress.setIfInBounds id p) progress

/-- To enter a statement puts its frame on the stack and marks it active, unless it is an action: that becomes
active when it is requested. -/
theorem enter_eq (id : StatementId) :
    e.enter id =
      { e with
        stack := Frame.enter id (e.program.statement? id) :: e.stack
        progress :=
          if (Frame.enter id (e.program.statement? id)).isAction then e.progress
          else e.progress.setIfInBounds id .active } := by
  unfold enter
  dsimp only
  split <;> rfl

/-- What is on top is left and completed. An empty stack has no top, so the lemma asks for one. -/
theorem completeTop_eq {frame : Frame} {rest : List Frame} (h : e.stack = frame :: rest) :
    e.completeTop = { e with stack := rest, progress := e.progress.setIfInBounds frame.id .completed } := by
  unfold completeTop
  rw [h]
  rfl

theorem replaceTop_eq {frame top : Frame} {rest : List Frame} (h : e.stack = top :: rest) :
    e.replaceTop frame = { e with stack := frame :: rest } := by
  rw [replaceTop, h]
  rfl

/-- A loop forgets the progress of its body statement by statement; as one update, this is `mark`. -/
theorem reset_eq (ids : List StatementId) :
    e.reset ids = { e with progress := mark .notStarted ids e.progress } := by
  unfold reset mark
  induction ids generalizing e with
  | nil => rfl
  | cons id ids ih => rw [List.foldl_cons, ih, List.foldl_cons]; rfl

/-- **A `break` in one update.** The program takes the frames off one by one and completes each; here the stack is
what lies under the innermost loop, and all that was above, with the loop itself, is marked completed at once. -/
theorem unwind_eq (frames : List Frame) :
    unwind frames e =
      { e with
        stack := Frame.leaveLoop frames
        progress := mark .completed ((Frame.leftByBreak frames).map (·.id)) e.progress } := by
  induction frames generalizing e with
  | nil => rfl
  | cons frame rest ih =>
    unfold unwind
    by_cases h : frame.isLoop = true
    · simp [Frame.leaveLoop, Frame.leftByBreak, h, mark, setProgress]
    · simp [Frame.leaveLoop, Frame.leftByBreak, h, mark, setProgress, ih]

/-! ## Steps, by the frame on top

The statement is put into the match of the step by hand, because equations of so large a match take long
to make.
-/

variable {around : Surroundings} {actor : ActorId}

/-- A sequence enters its next statement and counts it, or is done if there is none. -/
theorem step_sequence {id : StatementId} {next : Nat} {ids : List StatementId}
    (h : e.program.statement? id = some (.sequence ids)) :
    e.step around actor (.sequence id next) =
      match ids[next]? with
      | some child => .ok { execution := (e.replaceTop (.sequence id (next + 1))).enter child }
      | none => .ok { execution := e.completeTop } := by
  unfold step
  rewrite [show e.program.statement? (Frame.sequence id next).id = _ from h]
  rfl

/-- An `if` evaluates its condition once, before anything was entered from it. It enters the branch that is chosen,
and is done at once if that branch is missing. -/
theorem step_ifThen {id : StatementId} {condition : Expr} {thenId : StatementId}
    {elseId : Option StatementId} (h : e.program.statement? id = some (.ifThen condition thenId elseId)) :
    e.step around actor (.ifThen id false) =
      match (e.scope around.toWorldView actor).holds condition with
      | .error cause => .error cause
      | .ok holds =>
        match if holds then some thenId else elseId with
        | some branch =>
          .ok { execution := (e.replaceTop (.ifThen id true)).enter branch, deed := some (.decided id holds) }
        | none => .ok { execution := e.completeTop, deed := some (.decided id holds) } := by
  unfold step
  rewrite [show e.program.statement? (Frame.ifThen id false).id = _ from h]
  dsimp only
  cases (e.scope around.toWorldView actor).holds condition <;> rfl

/-- An `if` that is on top again has run its branch, so its condition is not looked at. -/
theorem step_ifThen_entered (id : StatementId) :
    e.step around actor (.ifThen id true) = .ok { execution := e.completeTop } := rfl

/-- A loop evaluates its condition before an iteration. Only an iteration that begins forgets the last one. -/
theorem step_whileDo {id : StatementId} {condition : Expr} {body : StatementId}
    (h : e.program.statement? id = some (.whileDo condition body)) :
    e.step around actor (.whileDo id false) =
      match (e.scope around.toWorldView actor).holds condition with
      | .error cause => .error cause
      | .ok true =>
        .ok { execution := ((e.reset (e.program.subtree body)).replaceTop (.whileDo id true)).enter body
              deed := some (.decided id true) }
      | .ok false => .ok { execution := e.completeTop, deed := some (.decided id false) } := by
  unfold step
  rewrite [show e.program.statement? (Frame.whileDo id false).id = _ from h]
  dsimp only
  rcases (e.scope around.toWorldView actor).holds condition with cause | _ | _ <;> rfl

/-- A loop that is on top with its body run takes a step of its own to get back to its condition. -/
theorem step_whileDo_inBody {id : StatementId} {s : Statement} (h : e.program.statement? id = some s) :
    e.step around actor (.whileDo id true) = .ok { execution := e.replaceTop (.whileDo id false) } := by
  unfold step
  rewrite [show e.program.statement? (Frame.whileDo id true).id = _ from h]
  rfl

/-- An action is requested only if the call still has time, and its target is evaluated only then. The request
takes all of the time, and ends the turn. -/
theorem step_action {id : StatementId} {a : Action}
    (h : e.program.statement? id = some (.leaf (.action a))) :
    e.step around actor (.action id false) =
      if 0.0 < e.allowance then
        match (e.scope around.toWorldView actor).request a with
        | .error cause => .error cause
        | .ok request =>
          .ok { execution := { (e.setProgress id .active).replaceTop (.action id true) with allowance := 0.0 }
                deed := some (.requested id request)
                goesOn := false }
      else .ok { execution := e, goesOn := false } := by
  unfold step
  rewrite [show e.program.statement? (Frame.action id false).id = _ from h]
  dsimp only
  cases (e.scope around.toWorldView actor).request a <;> rfl

/-- An action that was requested is over when the surroundings say that its actor has finished. Until then it takes
all of the time, and nothing is requested again. -/
theorem step_action_started {id : StatementId} {s : Statement} (h : e.program.statement? id = some s) :
    e.step around actor (.action id true) =
      if around.isFinished actor then .ok { execution := e.completeTop, deed := some (.retired id) }
      else .ok { execution := { e with allowance := 0.0 }, goesOn := false } := by
  unfold step
  rewrite [show e.program.statement? (Frame.action id true).id = _ from h]
  rfl

theorem step_assign {id : StatementId} {name : String} {value : Expr}
    (h : e.program.statement? id = some (.leaf (.assign name value))) :
    e.step around actor (.simple id) =
      match (e.scope around.toWorldView actor).evaluate value with
      | .error cause => .error cause
      | .ok v =>
        .ok { execution := ({ e with env := e.env.insert name v }).completeTop
              deed := some (.bound id name v) } := by
  unfold step
  rewrite [show e.program.statement? (Frame.simple id).id = _ from h]
  dsimp only
  cases (e.scope around.toWorldView actor).evaluate value <;> rfl

theorem step_print {id : StatementId} {value : Expr}
    (h : e.program.statement? id = some (.leaf (.print value))) :
    e.step around actor (.simple id) =
      match (e.scope around.toWorldView actor).evaluate value with
      | .error cause => .error cause
      | .ok v => .ok { execution := e.completeTop, deed := some (.printed id v) } := by
  unfold step
  rewrite [show e.program.statement? (Frame.simple id).id = _ from h]
  dsimp only
  cases (e.scope around.toWorldView actor).evaluate value <;> rfl

/-- A `break` unwinds the whole stack, its own frame included. -/
theorem step_breakLoop {id : StatementId} (h : e.program.statement? id = some (.leaf .breakLoop)) :
    e.step around actor (.simple id) = .ok { execution := unwind e.stack e } := by
  unfold step
  rewrite [show e.program.statement? (Frame.simple id).id = _ from h]
  rfl

theorem step_noOp {id : StatementId} (h : e.program.statement? id = some (.leaf .noOp)) :
    e.step around actor (.simple id) = .ok { execution := e.completeTop } := by
  unfold step
  rewrite [show e.program.statement? (Frame.simple id).id = _ from h]
  rfl

end Execution

end TaskScript
