import TaskScript.Proofs.Execution.Path

/-!
# `Proofs.Execution.Effects`: executions that are changed in place

A step is a function from an execution to the next one, so that a step that fails has nothing to leave behind. Whoever keeps
one execution and changes it in place has to see to that: a move that was made before an evaluation fails stays made,
and so does whatever was printed or requested by then.

Here is the turn as it is then carried out. Moves, deeds and evaluations come one after the other, and an evaluation
that fails ends the turn wherever it stands (`LiveM`). It comes to the same as the turn made of steps
(`run_execute`): each statement evaluates what it has to before it changes anything (`run_dispatch`).

## Contents
- `Live`, `LiveM`, with `change`, `report`, `answer`: **effects**.
- `dispatch`, `run_dispatch`: one statement.
- `execute`, `run_execute`: **a whole turn**.
-/

namespace TaskScript

open TaskScript.Frame (Suits)

/-- An execution that is changed in place, and what was done in it so far, the latest first. -/
structure Live where
  execution : Execution
  done : List Deed := []

/-- Changes of a live execution that an evaluation may end. What was changed by then is not taken back. -/
abbrev LiveM := ExceptT Fault (StateM Live)

namespace LiveM

/-! ## Effects -/

/-- Makes a move. -/
def change (move : Execution → Execution) : LiveM Unit :=
  modify fun s => { s with execution := move s.execution }

/-- Does something that can be told from outside. -/
def report (deed : Deed) : LiveM Unit :=
  modify fun s => { s with done := deed :: s.done }

/-- Goes on with the result of an evaluation, or ends with its fault. -/
def answer {α : Type} (x : Except Fault α) : LiveM α :=
  ExceptT.mk (pure x)

/-! ## One statement -/

/-- What is done for the frame on top and its statement, one thing after the other. Tells whether the turn goes on. -/
def carryOut (around : Surroundings) (actor : ActorId) (e : Execution) (frame : Frame) (st : Option Statement) :
    LiveM Bool :=
  let scope := e.scope around.toWorldView actor
  match frame, st with
  | .sequence id next, some (.sequence children) =>
    match children[next]? with
    | some child => do
      change (·.replaceTop (.sequence id (next + 1)))
      change (·.enter child)
      return true
    | none => do
      change (·.completeTop)
      return true
  | .ifThen id false, some (.ifThen condition thenBranch elseBranch) => do
    let holds ← answer (scope.holds condition)
    report (.decided id holds)
    match if holds then some thenBranch else elseBranch with
    | some branch =>
      change (·.replaceTop (.ifThen id true))
      change (·.enter branch)
    | none => change (·.completeTop)
    return true
  | .whileDo id false, some (.whileDo condition body) => do
    let holds ← answer (scope.holds condition)
    report (.decided id holds)
    if holds then
      change (·.reset (e.program.subtree body))
      change (·.replaceTop (.whileDo id true))
      change (·.enter body)
    else change (·.completeTop)
    return true
  | .whileDo id true, some _ => do
    change (·.replaceTop (.whileDo id false))
    return true
  | .action id false, some (.leaf (.action a)) =>
    if 0.0 < e.allowance then do
      let request ← answer (scope.request a)
      report (.requested id request)
      change (·.setProgress id .active)
      change (·.replaceTop (.action id true))
      change ({ · with allowance := 0.0 })
      return false
    else return false
  | .action id true, some _ =>
    if around.isFinished actor then do
      report (.retired id)
      change (·.completeTop)
      return true
    else do
      change ({ · with allowance := 0.0 })
      return false
  | .simple id, some (.leaf (.assign name value)) => do
    let v ← answer (scope.evaluate value)
    report (.bound id name v)
    change fun e => { e with env := e.env.insert name v }
    change (·.completeTop)
    return true
  | .simple id, some (.leaf (.print value)) => do
    let v ← answer (scope.evaluate value)
    report (.printed id v)
    change (·.completeTop)
    return true
  | .simple _, some (.leaf .breakLoop) => do
    change fun e => Execution.unwind e.stack e
    return true
  | _, _ => do
    change (·.completeTop)
    return true

/-- Carries out the statement of the frame on top. -/
def dispatch (around : Surroundings) (actor : ActorId) (frame : Frame) : LiveM Bool := do
  let e := (← get).execution
  carryOut around actor e frame (e.program.statement? frame.id)

/-- How a live execution goes on after a step. -/
def afterStep (s : Live) : Except Fault Step → Except Fault Bool × Live
  | .error fault => (.error fault, s)
  | .ok step => (.ok step.goesOn, ⟨step.execution, step.deed.toList ++ s.done⟩)

variable {around : Surroundings} {actor : ActorId} {s : Live} {id : StatementId}

theorem run_sequence {ids : List StatementId} (next : Nat)
    (hst : s.execution.program.statement? id = some (.sequence ids)) :
    (carryOut around actor s.execution (.sequence id next) (some (.sequence ids))).run s =
      afterStep s (s.execution.step around actor (.sequence id next)) := by
  rw [Execution.step_sequence hst]
  unfold carryOut
  dsimp only
  cases ids[next]? <;> rfl

theorem run_ifThen {condition : Expr} {thenId : StatementId} {elseId : Option StatementId} (entered : Bool)
    (hst : s.execution.program.statement? id = some (.ifThen condition thenId elseId)) :
    (carryOut around actor s.execution (.ifThen id entered) (some (.ifThen condition thenId elseId))).run s =
      afterStep s (s.execution.step around actor (.ifThen id entered)) := by
  cases entered with
  | true => rfl
  | false =>
    rw [Execution.step_ifThen hst]
    unfold carryOut
    dsimp only
    cases (s.execution.scope around.toWorldView actor).holds condition with
    | error fault => rfl
    | ok holds => cases holds <;> cases elseId <;> rfl

theorem run_whileDo {condition : Expr} {body : StatementId} (inBody : Bool)
    (hst : s.execution.program.statement? id = some (.whileDo condition body)) :
    (carryOut around actor s.execution (.whileDo id inBody) (some (.whileDo condition body))).run s =
      afterStep s (s.execution.step around actor (.whileDo id inBody)) := by
  cases inBody with
  | true =>
    rw [Execution.step_whileDo_inBody hst]
    rfl
  | false =>
    rw [Execution.step_whileDo hst]
    unfold carryOut
    dsimp only
    rcases (s.execution.scope around.toWorldView actor).holds condition with fault | _ | _ <;> rfl

theorem run_action {a : Action} (started : Bool)
    (hst : s.execution.program.statement? id = some (.leaf (.action a))) :
    (carryOut around actor s.execution (.action id started) (some (.leaf (.action a)))).run s =
      afterStep s (s.execution.step around actor (.action id started)) := by
  cases started with
  | true =>
    rw [Execution.step_action_started hst]
    unfold carryOut
    dsimp only
    split <;> rfl
  | false =>
    rw [Execution.step_action hst]
    unfold carryOut
    dsimp only
    split
    · cases (s.execution.scope around.toWorldView actor).request a <;> rfl
    · rfl

theorem run_simple {l : Leaf} (hl : ∀ a, l ≠ .action a)
    (hst : s.execution.program.statement? id = some (.leaf l)) :
    (carryOut around actor s.execution (.simple id) (some (.leaf l))).run s =
      afterStep s (s.execution.step around actor (.simple id)) := by
  cases l with
  | action a => exact absurd rfl (hl a)
  | assign name value =>
    rw [Execution.step_assign hst]
    unfold carryOut
    dsimp only
    cases (s.execution.scope around.toWorldView actor).evaluate value <;> rfl
  | print value =>
    rw [Execution.step_print hst]
    unfold carryOut
    dsimp only
    cases (s.execution.scope around.toWorldView actor).evaluate value <;> rfl
  | breakLoop =>
    rw [Execution.step_breakLoop hst]
    rfl
  | noOp =>
    rw [Execution.step_noOp hst]
    rfl

/-- **One statement comes to the same as one step**: whatever fails, fails before anything is changed. -/
theorem run_dispatch {frame : Frame} {st : Statement} (hst : s.execution.program.statement? frame.id = some st)
    (hsuits : Suits st frame) :
    (dispatch around actor frame).run s = afterStep s (s.execution.step around actor frame) := by
  show (carryOut around actor s.execution frame (s.execution.program.statement? frame.id)).run s = _
  rw [hst]
  cases hsuits with
  | sequence => exact run_sequence _ hst
  | ifThen => exact run_ifThen _ hst
  | whileDo => exact run_whileDo _ hst
  | action => exact run_action _ hst
  | simple hl => exact run_simple hl hst

/-! ## A whole turn -/

/-- Carries out statements until the turn ends, `n` of them at most. -/
def carryOn (around : Surroundings) (actor : ActorId) : Nat → LiveM Outcome
  | 0 => do
    if (← get).execution.stack.isEmpty then
      change ({ · with finished := true })
      return .completed
    else return .suspended
  | n + 1 => do
    match (← get).execution.stack with
    | [] =>
      change ({ · with finished := true })
      return .completed
    | frame :: _ =>
      if ← dispatch around actor frame then carryOn around actor n else return .suspended

/-- A call, carried out in place. -/
def execute (c : Call) : LiveM Outcome := do
  if (← get).execution.finished then return .completed
  change ({ · with allowance := if 0.0 < c.dt then c.dt else 0.0 })
  if (← get).execution.stack.isEmpty then change fun e => e.enter e.program.root
  carryOn c.around c.actor (← get).execution.maxSteps

/-- What comes after something that fails is not done. -/
theorem run_bind {α β : Type} (x : LiveM α) (next : α → LiveM β) (s : Live) :
    (x >>= next).run s =
      match x.run s with
      | (.error fault, s') => (.error fault, s')
      | (.ok a, s') => (next a).run s' := by
  show (match x.run s with | (a, s') => ExceptT.bindCont next a s') = _
  rcases x.run s with ⟨_ | _, s'⟩ <;> rfl

/-- A turn that can go on carries out one statement after the other. -/
theorem run_carryOn_succ (n : Nat) {frame : Frame} {rest : List Frame} (hstack : s.execution.stack = frame :: rest) :
    (carryOn around actor (n + 1)).run s =
      match (dispatch around actor frame).run s with
      | (.error fault, s') => (.error fault, s')
      | (.ok goesOn, s') => if goesOn then (carryOn around actor n).run s' else (.ok .suspended, s') := by
  have hturn : (carryOn around actor (n + 1)).run s =
      (dispatch around actor frame >>= fun goesOn =>
        if goesOn then carryOn around actor n else return .suspended : LiveM Outcome).run s := by
    show (match s.execution.stack with | [] => _ | frame :: _ => _ : LiveM Outcome).run s = _
    rw [hstack]
  rw [hturn, run_bind]
  rcases (dispatch around actor frame).run s with ⟨_ | _ | _, s'⟩ <;> rfl

/-- **The statements of a turn come to the same as its steps.** -/
theorem run_carryOn {n : Nat} {e e' : Execution} {ds : List Dispatch} {r : Except Fault Outcome} (done : List Deed)
    (hturns : Execution.Turns around actor n e ds e' r) (h : e.Rooted) :
    (carryOn around actor n).run ⟨e, done⟩ = (r, ⟨e', (Execution.deedsOf ds).reverse ++ done⟩) := by
  have hdispatch : ∀ {e : Execution} {frame rest}, e.Rooted → e.stack = frame :: rest → ∀ done,
      (dispatch around actor frame).run ⟨e, done⟩ = afterStep ⟨e, done⟩ (e.step around actor frame) := by
    intro e frame rest h hstack done
    obtain ⟨st, hst, hsuits⟩ := h.standing.suits frame (hstack ▸ List.mem_cons_self)
    exact run_dispatch hst hsuits
  induction hturns generalizing done with
  | @completed n e hstack =>
    cases n with
    | zero =>
      show (if e.stack.isEmpty then _ else _ : LiveM Outcome).run ⟨e, done⟩ = _
      rw [if_pos (List.isEmpty_iff.mpr hstack)]
      rfl
    | succ n =>
      show (match e.stack with | [] => _ | frame :: _ => _ : LiveM Outcome).run ⟨e, done⟩ = _
      split
      · rfl
      · rename_i hcons
        rw [hstack] at hcons
        cases hcons
  | @exhausted e frame rest hstack =>
    show (if e.stack.isEmpty then _ else _ : LiveM Outcome).run ⟨e, done⟩ = _
    rw [if_neg (by rw [hstack]; nofun)]
    rfl
  | @failed n e frame rest fault hstack hstep =>
    rw [run_carryOn_succ n hstack, hdispatch h hstack, hstep]
    rfl
  | @yielded n e frame rest s hstack hstep hgo =>
    rw [run_carryOn_succ n hstack, hdispatch h hstack, hstep]
    dsimp only [afterStep]
    rw [hgo, Execution.deedsOf_cons]
    cases s.deed <;> rfl
  | @goesOn n e frame rest s ds e' r hstack hstep hgo _ ih =>
    rw [run_carryOn_succ n hstack, hdispatch h hstack, hstep]
    dsimp only [afterStep]
    rw [hgo, if_pos rfl, ih _ (h.step hstack hstep), Execution.deedsOf_cons, List.reverse_append, List.append_assoc]
    cases s.deed <;> rfl

/-- **A call that is carried out in place comes to the same as its turn.** -/
theorem run_execute {e : Execution} (h : e.Resting) (c : Call) (done : List Deed) :
    (execute c).run ⟨e, done⟩ = ((e.call c).result, ⟨(e.call c).execution, (e.call c).deeds.reverse ++ done⟩) := by
  cases hfinished : e.finished with
  | true =>
    rw [Execution.call, Execution.turn_of_finished c.dt hfinished]
    show (if e.finished then _ else _ : LiveM Outcome).run ⟨e, done⟩ = _
    rw [if_pos hfinished]
    rfl
  | false =>
    have hturn : (execute c).run ⟨e, done⟩ =
        (carryOn c.around c.actor (e.wake c.dt).maxSteps).run ⟨e.wake c.dt, done⟩ := by
      show (if e.finished then _ else _ : LiveM Outcome).run ⟨e, done⟩ = _
      rw [if_neg (by simp [hfinished])]
      show (if e.stack.isEmpty then _ else _ : LiveM Outcome).run ⟨_, done⟩ = _
      unfold Execution.wake
      dsimp only
      split
      · rfl
      · rfl
    rw [hturn, run_carryOn done (Execution.turns_call c hfinished) (h.wake hfinished c.dt), Execution.deeds_call]
    rfl

end LiveM

end TaskScript
