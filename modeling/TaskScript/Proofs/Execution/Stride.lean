import TaskScript.Proofs.Execution.Moves

/-!
# `Proofs.Execution.Stride`: what a step can do

A step looks at the frame on top of the stack and at its statement. Where the two fit (`Frame.Suits`), there are nine
things that it can do, and `Stride` lists them, each with the execution that it leads to. Invariants of executions are
proved over this list, without a look at the step itself.

A frame below the top is one from which the statement above it was entered (`Frame.Leads`), and a frame knows which
statements it may still enter (`Frame.ahead`).

## Contents
- `Frame.Suits`, `Frame.Leads`, `Frame.ahead`: **frames and their statements**.
- `Stride`, `stride`: **what a step can do**.
-/

namespace TaskScript

namespace Frame

/-- The frames in which a statement can be run. -/
inductive Suits : Statement → Frame → Prop
  | sequence {ids id next} : Suits (.sequence ids) (.sequence id next)
  | ifThen {condition thenId elseId id entered} : Suits (.ifThen condition thenId elseId) (.ifThen id entered)
  | whileDo {condition body id inBody} : Suits (.whileDo condition body) (.whileDo id inBody)
  | action {a id started} : Suits (.leaf (.action a)) (.action id started)
  | simple {l id} : (∀ a, l ≠ .action a) → Suits (.leaf l) (.simple id)

/-- A statement is entered with a frame that suits it, and no other frame is ever put on the stack for it. -/
theorem suits_enter (id : StatementId) (st : Statement) : Suits st (enter id (some st)) := by
  cases st with
  | sequence ids => exact .sequence
  | ifThen condition thenId elseId => exact .ifThen
  | whileDo condition body => exact .whileDo
  | leaf l => cases l <;> first | exact .action | exact .simple fun _ => Leaf.noConfusion

/-- An action that is entered was not requested yet. -/
theorem enter_ne_started (child : StatementId) (st : Option Statement) (id : StatementId) :
    enter child st ≠ .action id true := by
  unfold enter
  split <;> nofun

/-- **The frame below a statement that is run**: of a sequence that has started it last, of an `if` that has chosen a
branch, or of a loop whose condition held. -/
inductive Leads (p : Program) : Frame → StatementId → Prop
  | sequence {id next ids child} :
      p.statement? id = some (.sequence ids) → ids[next]? = some child → Leads p (.sequence id (next + 1)) child
  | ifThen {id condition thenId elseId child} :
      p.statement? id = some (.ifThen condition thenId elseId) → child ∈ thenId :: elseId.toList →
      Leads p (.ifThen id true) child
  | whileDo {id condition body} : p.statement? id = some (.whileDo condition body) → Leads p (.whileDo id true) body

/-- The statements that a frame may enter without forgetting how far they had got, and an action that was not
requested yet. -/
def ahead (p : Program) : Frame → List StatementId
  | .sequence id next => (p.childrenOf id).drop next
  | .ifThen id false => p.childrenOf id
  | .action id false => [id]
  | _ => []

theorem Leads.isAction {p : Program} {frame : Frame} {child : StatementId} (h : Leads p frame child) :
    frame.isAction = false := by
  cases h <;> rfl

/-- The statement of a frame that leads to another has this other as a child. -/
theorem Leads.exists_statement {p : Program} {frame : Frame} {child : StatementId} (h : Leads p frame child) :
    ∃ st, p.statement? frame.id = some st ∧ Suits st frame ∧ child ∈ st.children := by
  cases h with
  | sequence hst hchild => exact ⟨_, hst, .sequence, List.mem_of_getElem? hchild⟩
  | ifThen hst hchild => exact ⟨_, hst, .ifThen, hchild⟩
  | whileDo hst => exact ⟨_, hst, .whileDo, List.mem_cons_self⟩

end Frame

namespace Execution

open TaskScript.Frame (Suits Leads)

variable {around : Surroundings} {actor : ActorId} {e : Execution} {top : Frame} {rest : List Frame} {s : Step}
  {id : StatementId}

/-- **What a step can do** with `top` on the stack of an execution and `rest` below it. -/
inductive Stride (around : Surroundings) (actor : ActorId) (e : Execution) : Frame → List Frame → Step → Prop
  /-- A sequence or an `if` enters a child that it has not entered before. -/
  | enters {top top' : Frame} {rest child deed} :
      top'.id = top.id → top.isAction = false → Leads e.program top' child → child ∈ top.ahead e.program →
      top'.ahead e.program ⊆ top.ahead e.program → deed.bind Deed.request? = none →
      Stride around actor e top rest ⟨Execution.enter { e with stack := top' :: rest } child, deed, true⟩
  /-- A loop whose condition holds forgets how far its body had got, and enters it. -/
  | loops {id : StatementId} {rest condition body} :
      e.program.statement? id = some (.whileDo condition body) →
      Stride around actor e (.whileDo id false) rest
        ⟨Execution.enter
          { e with
            stack := .whileDo id true :: rest
            progress := mark .notStarted (e.program.subtree body) e.progress } body,
          some (.decided id true), true⟩
  /-- A body is done, and its loop is not. -/
  | repeats {id : StatementId} {rest} :
      Stride around actor e (.whileDo id true) rest ⟨{ e with stack := .whileDo id false :: rest }, none, true⟩
  /-- A statement is done, and the one around it goes on. -/
  | leaves {top : Frame} {rest deed} (env : Environment) :
      top.isAction = false → e.program.statement? top.id ≠ some (.leaf .breakLoop) →
      deed.bind Deed.request? = none →
      Stride around actor e top rest
        ⟨{ e with env, stack := rest, progress := mark .completed [top.id] e.progress }, deed, true⟩
  /-- A `break` is done with the statements around it up to the innermost loop. -/
  | breaks {id : StatementId} {rest} :
      e.program.statement? id = some (.leaf .breakLoop) →
      Stride around actor e (.simple id) rest
        ⟨{ e with
            stack := Frame.leaveLoop rest
            progress := mark .completed (id :: (Frame.leftByBreak rest).map (·.id)) e.progress }, none, true⟩
  | requests {id : StatementId} {rest a r} :
      0.0 < e.allowance → e.program.statement? id = some (.leaf (.action a)) →
      (e.scope around.toWorldView actor).request a = .ok r →
      Stride around actor e (.action id false) rest
        ⟨{ e with
            stack := .action id true :: rest
            progress := e.progress.setIfInBounds id .active
            allowance := 0.0 }, some (.requested id r), false⟩
  /-- There is no time to request an action. -/
  | holds {id : StatementId} {rest} :
      ¬ 0.0 < e.allowance → Stride around actor e (.action id false) rest ⟨e, none, false⟩
  /-- An action goes on. -/
  | awaits {id : StatementId} {rest} :
      around.isFinished actor = false →
      Stride around actor e (.action id true) rest ⟨{ e with allowance := 0.0 }, none, false⟩
  /-- An action is found finished. -/
  | retires {id : StatementId} {rest} :
      around.isFinished actor = true →
      Stride around actor e (.action id true) rest
        ⟨{ e with stack := rest, progress := mark .completed [id] e.progress }, some (.retired id), true⟩

/-- A statement other than an action or a `break` is left in one way. -/
theorem stride_completeTop (hstack : e.stack = top :: rest) {deed : Option Deed} (htop : top.isAction = false)
    (hbreak : e.program.statement? top.id ≠ some (.leaf .breakLoop)) (hdeed : deed.bind Deed.request? = none) :
    Stride around actor e top rest ⟨e.completeTop, deed, true⟩ := by
  rw [completeTop_eq hstack]
  exact .leaves e.env htop hbreak hdeed

/-- The steps by statement. A sequence that has moved on has one statement less ahead of it, and never looks back.
-/
theorem stride_sequence {ids : List StatementId} {next : Nat}
    (hst : e.program.statement? id = some (.sequence ids)) (hstack : e.stack = .sequence id next :: rest)
    (hstep : e.step around actor (.sequence id next) = .ok s) :
    Stride around actor e (.sequence id next) rest s := by
  have hahead : ∀ n, (Frame.sequence id n).ahead e.program = ids.drop n := by
    intro n
    rw [Frame.ahead, Program.childrenOf, hst]
    rfl
  rw [step_sequence hst] at hstep
  split at hstep <;> cases hstep
  · rename_i child hchild
    rw [replaceTop_eq hstack]
    refine .enters rfl rfl (.sequence hst hchild) ?_ ?_ rfl
    · rw [hahead]
      exact List.mem_of_getElem? (i := 0) (List.getElem?_drop.trans hchild)
    · rw [hahead, hahead]
      exact List.drop_subset_drop_left ids (Nat.le_succ next)
  · exact stride_completeTop hstack rfl (by rw [Frame.id, hst]; nofun) rfl

/-- An `if` either enters the branch that it has decided on, or is done: with its branch, or for want of one. -/
theorem stride_ifThen {condition : Expr} {thenId : StatementId} {elseId : Option StatementId} {entered : Bool}
    (hst : e.program.statement? id = some (.ifThen condition thenId elseId))
    (hstack : e.stack = .ifThen id entered :: rest) (hstep : e.step around actor (.ifThen id entered) = .ok s) :
    Stride around actor e (.ifThen id entered) rest s := by
  have hbreak : e.program.statement? (Frame.ifThen id entered).id ≠ some (.leaf .breakLoop) := by
    rw [Frame.id, hst]
    nofun
  cases entered with
  | true =>
    rw [step_ifThen_entered] at hstep
    cases hstep
    exact stride_completeTop hstack rfl hbreak rfl
  | false =>
    rw [step_ifThen hst] at hstep
    split at hstep
    · cases hstep
    · rename_i holds _
      split at hstep <;> cases hstep
      · rename_i branch hbranch
        have hchild : branch ∈ thenId :: elseId.toList := by
          cases holds with
          | true =>
            cases hbranch
            exact List.mem_cons_self
          | false => exact List.mem_cons_of_mem _ (Option.mem_toList.mpr hbranch)
        rw [replaceTop_eq hstack]
        refine .enters rfl rfl (.ifThen hst hchild) ?_ (List.nil_subset _) rfl
        rw [Frame.ahead, Program.childrenOf, hst]
        exact hchild
      · exact stride_completeTop hstack rfl hbreak rfl

/-- A loop comes round in two steps, one from its body back to the condition and one from the condition into the
body. -/
theorem stride_whileDo {condition : Expr} {body : StatementId} {inBody : Bool}
    (hst : e.program.statement? id = some (.whileDo condition body)) (hstack : e.stack = .whileDo id inBody :: rest)
    (hstep : e.step around actor (.whileDo id inBody) = .ok s) :
    Stride around actor e (.whileDo id inBody) rest s := by
  cases inBody with
  | true =>
    rw [step_whileDo_inBody hst, replaceTop_eq hstack] at hstep
    cases hstep
    exact .repeats
  | false =>
    rw [step_whileDo hst] at hstep
    split at hstep <;> cases hstep
    · have hfresh : (e.reset (e.program.subtree body)).stack = .whileDo id false :: rest := by
        rw [reset_eq]
        exact hstack
      rw [replaceTop_eq hfresh, reset_eq]
      exact .loops hst
    · exact stride_completeTop hstack rfl (by rw [Frame.id, hst]; nofun) rfl

/-- An action is requested, held up, waited for or found finished; whether it was requested, its frame knows. -/
theorem stride_action {a : Action} {started : Bool} (hst : e.program.statement? id = some (.leaf (.action a)))
    (hstack : e.stack = .action id started :: rest) (hstep : e.step around actor (.action id started) = .ok s) :
    Stride around actor e (.action id started) rest s := by
  cases started with
  | true =>
    rw [step_action_started hst] at hstep
    split at hstep <;> cases hstep
    · rename_i hfinished
      rw [completeTop_eq hstack]
      exact .retires hfinished
    · rename_i hfinished
      exact .awaits (Bool.not_eq_true _ |>.mp hfinished)
  | false =>
    rw [step_action hst] at hstep
    split at hstep
    · rename_i htime
      split at hstep <;> cases hstep
      rename_i hrequest
      rw [replaceTop_eq (show (e.setProgress id .active).stack = _ from hstack)]
      exact .requests htime hst hrequest
    · rename_i htime
      cases hstep
      exact .holds htime

theorem stride_simple {l : Leaf} (hl : ∀ a, l ≠ .action a) (hst : e.program.statement? id = some (.leaf l))
    (hstack : e.stack = .simple id :: rest) (hstep : e.step around actor (.simple id) = .ok s) :
    Stride around actor e (.simple id) rest s := by
  cases l with
  | action a => exact absurd rfl (hl a)
  | assign name value =>
    rw [step_assign hst] at hstep
    split at hstep <;> cases hstep
    rename_i v _
    rw [completeTop_eq (show ({ e with env := e.env.insert name v } : Execution).stack = _ from hstack)]
    exact .leaves _ rfl (by rw [Frame.id, hst]; nofun) rfl
  | print value =>
    rw [step_print hst] at hstep
    split at hstep <;> cases hstep
    exact stride_completeTop hstack rfl (by rw [Frame.id, hst]; nofun) rfl
  | breakLoop =>
    rw [step_breakLoop hst] at hstep
    cases hstep
    rw [unwind_eq, hstack]
    exact .breaks hst
  | noOp =>
    rw [step_noOp hst] at hstep
    cases hstep
    exact stride_completeTop hstack rfl (by rw [Frame.id, hst]; nofun) rfl

/-- **A step does one of these things**, whatever the statement is. -/
theorem stride {st : Statement} (hst : e.program.statement? top.id = some st) (hsuits : Suits st top)
    (hstack : e.stack = top :: rest) (hstep : e.step around actor top = .ok s) : Stride around actor e top rest s := by
  cases hsuits with
  | sequence => exact stride_sequence hst hstack hstep
  | ifThen => exact stride_ifThen hst hstack hstep
  | whileDo => exact stride_whileDo hst hstack hstep
  | action => exact stride_action hst hstack hstep
  | simple hl => exact stride_simple hl hst hstack hstep

end Execution

end TaskScript
