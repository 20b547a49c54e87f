import TaskScript.Proofs.Execution.Effects
import TaskScript.Proofs.Execution.History

/-!
# `Proofs.Execution.Failure`: a failure stops a run where it is

An evaluation that fails ends the call that it is made in, and the next call takes the same statement up again. So nothing
may be left half done: what the call leaves behind is what its earlier statements have led to, and the one that failed
has neither moved anything nor done anything that can be told from outside.

That is trivial for steps, which lead to no execution if they fail. Therefore it is said of calls that are carried out
in place, too, where it hangs on the order of evaluations and moves (`run_dispatch`).

A step fails exactly if the evaluation fails with which its statement begins (`step_error_iff`), and that looks at nothing
but the view of the world, and at whether there is time for an action. So if the world answers the same and there is
time, the step fails in the same way again.

## Contents
- `Frame.evaluation`, `step_error_iff`, `step_again`: **what fails, and fails again**.
- `Turns.stops`: where a turn stops.
- `StopsAt`, `failure_is_exact`.
-/

namespace TaskScript

open TaskScript.Frame (Suits)

/-- **The evaluation with which a statement begins**, if it begins with any: that of a condition, of a value, or, if there
is time, of the target of an action. -/
def Frame.evaluation (scope : Scope) (allowance : Float) : Frame → Statement → Except Fault Unit
  | .ifThen _ false, .ifThen condition _ _ | .whileDo _ false, .whileDo condition _ =>
    (scope.holds condition).map fun _ => ()
  | .action _ false, .leaf (.action a) =>
    if 0.0 < allowance then (scope.request a).map fun _ => () else .ok ()
  | .simple _, .leaf (.assign _ value) | .simple _, .leaf (.print value) =>
    (scope.evaluate value).map fun _ => ()
  | _, _ => .ok ()

namespace Execution

variable {around around' : Surroundings} {actor : ActorId} {e e' : Execution} {top : Frame} {rest : List Frame}
  {fault : Fault}

/-! ## What fails -/

/-- A computation whose second part does not fail fails exactly if its first part does. -/
theorem bind_eq_error_iff {α β : Type} {x : Except Fault α} {next : α → Except Fault β} (hnext : ∀ a, ∃ b, next a = .ok b) :
    (x >>= next) = .error fault ↔ x.map (fun _ => ()) = .error fault := by
  cases x with
  | error cause => exact ⟨fun h => by cases h; rfl, fun h => by cases h; rfl⟩
  | ok a =>
    obtain ⟨b, hb⟩ := hnext a
    show next a = .error fault ↔ _
    rw [hb]
    exact ⟨nofun, nofun⟩

theorem step_error_ifThen {id thenId : StatementId} {condition : Expr} {elseId : Option StatementId} (entered : Bool)
    (hst : e.program.statement? id = some (.ifThen condition thenId elseId)) :
    e.step around actor (.ifThen id entered) = .error fault ↔
      (Frame.ifThen id entered).evaluation (e.scope around.toWorldView actor) e.allowance
        (.ifThen condition thenId elseId) = .error fault := by
  cases entered with
  | true => exact ⟨nofun, nofun⟩
  | false =>
    unfold step
    rewrite [show e.program.statement? (Frame.ifThen id false).id = _ from hst]
    refine bind_eq_error_iff fun holds => ?_
    dsimp only
    split <;> exact ⟨_, rfl⟩

theorem step_error_whileDo {id body : StatementId} {condition : Expr} (inBody : Bool)
    (hst : e.program.statement? id = some (.whileDo condition body)) :
    e.step around actor (.whileDo id inBody) = .error fault ↔
      (Frame.whileDo id inBody).evaluation (e.scope around.toWorldView actor) e.allowance
        (.whileDo condition body) = .error fault := by
  unfold step
  rewrite [show e.program.statement? (Frame.whileDo id inBody).id = _ from hst]
  cases inBody with
  | true => exact ⟨nofun, nofun⟩
  | false =>
    refine bind_eq_error_iff fun holds => ?_
    dsimp only
    split <;> exact ⟨_, rfl⟩

theorem step_error_action {id : StatementId} {a : Action} (started : Bool)
    (hst : e.program.statement? id = some (.leaf (.action a))) :
    e.step around actor (.action id started) = .error fault ↔
      (Frame.action id started).evaluation (e.scope around.toWorldView actor) e.allowance
        (.leaf (.action a)) = .error fault := by
  cases started with
  | true =>
    rw [step_action_started hst]
    split <;> exact ⟨nofun, nofun⟩
  | false =>
    unfold step Frame.evaluation
    rewrite [show e.program.statement? (Frame.action id false).id = _ from hst]
    dsimp only
    split
    · exact bind_eq_error_iff fun r => ⟨_, rfl⟩
    · exact ⟨nofun, nofun⟩

theorem step_error_simple {id : StatementId} {l : Leaf} (hl : ∀ a, l ≠ .action a)
    (hst : e.program.statement? id = some (.leaf l)) :
    e.step around actor (.simple id) = .error fault ↔
      (Frame.simple id).evaluation (e.scope around.toWorldView actor) e.allowance (.leaf l) = .error fault := by
  unfold step
  rewrite [show e.program.statement? (Frame.simple id).id = _ from hst]
  cases l with
  | action a => exact absurd rfl (hl a)
  | assign | print => exact bind_eq_error_iff fun v => ⟨_, rfl⟩
  | breakLoop | noOp => exact ⟨nofun, nofun⟩

/-- **A step fails exactly if the evaluation fails with which its statement begins.** -/
theorem step_error_iff {st : Statement} (hst : e.program.statement? top.id = some st) (hsuits : Suits st top) :
    e.step around actor top = .error fault ↔
      top.evaluation (e.scope around.toWorldView actor) e.allowance st = .error fault := by
  cases hsuits with
  | @sequence ids id next =>
    rw [step_sequence (show e.program.statement? id = some (.sequence ids) from hst)]
    split <;> exact ⟨nofun, nofun⟩
  | ifThen => exact step_error_ifThen _ hst
  | whileDo => exact step_error_whileDo _ hst
  | action => exact step_error_action _ hst
  | simple hl => exact step_error_simple hl hst

/-- **A step that has failed fails again** as long as the world gives the same answers and there is time. -/
theorem step_again {st : Statement} (hst : e.program.statement? top.id = some st) (hsuits : Suits st top)
    (hview : around'.toWorldView = around.toWorldView) {allowance : Float} (htime : 0.0 < allowance)
    (h : e.step around actor top = .error fault) :
    ({ e with allowance } : Execution).step around' actor top = .error fault := by
  rw [step_error_iff hst hsuits] at h
  rw [step_error_iff (e := { e with allowance }) hst hsuits, hview]
  show top.evaluation (e.scope around.toWorldView actor) allowance st = .error fault
  unfold Frame.evaluation at h ⊢
  split at h
  · exact h
  · exact h
  · split at h
    · rw [if_pos htime]
      exact h
    · cases h
  · exact h
  · exact h
  · cases h

/-! ## Where a turn stops -/

/-- **A turn that fails stops in front of the step that fails.** -/
theorem Turns.stops {n : Nat} {ds : List Dispatch} (hturns : Turns around actor n e ds e' (.error fault))
    (h : e.Rooted) : e'.Rooted ∧ ∃ top rest, e'.stack = top :: rest ∧ e'.step around actor top = .error fault := by
  generalize hresult : (.error fault : Except Fault Outcome) = r at hturns
  induction hturns with
  | completed _ | exhausted _ | yielded _ _ _ => cases hresult
  | @failed n e top rest fault hstack hstep =>
    cases hresult
    exact ⟨h, top, rest, hstack, hstep⟩
  | goesOn hstack hstep _ _ ih => exact ih (h.step hstack hstep) hresult

/-! ## Calls that fail -/

/-- **A call that fails stops at the statement that fails.** -/
structure StopsAt (e : Execution) (c : Call) (fault : Fault) : Prop where
  /-- It leaves behind what the last of its dispatches has led to, or, if there are none, the execution woken up. -/
  execution : (e.call c).execution = ((e.dispatchesIn c).getLast?.map (·.step.execution)).getD (e.wake c.dt)
  /-- What it has done was done in its dispatches. -/
  deeds : (e.call c).deeds = deedsOf (e.dispatchesIn c)
  /-- If it is carried out in place, it stops at the same point, with the same deeds done; and from just there the
  statement on top fails, and changes nothing: not the stack, nor the progress, nor the variables, nor what was done. -/
  inPlace : ∀ done, let stopped : Live := ⟨(e.call c).execution, (e.call c).deeds.reverse ++ done⟩
    (LiveM.execute c).run ⟨e, done⟩ = (.error fault, stopped) ∧
      ∃ top rest, stopped.execution.stack = top :: rest ∧
        (LiveM.dispatch c.around c.actor top).run stopped = (.error fault, stopped)
  /-- Another call that has time and finds the same answers fails in the same way, before it has done anything. -/
  again : ∀ c' : Call, c'.around.toWorldView = c.around.toWorldView → c'.actor = c.actor → 0.0 < c'.dt →
    (e.call c).execution.dispatchesIn c' = [] ∧
      (e.call c).execution.call c' = ⟨{ (e.call c).execution with allowance := c'.dt }, [], .error fault⟩ ∧
      ∀ done, (LiveM.execute c').run ⟨(e.call c).execution, done⟩ =
        (.error fault, ⟨{ (e.call c).execution with allowance := c'.dt }, done⟩)

/-- An execution whose next step fails does nothing in a call that has time and finds the same answers. -/
theorem Rooted.call_again (h : e.Rooted) (hstack : e.stack = top :: rest)
    (hfails : e.step around actor top = .error fault) {c : Call} (hview : c.around.toWorldView = around.toWorldView)
    (hactor : c.actor = actor) (htime : 0.0 < c.dt) :
    e.dispatchesIn c = [] ∧ e.call c = ⟨{ e with allowance := c.dt }, [], .error fault⟩ := by
  obtain ⟨st, hst, hsuits⟩ := h.standing.suits top (hstack ▸ List.mem_cons_self)
  have hagain := step_again hst hsuits hview htime hfails
  have hwake : e.wake c.dt = { e with allowance := c.dt } := by
    unfold Execution.wake
    dsimp only
    rw [if_pos htime, hstack]
    rfl
  have hwoken : (e.wake c.dt).stack = top :: rest := by
    rw [hwake]
    exact hstack
  obtain ⟨n, hn⟩ : ∃ n, (e.wake c.dt).maxSteps = n + 1 := by
    rw [hwake]
    exact Nat.exists_eq_add_of_le' h.standing.steps_pos
  rw [← hwake, ← hactor] at hagain
  have hunfinished := h.standing.unfinished
  rw [Execution.call, dispatchesIn, turn_eq_steps c.dt hunfinished, if_neg (by simp [hunfinished]), hn,
    steps_succ n [] hwoken, dispatches_succ n hwoken, hagain, hwake]
  exact ⟨rfl, rfl⟩

theorem Resting.stopsAt (h : e.Resting) {c : Call} (hfault : (e.call c).result = .error fault) : e.StopsAt c fault := by
  have hfinished : e.finished = false := by
    cases hcase : e.finished with
    | false => rfl
    | true =>
      rw [Execution.call, turn_of_finished c.dt hcase] at hfault
      cases hfault
  have hrooted := h.wake hfinished c.dt
  have hturns := turns_call c hfinished
  have hlinked := (hturns.linked hrooted).last
  rw [hfault] at hturns
  obtain ⟨hstopped, top, rest, hstack, hfails⟩ := hturns.stops hrooted
  have hresting := (h.call c).2
  refine ⟨?_, deeds_call e c, fun done => ⟨?_, top, rest, hstack, ?_⟩, fun c' hview hactor htime => ?_⟩
  · rcases hlinked with hdone | ⟨-, hlast⟩
    · rw [hstopped.standing.unfinished] at hdone
      cases hdone
    · exact hlast
  · rw [LiveM.run_execute h c done, hfault]
  · obtain ⟨st, hst, hsuits⟩ := hstopped.standing.suits top (hstack ▸ List.mem_cons_self)
    rw [LiveM.run_dispatch hst hsuits]
    dsimp only
    rw [hfails]
    rfl
  · obtain ⟨hnothing, hcall⟩ := hstopped.call_again hstack hfails hview hactor htime
    refine ⟨hnothing, hcall, fun done => ?_⟩
    rw [LiveM.run_execute hresting c' done, hcall]
    rfl

/-! ## Runs -/

variable {job : Job}

/-- **A failure stops a run exactly where it is.** Take any run of a job that was let pass. If a call fails, the execution
and the deeds that it leaves behind are those of its earlier dispatches, and the dispatch that failed has changed nothing,
also if the call is carried out in place. And as long as there is time and the world answers the same, every further
call fails at once, with the same fault, and changes nothing. -/
theorem failure_is_exact (hjob : job.Fresh) (limit : UInt32) (calls : List Call) (c : Call) (fault : Fault)
    (hfault : (((start job limit).after calls).call c).result = .error fault) :
    ((start job limit).after calls).StopsAt c fault :=
  ((resting_start hjob limit).after calls).stopsAt hfault

/-- The theorem applies, for instance to a print that fails after another one. -/
theorem failure_is_exact_of_print :
    let s : Script := .sequence [.leaf (.assign "a" (.bool (.literal true))), .leaf (.print (.bool (.variable "a"))),
      .leaf (.print (.bool (.variable "b")))]
    let job : Job := ⟨⟨1⟩, "work", 0, ⟨(s.nodes none 0).toArray, s.rootAt 0⟩, none⟩
    let c : Call := ⟨(Grid.addActor ⟨1, 1, 1, ∅, ∅, ∅, ∅, #[]⟩ ⟨1⟩ ⟨1⟩ ⟨0, 0, 0⟩).surroundings, ⟨1⟩, 1.0⟩
    job.Fresh ∧ ((start job 9).call c).result = .error (.error (.unboundVariable "b")) ∧
      ((start job 9).call c).output = [.boolean true] ∧ ((start job 9).call c).execution.callStack = [3, 2] ∧
      (start job 9).StopsAt c (.error (.unboundVariable "b")) := by
  intro s job c
  have hbuild : s.build = .ok job.program := Script.build_eq s
  have hfresh : job.Fresh := ⟨Script.sealed_of_build hbuild, .inl (by decide)⟩
  have hfault : ((start job 9).call c).result = .error (.error (.unboundVariable "b")) := by decide
  exact ⟨hfresh, hfault, by decide, by decide, failure_is_exact hfresh 9 [] c _ hfault⟩

end Execution

end TaskScript
