import TaskScript.Proofs.Execution.Requests

/-!
# `Proofs.Execution.Uninterrupted`: one run for all limits

A turn is cut off by requests and by the limit of steps, so under another limit the same job is cut off in other places.
But a step does not look at the limit, nor at how much time there is as long as there is some (`step_unlimited`). So in a
world that stays the same all these runs are pieces of one run without interruptions: taking a turn apart from what comes
after it takes the first steps off that run.

## Contents
- `Execution.unlimited`, `StepsUnlimited`, `step_unlimited`: **steps without limits**.
- `Uninterrupted`, `Uninterrupted.unique`: the run without interruptions.
- `Turns.uninterrupted`, `Resting.uninterrupted`: **turns and calls are pieces of it**.
-/

namespace TaskScript

/-- The execution with time to give, and without regard to limits. -/
def Execution.unlimited (e : Execution) : Execution :=
  { e with allowance := 1.0, maxSteps := 1, finished := false }

/-- The step as it is without regard to limits. -/
def Step.unlimited (s : Step) : Step :=
  { s with execution := s.execution.unlimited }

namespace Execution

open TaskScript.Frame (Suits)

variable {around : Surroundings} {actor : ActorId} {e e' : Execution} {top : Frame} {rest : List Frame} {s : Step}

/-! ## Steps without limits -/

theorem unlimited_scope (view : WorldView) (actor : ActorId) : e.unlimited.scope view actor = e.scope view actor :=
  rfl

theorem replaceTop_unlimited (frame : Frame) : e.unlimited.replaceTop frame = (e.replaceTop frame).unlimited :=
  rfl

theorem enter_unlimited (id : StatementId) : e.unlimited.enter id = (e.enter id).unlimited := by
  rw [enter_eq, enter_eq]
  rfl

theorem completeTop_unlimited : e.unlimited.completeTop = e.completeTop.unlimited := by
  cases hstack : e.stack with
  | nil =>
    unfold completeTop
    rw [hstack, show e.unlimited.stack = [] from hstack]
  | cons frame rest =>
    rw [completeTop_eq hstack, completeTop_eq (show e.unlimited.stack = frame :: rest from hstack)]
    rfl

theorem reset_unlimited (ids : List StatementId) : e.unlimited.reset ids = (e.reset ids).unlimited := by
  rw [reset_eq, reset_eq]
  rfl

theorem unwind_unlimited (frames : List Frame) : unwind frames e.unlimited = (unwind frames e).unlimited := by
  rw [unwind_eq, unwind_eq]
  rfl

/-- A step of a frame leads to the same with limits and without. -/
def StepsUnlimited (around : Surroundings) (actor : ActorId) (e : Execution) (top : Frame) : Prop :=
  (e.unlimited.step around actor top).map Step.unlimited = (e.step around actor top).map Step.unlimited

section

variable {id : StatementId}

theorem stepsUnlimited_sequence {ids : List StatementId} (hst : e.program.statement? id = some (.sequence ids))
    (next : Nat) : e.StepsUnlimited around actor (.sequence id next) := by
  have hst' : e.unlimited.program.statement? id = some (.sequence ids) := hst
  rw [StepsUnlimited, step_sequence hst, step_sequence hst', replaceTop_unlimited, completeTop_unlimited]
  cases ids[next]? with
  | none => rfl
  | some child =>
    dsimp only
    rw [enter_unlimited]
    rfl

theorem stepsUnlimited_ifThen {condition : Expr} {thenId : StatementId} {elseId : Option StatementId}
    (hst : e.program.statement? id = some (.ifThen condition thenId elseId)) (entered : Bool) :
    e.StepsUnlimited around actor (.ifThen id entered) := by
  have hst' : e.unlimited.program.statement? id = some (.ifThen condition thenId elseId) := hst
  rw [StepsUnlimited]
  cases entered with
  | true =>
    rw [step_ifThen_entered, step_ifThen_entered, completeTop_unlimited]
    rfl
  | false =>
    rw [step_ifThen hst, step_ifThen hst', replaceTop_unlimited, completeTop_unlimited, unlimited_scope]
    cases (e.scope around.toWorldView actor).holds condition with
    | error fault => rfl
    | ok holds =>
      dsimp only
      cases (if holds then some thenId else elseId) with
      | none => rfl
      | some branch =>
        dsimp only
        rw [enter_unlimited]
        rfl

theorem stepsUnlimited_whileDo {condition : Expr} {body : StatementId}
    (hst : e.program.statement? id = some (.whileDo condition body)) (inBody : Bool) :
    e.StepsUnlimited around actor (.whileDo id inBody) := by
  have hst' : e.unlimited.program.statement? id = some (.whileDo condition body) := hst
  rw [StepsUnlimited]
  cases inBody with
  | true =>
    rw [step_whileDo_inBody hst, step_whileDo_inBody hst', replaceTop_unlimited]
    rfl
  | false =>
    rw [step_whileDo hst, step_whileDo hst', completeTop_unlimited, reset_unlimited, replaceTop_unlimited,
      enter_unlimited, unlimited_scope]
    rcases (e.scope around.toWorldView actor).holds condition with fault | _ | _ <;> rfl

/-- An action is requested in either step, because there is time in both. -/
theorem stepsUnlimited_action {a : Action} (hst : e.program.statement? id = some (.leaf (.action a)))
    (htime : 0.0 < e.allowance) (started : Bool) : e.StepsUnlimited around actor (.action id started) := by
  have hst' : e.unlimited.program.statement? id = some (.leaf (.action a)) := hst
  rw [StepsUnlimited]
  cases started with
  | true =>
    rw [step_action_started hst, step_action_started hst', completeTop_unlimited]
    cases around.isFinished actor <;> rfl
  | false =>
    have htime' : 0.0 < e.unlimited.allowance := by
      show (0.0 : Float) < 1.0
      decide
    rw [step_action hst, step_action hst', if_pos htime, if_pos htime', unlimited_scope]
    cases (e.scope around.toWorldView actor).request a <;> rfl

theorem stepsUnlimited_simple {l : Leaf} (hst : e.program.statement? id = some (.leaf l))
    (hl : ∀ a, l ≠ .action a) : e.StepsUnlimited around actor (.simple id) := by
  have hst' : e.unlimited.program.statement? id = some (.leaf l) := hst
  rw [StepsUnlimited]
  cases l with
  | action a => exact absurd rfl (hl a)
  | assign name value =>
    rw [step_assign hst, step_assign hst', unlimited_scope]
    cases (e.scope around.toWorldView actor).evaluate value with
    | error fault => rfl
    | ok v =>
      dsimp only
      rw [show ({ e.unlimited with env := e.unlimited.env.insert name v } : Execution) =
        Execution.unlimited { e with env := e.env.insert name v } from rfl, completeTop_unlimited]
      rfl
  | print value =>
    rw [step_print hst, step_print hst', unlimited_scope, completeTop_unlimited]
    cases (e.scope around.toWorldView actor).evaluate value <;> rfl
  | breakLoop =>
    rw [step_breakLoop hst, step_breakLoop hst', unwind_unlimited]
    rfl
  | noOp =>
    rw [step_noOp hst, step_noOp hst', completeTop_unlimited]
    rfl

end

/-- **A step does not look at limits**, as long as there is time. -/
theorem step_unlimited {st : Statement} (hst : e.program.statement? top.id = some st) (hsuits : Suits st top)
    (htime : 0.0 < e.allowance) : e.StepsUnlimited around actor top := by
  cases hsuits with
  | @sequence ids id next => exact stepsUnlimited_sequence hst next
  | @ifThen condition thenId elseId id entered => exact stepsUnlimited_ifThen hst entered
  | @whileDo condition body id inBody => exact stepsUnlimited_whileDo hst inBody
  | @action a id started => exact stepsUnlimited_action hst htime started
  | @simple l id hl => exact stepsUnlimited_simple hst hl

/-! ## The run without interruptions -/

/-- **A run without interruptions** to its end, in a world that stays the same: how many steps it takes, what it does,
the variables that it leaves and how it ends. -/
inductive Uninterrupted (around : Surroundings) (actor : ActorId) :
    Nat → Execution → List Deed → Environment → Except Fault Outcome → Prop
  | completed {e : Execution} : e.stack = [] → Uninterrupted around actor 0 e [] e.env (.ok .completed)
  | failed {e : Execution} {top rest fault} :
      e.stack = top :: rest → e.step around actor top = .error fault →
      Uninterrupted around actor 0 e [] e.env (.error fault)
  | goesOn {n} {e : Execution} {top rest s done env r} :
      e.stack = top :: rest → e.step around actor top = .ok s →
      Uninterrupted around actor n s.execution.unlimited done env r →
      Uninterrupted around actor (n + 1) e (s.deed.toList ++ done) env r

variable {n : Nat} {done : List Deed} {env : Environment} {r r' : Except Fault Outcome} {ds : List Dispatch}

/-- How a run goes on is determined. -/
theorem Uninterrupted.unique {m : Nat} {done' : List Deed} {env' : Environment}
    (h : Uninterrupted around actor n e done env r) (h' : Uninterrupted around actor m e done' env' r') :
    done = done' ∧ env = env' ∧ r = r' := by
  -- the stack says which rule applies, and a step has one outcome
  induction h generalizing m done' with
  | completed hstack =>
    cases h' with
    | completed _ => exact ⟨rfl, rfl, rfl⟩
    | failed hstack' _ => cases hstack.symm.trans hstack'
    | goesOn hstack' _ _ => cases hstack.symm.trans hstack'
  | failed hstack hstep =>
    cases h' with
    | completed hstack' => cases hstack.symm.trans hstack'
    | failed hstack' hstep' =>
      cases hstack.symm.trans hstack'
      cases hstep.symm.trans hstep'
      exact ⟨rfl, rfl, rfl⟩
    | goesOn hstack' hstep' _ =>
      cases hstack.symm.trans hstack'
      cases hstep.symm.trans hstep'
  | goesOn hstack hstep _ ih =>
    cases h' with
    | completed hstack' => cases hstack.symm.trans hstack'
    | failed hstack' hstep' =>
      cases hstack.symm.trans hstack'
      cases hstep.symm.trans hstep'
    | goesOn hstack' hstep' hrest =>
      cases hstack.symm.trans hstack'
      cases hstep.symm.trans hstep'
      obtain ⟨rfl, hsame⟩ := ih hrest
      exact ⟨rfl, hsame⟩

/-- A step of an execution with time to give is the first step of the run without interruptions. -/
theorem Rooted.uninterrupted_iff (h : e.Rooted) (htime : 0.0 < e.allowance) (hstack : e.stack = top :: rest)
    (hstep : e.step around actor top = .ok s) :
    Uninterrupted around actor n e.unlimited done env r ↔
      ∃ n' done', n = n' + 1 ∧ done = s.deed.toList ++ done' ∧
        Uninterrupted around actor n' s.execution.unlimited done' env r := by
  obtain ⟨st, hst, hsuits⟩ := h.standing.suits top (hstack ▸ List.mem_cons_self)
  have hsame : (e.unlimited.step around actor top).map Step.unlimited = (e.step around actor top).map Step.unlimited :=
    step_unlimited hst hsuits htime
  rw [hstep] at hsame
  have hstack' : e.unlimited.stack = top :: rest := hstack
  cases hstep' : e.unlimited.step around actor top with
  | error fault =>
    rw [hstep'] at hsame
    cases hsame
  | ok s' =>
    rw [hstep'] at hsame
    -- the step without a limit is the same but for the time, which does not count here
    have hs : s'.unlimited = s.unlimited := Except.ok.inj hsame
    have hdeed : s'.deed = s.deed := by
      show s'.unlimited.deed = s.unlimited.deed
      rw [hs]
    have hexecution : s'.execution.unlimited = s.execution.unlimited := by
      show s'.unlimited.execution = s.unlimited.execution
      rw [hs]
    constructor
    · intro hrun
      cases hrun with
      | completed hnil => cases hstack'.symm.trans hnil
      | failed hstack'' hfails =>
        cases hstack'.symm.trans hstack''
        cases hstep'.symm.trans hfails
      | goesOn hstack'' hgoes hrest =>
        cases hstack'.symm.trans hstack''
        cases hstep'.symm.trans hgoes
        exact ⟨_, _, rfl, by rw [hdeed], hexecution ▸ hrest⟩
    · rintro ⟨n', done', rfl, rfl, hrest⟩
      rw [← hdeed]
      exact .goesOn hstack' hstep' (hexecution.symm ▸ hrest)

/-- A step after which the turn goes on takes no time. -/
theorem Stride.allowance_eq (h : Stride around actor e top rest s) (hgo : s.goesOn = true) :
    s.execution.allowance = e.allowance := by
  cases h with
  | enters => rw [enter_eq]
  | loops => rw [enter_eq]
  | requests => cases hgo
  | awaits => cases hgo
  | _ => rfl

/-- **A turn takes its steps off the run without interruptions**: all of them if it gets to the end, and otherwise the
first ones, so that what comes after the turn is the rest of the run. -/
theorem Turns.uninterrupted (hturns : Turns around actor n e ds e' r') (h : e.Rooted) (htime : 0.0 < e.allowance) :
    (r' ≠ .ok .suspended →
      Uninterrupted around actor ds.length e.unlimited (ds.filterMap (·.step.deed)) e'.env r') ∧
    (r' = .ok .suspended → ∀ n done env r,
      Uninterrupted around actor n e.unlimited done env r ↔
        ∃ n' done', n = n' + ds.length ∧ done = ds.filterMap (·.step.deed) ++ done' ∧
          Uninterrupted around actor n' e'.unlimited done' env r) := by
  induction hturns with
  | completed hstack => exact ⟨fun _ => .completed hstack, nofun⟩
  | exhausted hstack =>
    refine ⟨fun hr => absurd rfl hr, fun _ n done env r => ⟨fun hrun => ⟨n, done, rfl, rfl, hrun⟩, ?_⟩⟩
    rintro ⟨n', done', rfl, rfl, hrun⟩
    exact hrun
  | @failed n e top rest fault hstack hstep =>
    refine ⟨fun _ => ?_, nofun⟩
    obtain ⟨st, hst, hsuits⟩ := h.standing.suits top (hstack ▸ List.mem_cons_self)
    have hsame : (e.unlimited.step around actor top).map Step.unlimited = (e.step around actor top).map Step.unlimited :=
      step_unlimited hst hsuits htime
    rw [hstep] at hsame
    cases hstep' : e.unlimited.step around actor top with
    | ok s' =>
      rw [hstep'] at hsame
      cases hsame
    | error fault' =>
      rw [hstep'] at hsame
      cases hsame
      exact .failed (e := e.unlimited) hstack hstep'
  | @yielded n e top rest s hstack hstep hgo =>
    refine ⟨fun hr => absurd rfl hr, fun _ n done env r => (h.uninterrupted_iff htime hstack hstep).trans ?_⟩
    rw [List.filterMap_cons, List.filterMap_nil, List.length_singleton]
    cases s.deed <;> rfl
  | @goesOn n e top rest s ds e' r' hstack hstep hgo _ ih =>
    have hdispatched : Dispatched around actor ⟨e, s⟩ top rest := ⟨h, hstack, hstep⟩
    -- the step has given no time away, or the turn would not go on
    have htime' : 0.0 < s.execution.allowance := by
      rw [hdispatched.stride.allowance_eq hgo]
      exact htime
    obtain ⟨hends, hsuspends⟩ := ih hdispatched.after htime'
    have hdeeds : (⟨e, s⟩ :: ds : List Dispatch).filterMap (·.step.deed) =
        s.deed.toList ++ ds.filterMap (·.step.deed) := by
      rw [List.filterMap_cons]
      cases s.deed <;> rfl
    rw [hdeeds, List.length_cons]
    refine ⟨fun hr => (h.uninterrupted_iff htime hstack hstep).mpr ⟨_, _, rfl, rfl, hends hr⟩, fun hr n done env r => ?_⟩
    rw [h.uninterrupted_iff htime hstack hstep]
    constructor
    · rintro ⟨n₁, done₁, rfl, rfl, hrun⟩
      obtain ⟨n', done', rfl, rfl, hrest⟩ := (hsuspends hr _ _ _ _).mp hrun
      exact ⟨n', done', rfl, (List.append_assoc _ _ _).symm, hrest⟩
    · rintro ⟨n', done', rfl, rfl, hrest⟩
      exact ⟨n' + ds.length, ds.filterMap (·.step.deed) ++ done', rfl, List.append_assoc _ _ _,
        (hsuspends hr _ _ _ _).mpr ⟨n', done', rfl, rfl, hrest⟩⟩

/-! ## Calls -/

/-- A turn that is suspended leaves something being run, and has taken a step if it may take any. -/
theorem Turns.suspended (hturns : Turns around actor n e ds e' (.ok .suspended)) (h : e.Rooted) :
    e'.Rooted ∧ e'.stack ≠ [] ∧ (0 < n → 0 < ds.length) := by
  generalize hr : (Except.ok .suspended : Except Fault Outcome) = r at hturns
  induction hturns with
  | completed _ => cases hr
  | exhausted hstack => exact ⟨h, hstack ▸ List.cons_ne_nil _ _, fun hn => absurd hn (Nat.lt_irrefl 0)⟩
  | failed _ _ => cases hr
  | yielded hstack hstep hgo =>
    exact ⟨h.step hstack hstep, h.standing.ne_nil_of_yields hstack hstep hgo, fun _ => Nat.one_pos⟩
  | goesOn hstack hstep _ _ ih =>
    obtain ⟨hrooted, hne, -⟩ := ih (h.step hstack hstep) hr
    exact ⟨hrooted, hne, fun _ => Nat.succ_pos _⟩

/-- The execution at the beginning of a call, without limits. -/
def awake (e : Execution) : Execution :=
  (e.wake 1.0).unlimited

theorem unlimited_wake (e : Execution) (dt : Float) : (e.wake dt).unlimited = e.awake := by
  obtain ⟨t, halike⟩ := alike_wake e 1.0 dt
  rw [awake, halike]
  rfl

theorem awake_of_stack (h : e.stack ≠ []) : e.awake = e.unlimited := by
  obtain ⟨t, halike⟩ := alike_wake_self h 1.0
  rw [awake, halike]
  rfl

/-- **A call of an execution with time to give** does the run without interruptions, or some first steps of it. -/
theorem Resting.uninterrupted (h : e.Resting) (hunfinished : e.finished = false) (c : Call) (hdt : 0.0 < c.dt) :
    ((e.call c).result ≠ .ok .suspended →
      ∃ n, Uninterrupted c.around c.actor n e.awake (e.call c).deeds (e.call c).execution.env (e.call c).result) ∧
    ((e.call c).result = .ok .suspended →
      (e.call c).execution.Resting ∧ (e.call c).execution.finished = false ∧
        ∃ m, 0 < m ∧ ∀ n done env r,
          Uninterrupted c.around c.actor n e.awake done env r ↔
            ∃ n' done', n = n' + m ∧ done = (e.call c).deeds ++ done' ∧
              Uninterrupted c.around c.actor n' (e.call c).execution.awake done' env r) := by
  have hturns := turns_call c hunfinished
  have hrooted := h.wake hunfinished c.dt
  have htime : 0.0 < (e.wake c.dt).allowance := by rwa [allowance_wake, if_pos hdt]
  obtain ⟨hends, hsuspends⟩ := hturns.uninterrupted hrooted htime
  rw [unlimited_wake, ← deeds_call] at hends hsuspends
  refine ⟨fun hr => ⟨_, hends hr⟩, fun hr => ?_⟩
  rw [hr] at hturns
  obtain ⟨hafter, hne, hlength⟩ := hturns.suspended hrooted
  rw [awake_of_stack hne]
  exact ⟨(h.call c).2, hafter.standing.unfinished, _, hlength hrooted.standing.steps_pos, hsuspends hr⟩

end Execution

end TaskScript
