import TaskScript.Proofs.Script.Semantics

/-!
# `Proofs.Execution.Continuation`: scripts that are being run

An execution that is under way has come some distance into the script. What it has left to do is a list of
pending scripts, the innermost first: the rest of a sequence, a loop that may go round again, an action that
has to be waited for. This module gives such lists a meaning in two ways and relates the two.

* `RunsAll` runs the pending scripts one after the other by the rules of `Script.Runs`; a `break` drops all
  of them down to the innermost loop.
* `Advance` takes a single step. It is the shape of the steps of an execution.

A step takes nothing away and adds nothing (`Advance.continues`): with the step in front, the executions of
what is left after it are executions of what was left before it, and there are no others that end.

## Contents
- `Pending`, `leaveLoop`, `RunsAll`.
- `Advance`, `Continues`, `Advance.continues`.
- `Fails`: why a step may not succeed.
- `weight`: with nothing left to do, the steps come to an end (`Advance.weight_lt`).
-/

namespace TaskScript

/-- What is left of a statement that is being run. -/
inductive Pending where
  | run (s : Script)
  /-- An action that was requested. -/
  | await

namespace Pending

/-- Whether a `break` inside stops here. -/
def isLoop : Pending → Bool
  | .run (.whileDo _ _) => true
  | _ => false

/-- Whether an action is what is left. -/
def isAction : Pending → Bool
  | .run (.leaf (.action _)) | .await => true
  | _ => false

/-- What is left after a `break`. -/
def leaveLoop : List Pending → List Pending
  | [] => []
  | x :: rest => if x.isLoop then rest else leaveLoop rest

/-- The rest of an execution of an action that was requested. -/
inductive Awaits : Environment → List Observation → Environment → Ending → Prop
  | cut {env} : Awaits env [] env .cut
  | retired {env around actor} :
      around.isFinished actor = true → Awaits env [⟨⟨around, actor, env⟩, .retired⟩] env .done

/-- The executions of what is left of a statement. -/
def Runs (selected : Option Cube) :
    Pending → Environment → List Observation → Environment → Ending → Prop
  | .run s => s.Runs selected
  | .await => Awaits

/-- **The executions of what is left**, the innermost first. -/
inductive RunsAll (selected : Option Cube) :
    List Pending → Environment → List Observation → Environment → Ending → Prop
  | nil {env} : RunsAll selected [] env [] env .done
  | next {x rest env t env₁ t' env' k} :
      Runs selected x env t env₁ .done → RunsAll selected rest env₁ t' env' k →
      RunsAll selected (x :: rest) env (t ++ t') env' k
  | leave {x rest env t env₁ t' env' k} :
      Runs selected x env t env₁ .broken → RunsAll selected (leaveLoop rest) env₁ t' env' k →
      RunsAll selected (x :: rest) env (t ++ t') env' k
  | stop {x rest env t env' k} :
      Runs selected x env t env' k → k ≠ .done → k ≠ .broken →
      RunsAll selected (x :: rest) env t env' k

variable {selected : Option Cube} {env env' : Environment} {t : List Observation} {k : Ending}

/-- Whatever is left, the record may stop here. -/
theorem runsAll_cut {ps : List Pending} (h : ps ≠ []) : RunsAll selected ps env [] env .cut := by
  cases ps with
  | nil => exact absurd rfl h
  | cons x rest =>
    refine .stop ?_ Ending.noConfusion Ending.noConfusion
    cases x with
    | run s => exact Script.Runs.cut
    | await => exact Awaits.cut

/-- A script that nothing is left after runs as it does by itself, a `break` apart. -/
theorem RunsAll.of_single {s : Script} (h : RunsAll selected [.run s] env t env' k) :
    s.Runs selected env t env' k ∨ s.Runs selected env t env' .broken := by
  cases h with
  | next hs hrest =>
    cases hrest
    rw [List.append_nil]
    exact .inl hs
  | leave hs hrest =>
    cases hrest
    rw [List.append_nil]
    exact .inr hs
  | stop hs _ _ => exact .inl hs

/-- The converse for an execution that ends: with nothing pending after it, the script is all that is left. -/
theorem RunsAll.single {s : Script} (h : s.Runs selected env t env' .done) :
    RunsAll selected [.run s] env t env' .done := by
  rw [← List.append_nil t]
  exact .next h .nil

/-! ## Single steps -/

/-- **A step of what is left**: from the pending scripts and the variables before it, by what is done in it,
to those after it. -/
inductive Advance (selected : Option Cube) :
    List Pending → Environment → List Observation → List Pending → Environment → Prop
  /- Nothing may happen at all before a condition is evaluated again, and as long as an action is held up. -/
  | again {condition body qs env} :
      Advance selected (.run (.whileDo condition body) :: qs) env [] (.run (.whileDo condition body) :: qs) env
  | heldUp {a qs env} :
      Advance selected (.run (.leaf (.action a)) :: qs) env [] (.run (.leaf (.action a)) :: qs) env
  | waiting {qs env} : Advance selected (.await :: qs) env [] (.await :: qs) env
  | sequenceNext {s rest qs env} :
      Advance selected (.run (.sequence (s :: rest)) :: qs) env [] (.run s :: .run (.sequence rest) :: qs) env
  | sequenceDone {qs env} : Advance selected (.run (.sequence []) :: qs) env [] qs env
  | noOp {qs env} : Advance selected (.run (.leaf .noOp) :: qs) env [] qs env
  | broke {qs env} : Advance selected (.run (.leaf .breakLoop) :: qs) env [] (leaveLoop qs) env
  | ifChosen {condition thenBranch otherwise branch qs env around actor holds} :
      (Moment.scope ⟨around, actor, env⟩ selected).holds condition = .ok holds →
      (if holds then some thenBranch else otherwise) = some branch →
      Advance selected (.run (.ifThen condition thenBranch otherwise) :: qs) env
        [⟨⟨around, actor, env⟩, .decided holds⟩] (.run branch :: .run (.leaf .noOp) :: qs) env
  | ifSkipped {condition thenBranch qs env around actor} :
      (Moment.scope ⟨around, actor, env⟩ selected).holds condition = .ok false →
      Advance selected (.run (.ifThen condition thenBranch none) :: qs) env
        [⟨⟨around, actor, env⟩, .decided false⟩] qs env
  | whileAgain {condition body qs env around actor} :
      (Moment.scope ⟨around, actor, env⟩ selected).holds condition = .ok true →
      Advance selected (.run (.whileDo condition body) :: qs) env
        [⟨⟨around, actor, env⟩, .decided true⟩] (.run body :: .run (.whileDo condition body) :: qs) env
  | whileEnded {condition body qs env around actor} :
      (Moment.scope ⟨around, actor, env⟩ selected).holds condition = .ok false →
      Advance selected (.run (.whileDo condition body) :: qs) env
        [⟨⟨around, actor, env⟩, .decided false⟩] qs env
  | assigned {name value qs env around actor v} :
      (Moment.scope ⟨around, actor, env⟩ selected).evaluate value = .ok v →
      Advance selected (.run (.leaf (.assign name value)) :: qs) env
        [⟨⟨around, actor, env⟩, .bound name v⟩] qs (env.insert name v)
  | printed {value qs env around actor v} :
      (Moment.scope ⟨around, actor, env⟩ selected).evaluate value = .ok v →
      Advance selected (.run (.leaf (.print value)) :: qs) env
        [⟨⟨around, actor, env⟩, .printed v⟩] qs env
  | requested {a qs env around actor request} :
      (Moment.scope ⟨around, actor, env⟩ selected).request a = .ok request →
      Advance selected (.run (.leaf (.action a)) :: qs) env
        [⟨⟨around, actor, env⟩, .requested request⟩] (.await :: qs) env
  | retired {qs env around actor} :
      around.isFinished actor = true →
      Advance selected (.await :: qs) env [⟨⟨around, actor, env⟩, .retired⟩] qs env

/-- **What is left, before and after `t`.** In front of any execution of what is left after `t` the record
`t` makes an execution of what was left before it; and an execution that ends and starts with `t` goes on as
one of what is left after it. -/
structure Continues (selected : Option Cube) (ps : List Pending) (env : Environment) (t : List Observation)
    (ps' : List Pending) (env' : Environment) : Prop where
  prepend : ∀ {u env'' k}, RunsAll selected ps' env' u env'' k → RunsAll selected ps env (t ++ u) env'' k
  goesOn : ∀ {u v env''}, RunsAll selected ps env v env'' .done → v = t ++ u →
    RunsAll selected ps' env' u env'' .done

/-- A step that does nothing and leaves all as it was: an action that is held up or waited for makes such steps. -/
theorem Continues.refl (ps : List Pending) (env : Environment) : Continues selected ps env [] ps env where
  prepend h := h
  goesOn h hv := by
    subst hv
    exact h

/-- Steps are put in a row. Their records are put in a row too, and both directions of the claim go through the
middle. -/
theorem Continues.trans {ps ps₁ ps₂ : List Pending} {env env₁ env₂ : Environment}
    {t t' : List Observation} (h : Continues selected ps env t ps₁ env₁)
    (h' : Continues selected ps₁ env₁ t' ps₂ env₂) : Continues selected ps env (t ++ t') ps₂ env₂ where
  prepend hrun := by
    rw [List.append_assoc]
    exact h.prepend (h'.prepend hrun)
  goesOn hrun hv := h'.goesOn (h.goesOn hrun (hv.trans (List.append_assoc ..))) rfl

/-! ## Steps take nothing away and add nothing -/

/-- Executions that end, by how their first pending script does. -/
theorem RunsAll.cons_done {x : Pending} {rest : List Pending}
    (h : RunsAll selected (x :: rest) env t env' .done) :
    ∃ u u' env₁, t = u ++ u' ∧
      (Runs selected x env u env₁ .done ∧ RunsAll selected rest env₁ u' env' .done ∨
        Runs selected x env u env₁ .broken ∧ RunsAll selected (leaveLoop rest) env₁ u' env' .done) := by
  cases h with
  | next hx hrest => exact ⟨_, _, _, rfl, .inl ⟨hx, hrest⟩⟩
  | leave hx hrest => exact ⟨_, _, _, rfl, .inr ⟨hx, hrest⟩⟩
  | stop _ hdone _ => exact absurd rfl hdone

/-- A pending script that is over after `t`: that much is an execution of it, and among those that end no
other starts with `t`. -/
structure IsOver (selected : Option Cube) (x : Pending) (env : Environment) (t : List Observation)
    (env' : Environment) : Prop where
  runs : Runs selected x env t env' .done
  only : ∀ {w w' u env₁}, Runs selected x env w env₁ .done → w ++ w' = t ++ u → w = t ∧ env₁ = env'
  unbroken : ∀ {w w' u env₁}, Runs selected x env w env₁ .broken → w ++ w' ≠ t ++ u

/-- **A script that is over is taken off the list.** That no other execution of it starts with the same record is
what lets an execution of the list be split at this point. -/
theorem IsOver.continues {x : Pending} {qs : List Pending} (h : IsOver selected x env t env') :
    Continues selected (x :: qs) env t qs env' where
  prepend hrest := .next h.runs hrest
  goesOn hrun hv := by
    obtain ⟨u, u', env₁, rfl, ⟨hx, hrest⟩ | ⟨hx, -⟩⟩ := hrun.cons_done
    · obtain ⟨rfl, rfl⟩ := h.only hx hv
      rw [List.append_cancel_left hv] at hrest
      exact hrest
    · exact absurd hv (h.unbroken hx)

theorem isOver_sequence : IsOver selected (.run (.sequence [])) env [] env where
  runs := Script.Runs.sequenceNil
  only h _ := by
    cases h
    exact ⟨rfl, rfl⟩
  unbroken h _ := by cases h

theorem isOver_noOp : IsOver selected (.run (.leaf .noOp)) env [] env where
  runs := Script.Runs.noOp
  only h _ := by
    cases h
    exact ⟨rfl, rfl⟩
  unbroken h _ := by cases h

variable {around : Surroundings} {actor : ActorId}

/-- A condition that does not hold is over with its evaluation if there is no other branch. An execution with a
branch would have recorded that the condition holds, or have had the missing branch to run. -/
theorem isOver_ifThen {condition : Expr} {thenBranch : Script}
    (hc : (Moment.scope ⟨around, actor, env⟩ selected).holds condition = .ok false) :
    IsOver selected (.run (.ifThen condition thenBranch none)) env
      [⟨⟨around, actor, env⟩, .decided false⟩] env where
  runs := Script.Runs.ifSkipped hc
  only h hw := by
    cases h with
    | ifSkipped _ =>
      obtain ⟨hhead, -⟩ := List.cons.inj hw
      exact ⟨by rw [hhead], rfl⟩
    | ifChosen _ hb _ =>
      -- only a condition that holds chooses a branch, and the record starts with one that does not
      cases (List.cons.inj hw).1
      cases hb
  unbroken h hw := by
    cases h with
    | ifChosen _ hb _ =>
      cases (List.cons.inj hw).1
      cases hb

/-- A loop whose condition does not hold is over. The record says how the evaluation came out, so it is no record
of another iteration. -/
theorem isOver_whileDo {condition : Expr} {body : Script}
    (hc : (Moment.scope ⟨around, actor, env⟩ selected).holds condition = .ok false) :
    IsOver selected (.run (.whileDo condition body)) env
      [⟨⟨around, actor, env⟩, .decided false⟩] env where
  runs := Script.Runs.whileEnded hc
  only h hw := by
    cases h with
    | whileEnded _ =>
      obtain ⟨hhead, -⟩ := List.cons.inj hw
      exact ⟨by rw [hhead], rfl⟩
    | whileAgain _ _ _ => cases (List.cons.inj hw).1
    | whileLeft _ _ => cases (List.cons.inj hw).1
    | whileStop _ _ hdone _ => exact absurd rfl hdone
  unbroken h hw := by
    cases h with
    | whileAgain _ _ _ => cases (List.cons.inj hw).1
    | whileStop _ _ _ hbroken => exact absurd rfl hbroken

/-- An assignment records the value, so its record says what the variables are afterwards. -/
theorem isOver_assign {name : String} {value : Expr} {v : Value}
    (hv : (Moment.scope ⟨around, actor, env⟩ selected).evaluate value = .ok v) :
    IsOver selected (.run (.leaf (.assign name value))) env
      [⟨⟨around, actor, env⟩, .bound name v⟩] (env.insert name v) where
  runs := Script.Runs.assigned hv
  only h hw := by
    cases h
    cases (List.cons.inj hw).1
    exact ⟨rfl, rfl⟩
  unbroken h _ := by cases h

theorem isOver_print {value : Expr} {v : Value}
    (hv : (Moment.scope ⟨around, actor, env⟩ selected).evaluate value = .ok v) :
    IsOver selected (.run (.leaf (.print value))) env [⟨⟨around, actor, env⟩, .printed v⟩] env where
  runs := Script.Runs.printed hv
  only h hw := by
    cases h
    obtain ⟨hhead, -⟩ := List.cons.inj hw
    exact ⟨by rw [hhead], rfl⟩
  unbroken h _ := by cases h

/-- An action that was requested is over when its actor is found finished; what was requested is no longer part of
it. -/
theorem isOver_await (hfinished : around.isFinished actor = true) :
    IsOver selected .await env [⟨⟨around, actor, env⟩, .retired⟩] env where
  runs := Awaits.retired hfinished
  only h hw := by
    cases h
    obtain ⟨hhead, -⟩ := List.cons.inj hw
    exact ⟨by rw [hhead], rfl⟩
  unbroken h _ := by cases h

/-! A script that is not over after a step has become two: its part that runs now, and what is to be run of
it afterwards. -/

variable {qs : List Pending}

/-- A sequence is its first script with the rest of the sequence pending behind it. Where the first script does not
end, or is left by a `break`, the rest is never reached. -/
theorem continues_sequence {s : Script} {rest : List Script} :
    Continues selected (.run (.sequence (s :: rest)) :: qs) env []
      (.run s :: .run (.sequence rest) :: qs) env where
  prepend h := by
    rw [List.nil_append]
    cases h with
    | next hs hrest =>
      -- the first script ran to its end, so the sequence ends as its rest does
      cases hrest with
      | next hrest hqs =>
        rw [← List.append_assoc]
        exact .next (Script.Runs.sequenceCons hs hrest) hqs
      | leave hrest hqs =>
        rw [← List.append_assoc]
        exact .leave (Script.Runs.sequenceCons hs hrest) hqs
      | stop hrest hdone hbroken => exact .stop (Script.Runs.sequenceCons hs hrest) hdone hbroken
    | leave hs hqs => exact .leave (Script.Runs.sequenceStop hs Ending.noConfusion) hqs
    | stop hs hdone hbroken => exact .stop (Script.Runs.sequenceStop hs hdone) hdone hbroken
  goesOn h hv := by
    rw [List.nil_append] at hv
    subst hv
    obtain ⟨u, u', env₁, rfl, ⟨hx, hrest⟩ | ⟨hx, hrest⟩⟩ := h.cons_done
    · cases hx with
      | sequenceCons hs hss =>
        rw [List.append_assoc]
        exact .next hs (.next hss hrest)
      | sequenceStop _ hdone => exact absurd rfl hdone
    · cases hx with
      | sequenceCons hs hss =>
        rw [List.append_assoc]
        exact .next hs (.leave hss hrest)
      | sequenceStop hs _ => exact .leave hs hrest

/-- A `break` records nothing. What is left after it is what lies behind the innermost loop. -/
theorem continues_breakLoop :
    Continues selected (.run (.leaf .breakLoop) :: qs) env [] (leaveLoop qs) env where
  prepend h := .leave Script.Runs.broke h
  goesOn h hv := by
    obtain ⟨u, u', env₁, rfl, ⟨hx, -⟩ | ⟨hx, hrest⟩⟩ := h.cons_done
    · cases hx
    · cases hx
      cases hv
      exact hrest

/-- A chosen branch is run with nothing to do after it: the frame of an `if` stays until the branch is done, and so
it is one more pending script. -/
theorem continues_ifThen {condition : Expr} {thenBranch branch : Script} {otherwise : Option Script}
    {holds : Bool} (hc : (Moment.scope ⟨around, actor, env⟩ selected).holds condition = .ok holds)
    (hb : (if holds then some thenBranch else otherwise) = some branch) :
    Continues selected (.run (.ifThen condition thenBranch otherwise) :: qs) env
      [⟨⟨around, actor, env⟩, .decided holds⟩] (.run branch :: .run (.leaf .noOp) :: qs) env where
  prepend h := by
    cases h with
    | next hs hrest =>
      cases hrest with
      | next hnoOp hqs =>
        cases hnoOp
        rw [← List.append_assoc]
        exact .next (Script.Runs.ifChosen hc hb hs) hqs
      | leave hnoOp _ => cases hnoOp
      | stop hnoOp hdone _ =>
        -- the branch is done, but the record stops before the statement is left
        cases hnoOp with
        | cut =>
          rw [List.append_nil]
          exact .stop (Script.Runs.ifChosen hc hb (.cutAtEnd hs)) Ending.noConfusion Ending.noConfusion
        | cutAtEnd hnoOp =>
          cases hnoOp
          rw [List.append_nil]
          exact .stop (Script.Runs.ifChosen hc hb (.cutAtEnd hs)) Ending.noConfusion Ending.noConfusion
        | noOp => exact absurd rfl hdone
    | leave hs hqs =>
      rw [← List.append_assoc]
      exact .leave (Script.Runs.ifChosen hc hb hs) hqs
    | stop hs hdone hbroken => exact .stop (Script.Runs.ifChosen hc hb hs) hdone hbroken
  goesOn h hv := by
    obtain ⟨u, u', env₁, rfl, ⟨hx, hrest⟩ | ⟨hx, hrest⟩⟩ := h.cons_done
    · cases hx with
      | ifChosen _ hb' hs =>
        -- the record tells what the condition was, so the branch is the same one
        cases hv
        obtain rfl := Option.some.inj (hb.symm.trans hb')
        exact .next hs (isOver_noOp.continues.prepend hrest)
      | ifSkipped _ =>
        cases hv
        cases hb
    · cases hx with
      | ifChosen _ hb' hs =>
        cases hv
        obtain rfl := Option.some.inj (hb.symm.trans hb')
        exact .leave hs hrest

/-- A loop whose condition holds is its body with the loop itself pending behind it. There a `break` of the body
finds it. -/
theorem continues_whileDo {condition : Expr} {body : Script}
    (hc : (Moment.scope ⟨around, actor, env⟩ selected).holds condition = .ok true) :
    Continues selected (.run (.whileDo condition body) :: qs) env
      [⟨⟨around, actor, env⟩, .decided true⟩] (.run body :: .run (.whileDo condition body) :: qs) env where
  prepend h := by
    cases h with
    | next hbody hrest =>
      cases hrest with
      | next hloop hqs =>
        rw [← List.append_assoc, ← List.append_assoc]
        exact .next (Script.Runs.whileAgain hc hbody hloop) hqs
      | leave hloop hqs =>
        rw [← List.append_assoc, ← List.append_assoc]
        exact .leave (Script.Runs.whileAgain hc hbody hloop) hqs
      | stop hloop hdone hbroken =>
        rw [List.singleton_append]
        exact .stop (Script.Runs.whileAgain hc hbody hloop) hdone hbroken
    | leave hbody hqs =>
      -- the `break` was for this loop, so the loop is done and no other one is left
      rw [← List.append_assoc]
      exact .next (Script.Runs.whileLeft hc hbody) hqs
    | stop hbody hdone hbroken => exact .stop (Script.Runs.whileStop hc hbody hdone hbroken) hdone hbroken
  goesOn h hv := by
    obtain ⟨u, u', env₁, rfl, ⟨hx, hrest⟩ | ⟨hx, hrest⟩⟩ := h.cons_done
    · cases hx with
      | whileEnded _ => cases hv
      | whileAgain _ hbody hloop =>
        rw [List.cons_append, List.singleton_append, List.append_assoc] at hv
        obtain ⟨-, rfl⟩ := List.cons.inj hv
        exact .next hbody (.next hloop hrest)
      | whileLeft _ hbody =>
        cases hv
        exact .leave hbody hrest
      | whileStop _ _ hdone _ => exact absurd rfl hdone
    · cases hx with
      | whileAgain _ hbody hloop =>
        rw [List.cons_append, List.singleton_append, List.append_assoc] at hv
        obtain ⟨-, rfl⟩ := List.cons.inj hv
        exact .next hbody (.leave hloop hrest)
      | whileStop _ _ _ hbroken => exact absurd rfl hbroken

/-- A request leaves the waiting behind, and neither can be taken for the other: one record starts with the
request, and the other does not have it. -/
theorem continues_action {a : Action} {request : Request}
    (hr : (Moment.scope ⟨around, actor, env⟩ selected).request a = .ok request) :
    Continues selected (.run (.leaf (.action a)) :: qs) env
      [⟨⟨around, actor, env⟩, .requested request⟩] (.await :: qs) env where
  prepend h := by
    cases h with
    | next hx hqs =>
      cases hx with
      | retired hfinished =>
        rw [← List.append_assoc]
        exact .next (Script.Runs.retired hr hfinished) hqs
    | leave hx _ => cases hx
    | stop hx hdone hbroken =>
      cases hx with
      | cut => exact .stop (Script.Runs.awaited hr) hdone hbroken
      | retired _ => exact absurd rfl hdone
  goesOn h hv := by
    obtain ⟨u, u', env₁, rfl, ⟨hx, hrest⟩ | ⟨hx, -⟩⟩ := h.cons_done
    · cases hx with
      | retired _ hfinished =>
        cases hv
        exact (isOver_await hfinished).continues.prepend hrest
    · cases hx

/-- **A step takes nothing away and adds nothing.** -/
theorem Advance.continues {ps ps' : List Pending} (h : Advance selected ps env t ps' env') :
    Continues selected ps env t ps' env' := by
  cases h with
  | again => exact .refl _ _
  | heldUp => exact .refl _ _
  | waiting => exact .refl _ _
  | sequenceNext => exact continues_sequence
  | sequenceDone => exact isOver_sequence.continues
  | noOp => exact isOver_noOp.continues
  | broke => exact continues_breakLoop
  | ifChosen hc hb => exact continues_ifThen hc hb
  | ifSkipped hc => exact (isOver_ifThen hc).continues
  | whileAgain hc => exact continues_whileDo hc
  | whileEnded hc => exact (isOver_whileDo hc).continues
  | assigned hv => exact (isOver_assign hv).continues
  | printed hv => exact (isOver_print hv).continues
  | requested hr => exact continues_action hr
  | retired hfinished => exact (isOver_await hfinished).continues

/-! ## Steps that fail -/

/-- A pending script that needs the value of an expression which has none at the moment. -/
inductive Fails (selected : Option Cube) (m : Moment) (cause : Fault) : Pending → Prop
  | ifThen {condition thenBranch otherwise} :
      (m.scope selected).holds condition = .error cause →
      Fails selected m cause (.run (.ifThen condition thenBranch otherwise))
  | whileDo {condition body} :
      (m.scope selected).holds condition = .error cause →
      Fails selected m cause (.run (.whileDo condition body))
  | assign {name value} :
      (m.scope selected).evaluate value = .error cause →
      Fails selected m cause (.run (.leaf (.assign name value)))
  | print {value} :
      (m.scope selected).evaluate value = .error cause → Fails selected m cause (.run (.leaf (.print value)))
  | action {a} :
      (m.scope selected).request a = .error cause → Fails selected m cause (.run (.leaf (.action a)))

/-- Where the next script needs a value that there is none of, everything that is left has failed, with nothing
recorded. -/
theorem Fails.runsAll {x : Pending} {cause : Fault}
    (h : Fails selected ⟨around, actor, env⟩ cause x) :
    RunsAll selected (x :: qs) env [] env (.failed ⟨around, actor, env⟩ cause) := by
  refine .stop ?_ Ending.noConfusion Ending.noConfusion
  cases h with
  | ifThen h => exact Script.Runs.ifFailed h
  | whileDo h => exact Script.Runs.whileFailed h
  | assign h => exact Script.Runs.assignFailed h
  | print h => exact Script.Runs.printFailed h
  | action h => exact Script.Runs.actionFailed h

/-! ## Nothing left to do

When the record of an execution is complete there are still steps to be made: sequences and branches have
to be left. None of them does anything, and each makes what is left lighter. -/

/-- How many steps it takes at most to leave a script without doing anything. -/
def weight : Pending → Nat
  | .run s => 2 * s.size - 1
  | .await => 1

theorem weight_pos (x : Pending) : 0 < x.weight := by
  cases x with
  | run s =>
    have := s.size_pos
    rw [weight]
    omega
  | await => exact Nat.one_pos

/-- The weight of what is left. -/
def weightAll : List Pending → Nat
  | [] => 0
  | x :: rest => x.weight + weightAll rest

theorem weightAll_cons (x : Pending) (rest : List Pending) :
    weightAll (x :: rest) = x.weight + weightAll rest := rfl

/-- A `break` does not make what is left any heavier. -/
theorem weightAll_leaveLoop_le (ps : List Pending) : weightAll (leaveLoop ps) ≤ weightAll ps := by
  induction ps with
  | nil => exact Nat.le_refl 0
  | cons x rest ih =>
    rw [leaveLoop, weightAll_cons]
    split
    · exact Nat.le_add_left _ _
    · exact Nat.le_trans ih (Nat.le_add_left _ _)

/-- To take the first script out of a sequence makes two pending scripts that are lighter than the one before. The
weight is twice the size for this reason. -/
theorem weight_sequence (s : Script) (rest : List Script) :
    weight (.run s) + weight (.run (.sequence rest)) < weight (.run (.sequence (s :: rest))) := by
  have := s.size_pos
  simp only [weight, Script.size, Script.sizeAll]
  omega

/-- Whether it can be left without doing anything. -/
def isIdle : Pending → Bool
  | .run (.sequence _) | .run (.leaf .noOp) | .run (.leaf .breakLoop) => true
  | _ => false

theorem not_isIdle_of_isAction {x : Pending} (h : x.isAction = true) : x.isIdle = false := by
  match x, h with
  | .run (.leaf (.action _)), _ => rfl
  | .await, _ => rfl

/-- Scripts that can end without a record are the ones that can be left without doing anything. -/
theorem Runs.isIdle {x : Pending} (h : Runs selected x env t env' k) (ht : t = [])
    (hk : k = .done ∨ k = .broken) : x.isIdle = true := by
  cases x with
  | await =>
    cases h with
    | cut => rcases hk with hk | hk <;> cases hk
    | retired _ => cases ht
  | run s =>
    -- a script of any other form that ends has done something
    rcases hk with rfl | rfl <;> cases h <;> first | rfl | exact absurd ht (List.cons_ne_nil _ _)

/-- If what is left can end without a record, its first script can be left without doing anything, so no step waits
for an actor or looks at a condition. -/
theorem RunsAll.isIdle {x : Pending} {rest : List Pending}
    (h : RunsAll selected (x :: rest) env [] env' .done) : x.isIdle = true := by
  obtain ⟨u, u', env₁, hu, hx⟩ := h.cons_done
  obtain ⟨rfl, -⟩ := List.append_eq_nil_iff.mp hu.symm
  rcases hx with ⟨hx, -⟩ | ⟨hx, -⟩
  · exact hx.isIdle rfl (.inl rfl)
  · exact hx.isIdle rfl (.inr rfl)

/-- A step that fails is one of a script that has something to do. With nothing left to do, no step fails. -/
theorem Fails.not_isIdle {x : Pending} {m : Moment} {cause : Fault} (h : Fails selected m cause x) :
    x.isIdle = false := by
  cases h <;> rfl

/-- **With nothing left to do** a step does nothing, and there are only so many of them. -/
theorem Advance.weight_lt {ps ps' : List Pending} {env'' : Environment}
    (hrun : RunsAll selected ps env [] env'' .done) (h : Advance selected ps env t ps' env') :
    t = [] ∧ weightAll ps' < weightAll ps := by
  cases h with
  | @sequenceNext s rest qs =>
    refine ⟨rfl, ?_⟩
    have := weight_sequence s rest
    rw [weightAll_cons, weightAll_cons, weightAll_cons]
    omega
  | sequenceDone =>
    refine ⟨rfl, ?_⟩
    rw [weightAll_cons]
    exact Nat.lt_add_of_pos_left (weight_pos _)
  | noOp =>
    refine ⟨rfl, ?_⟩
    rw [weightAll_cons]
    exact Nat.lt_add_of_pos_left (weight_pos _)
  | @broke qs =>
    -- a `break` may skip scripts, which only makes it lighter
    refine ⟨rfl, ?_⟩
    rw [weightAll_cons]
    exact Nat.lt_of_le_of_lt (weightAll_leaveLoop_le qs) (Nat.lt_add_of_pos_left (weight_pos _))
  -- any other step is one of a script that cannot be left without doing anything
  | _ => cases hrun.isIdle

end Pending

end TaskScript
