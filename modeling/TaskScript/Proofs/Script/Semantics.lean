import TaskScript.Execution
import TaskScript.Proofs.Script.Formation

/-!
# `Proofs.Script.Semantics`: what a script means

The structured meaning of scripts, by recursion over the nested document and without arena, stack or turns.
`Script.Runs` relates a script to the records of its executions: what was done, in order, each act with the
moment at which it was done. The world is no part of the state. It may look different at every moment, and
so may the actor; only the variables are the script's own.

An execution need not end: a loop may go on for ever, an action may never finish, an expression may have no
value. So a record can be of an execution that is `cut` off at any point; such a record is what a longer one
begins with, and an execution without end has no other records.

## Contents
- `Moment`, `Act`, `Observation`: what is done, and what could be seen when it was done.
- `Ending`, `Script.Runs`: the rules.
- `Runs.env_eq`: the variables are what the record makes of them.
- `WellFormed.inLoop_of_broken`: nothing leaves a well-formed document by a `break`.
-/

namespace TaskScript

/-- What a running script can see at one moment, apart from the cube it was created for. -/
structure Moment where
  around : Surroundings
  /-- The actor that runs the script. -/
  actor : ActorId
  env : Environment

/-- The scope in which expressions are evaluated at a moment. -/
def Moment.scope (m : Moment) (selected : Option Cube) : Scope where
  view := m.around.toWorldView
  self := m.actor
  env := m.env
  selected

/-- Something that a running script does. -/
inductive Act where
  /-- A condition was evaluated. -/
  | decided (holds : Bool)
  /-- A variable was bound. -/
  | bound (name : String) (value : Value)
  | printed (value : Value)
  /-- An action was requested. -/
  | requested (request : Request)
  /-- The action requested last was found finished. -/
  | retired
deriving DecidableEq, Repr

/-- The variables after an act. -/
def Act.after (env : Environment) : Act → Environment
  | .bound name value => env.insert name value
  | _ => env

/-- An act, and the moment at which it was done. -/
structure Observation where
  moment : Moment
  act : Act

/-- How an execution ends. -/
inductive Ending where
  | done
  /-- A `break` left the script; the loop around it is to stop. -/
  | broken
  /-- An expression had no value when it was needed. -/
  | failed (moment : Moment) (cause : Fault)
  /-- The record stops here. -/
  | cut

namespace Script

/-- **The meaning of scripts.** `Runs selected s env t env' k`: an execution of `s` that starts with the
variables `env` does what `t` records, leaves the variables `env'`, and ends with `k`. -/
inductive Runs (selected : Option Cube) :
    Script → Environment → List Observation → Environment → Ending → Prop
  /- A record may stop before anything was done, and it may stop when everything was. -/
  | cut {s env} : Runs selected s env [] env .cut
  | cutAtEnd {s env t env'} : Runs selected s env t env' .done → Runs selected s env t env' .cut
  /- A sequence runs its scripts one after the other, and stops where one of them does not end. -/
  | sequenceNil {env} : Runs selected (.sequence []) env [] env .done
  | sequenceCons {s rest env env₁ env' t t' k} :
      Runs selected s env t env₁ .done → Runs selected (.sequence rest) env₁ t' env' k →
      Runs selected (.sequence (s :: rest)) env (t ++ t') env' k
  | sequenceStop {s rest env env' t k} :
      Runs selected s env t env' k → k ≠ .done → Runs selected (.sequence (s :: rest)) env t env' k
  /- A condition is evaluated once, and decides on a branch, or on nothing. -/
  | ifChosen {condition thenBranch otherwise branch env env' around actor holds t k} :
      (Moment.scope ⟨around, actor, env⟩ selected).holds condition = .ok holds →
      (if holds then some thenBranch else otherwise) = some branch → Runs selected branch env t env' k →
      Runs selected (.ifThen condition thenBranch otherwise) env
        (⟨⟨around, actor, env⟩, .decided holds⟩ :: t) env' k
  | ifSkipped {condition thenBranch env around actor} :
      (Moment.scope ⟨around, actor, env⟩ selected).holds condition = .ok false →
      Runs selected (.ifThen condition thenBranch none) env [⟨⟨around, actor, env⟩, .decided false⟩] env .done
  | ifFailed {condition thenBranch otherwise env around actor cause} :
      (Moment.scope ⟨around, actor, env⟩ selected).holds condition = .error cause →
      Runs selected (.ifThen condition thenBranch otherwise) env [] env (.failed ⟨around, actor, env⟩ cause)
  /- A loop evaluates its condition before every iteration; a `break` in its body ends it. -/
  | whileEnded {condition body env around actor} :
      (Moment.scope ⟨around, actor, env⟩ selected).holds condition = .ok false →
      Runs selected (.whileDo condition body) env [⟨⟨around, actor, env⟩, .decided false⟩] env .done
  | whileAgain {condition body env env₁ env' around actor t t' k} :
      (Moment.scope ⟨around, actor, env⟩ selected).holds condition = .ok true →
      Runs selected body env t env₁ .done → Runs selected (.whileDo condition body) env₁ t' env' k →
      Runs selected (.whileDo condition body) env
        (⟨⟨around, actor, env⟩, .decided true⟩ :: (t ++ t')) env' k
  | whileLeft {condition body env env' around actor t} :
      (Moment.scope ⟨around, actor, env⟩ selected).holds condition = .ok true →
      Runs selected body env t env' .broken →
      Runs selected (.whileDo condition body) env (⟨⟨around, actor, env⟩, .decided true⟩ :: t) env' .done
  | whileStop {condition body env env' around actor t k} :
      (Moment.scope ⟨around, actor, env⟩ selected).holds condition = .ok true →
      Runs selected body env t env' k → k ≠ .done → k ≠ .broken →
      Runs selected (.whileDo condition body) env (⟨⟨around, actor, env⟩, .decided true⟩ :: t) env' k
  | whileFailed {condition body env around actor cause} :
      (Moment.scope ⟨around, actor, env⟩ selected).holds condition = .error cause →
      Runs selected (.whileDo condition body) env [] env (.failed ⟨around, actor, env⟩ cause)
  | assigned {name value env around actor v} :
      (Moment.scope ⟨around, actor, env⟩ selected).evaluate value = .ok v →
      Runs selected (.leaf (.assign name value)) env [⟨⟨around, actor, env⟩, .bound name v⟩]
        (env.insert name v) .done
  | assignFailed {name value env around actor cause} :
      (Moment.scope ⟨around, actor, env⟩ selected).evaluate value = .error cause →
      Runs selected (.leaf (.assign name value)) env [] env (.failed ⟨around, actor, env⟩ cause)
  | printed {value env around actor v} :
      (Moment.scope ⟨around, actor, env⟩ selected).evaluate value = .ok v →
      Runs selected (.leaf (.print value)) env [⟨⟨around, actor, env⟩, .printed v⟩] env .done
  | printFailed {value env around actor cause} :
      (Moment.scope ⟨around, actor, env⟩ selected).evaluate value = .error cause →
      Runs selected (.leaf (.print value)) env [] env (.failed ⟨around, actor, env⟩ cause)
  | broke {env} : Runs selected (.leaf .breakLoop) env [] env .broken
  | noOp {env} : Runs selected (.leaf .noOp) env [] env .done
  /- An action is requested once, and is over when its actor is found to have finished. -/
  | retired {a env around actor request around' actor'} :
      (Moment.scope ⟨around, actor, env⟩ selected).request a = .ok request →
      around'.isFinished actor' = true →
      Runs selected (.leaf (.action a)) env
        [⟨⟨around, actor, env⟩, .requested request⟩, ⟨⟨around', actor', env⟩, .retired⟩] env .done
  | awaited {a env around actor request} :
      (Moment.scope ⟨around, actor, env⟩ selected).request a = .ok request →
      Runs selected (.leaf (.action a)) env [⟨⟨around, actor, env⟩, .requested request⟩] env .cut
  | actionFailed {a env around actor cause} :
      (Moment.scope ⟨around, actor, env⟩ selected).request a = .error cause →
      Runs selected (.leaf (.action a)) env [] env (.failed ⟨around, actor, env⟩ cause)

namespace Runs

variable {selected : Option Cube} {s : Script} {env env' : Environment} {t : List Observation} {k : Ending}

/-- The variables after an execution are those that its record makes of the ones before it. -/
theorem env_eq (h : Runs selected s env t env' k) :
    env' = t.foldl (fun env o => o.act.after env) env := by
  induction h with
  | sequenceCons _ _ ih ih' => rw [List.foldl_append, ← ih, ih']
  | whileAgain _ _ _ ih ih' => rw [List.foldl_cons, List.foldl_append]; exact ih ▸ ih'
  | ifChosen _ _ _ ih => exact ih
  | whileLeft _ _ ih => exact ih
  | whileStop _ _ _ _ ih => exact ih
  | sequenceStop _ _ ih => exact ih
  | cutAtEnd _ ih => exact ih
  | _ => rfl

end Runs

/-- **Nothing leaves a well-formed document by a `break`.** -/
theorem WellFormed.inLoop_of_broken {selected : Option Cube} {s : Script} {env env' : Environment}
    {t : List Observation} {k : Ending} {inLoop : Bool} (hwf : WellFormed inLoop s)
    (h : Runs selected s env t env' k) (hk : k = .broken) : inLoop = true := by
  induction h with
  | sequenceCons _ hrest _ ih =>
    cases hwf with
    | sequence _ hall =>
      refine ih (.sequence ?_ fun s hs => hall s (List.mem_cons_of_mem _ hs)) hk
      -- the rest may be empty, which no document is, but then nothing leaves it by a `break` either
      rintro rfl
      subst hk
      cases hrest
  | sequenceStop _ _ ih =>
    cases hwf with
    | sequence _ hall => exact ih (hall _ List.mem_cons_self) hk
  | @ifChosen _ _ _ _ _ _ _ _ holds _ _ _ hb _ ih =>
    cases hwf with
    | ifThen _ hthen helse =>
      refine ih ?_ hk
      cases holds with
      | true => exact Option.some.inj hb ▸ hthen
      | false => exact helse _ hb
  | whileAgain _ _ _ _ ih => exact ih hwf hk
  | whileStop _ _ _ hbroken _ => exact absurd hk hbroken
  | broke =>
    cases hwf with
    | leaf h => exact h rfl
  | _ => cases hk

end Script

end TaskScript
