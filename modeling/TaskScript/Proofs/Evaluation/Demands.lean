import TaskScript.Execution
import TaskScript.Proofs.Except

/-!
# `Proofs.Evaluation.Demands`: what is requested for an action, and of whom

To request an action is to evaluate its target, and to ask for an activity of the action's kind, on behalf of the actor
in whose scope the target was evaluated. `Action.Demands` says so kind by kind. What is proved of requests is proved by
its four cases: of the calls that make them, and of the worlds that carry them out.

## Contents
- `Request.actor`: whom a request is for.
- `Action.Demands`, `Scope.request_eq_ok_iff`: **what is requested**.
-/

namespace TaskScript

/-- The actor that is asked for an activity. -/
def Request.actor : Request → ActorId
  | .moveTo actor _ => actor
  | .work actor _ => actor
  | .follow actor _ => actor
  | .attack actor _ => actor

/-- **What an action demands of an actor**: an activity of the action's own kind, with the cube or the actor that the
target denotes. -/
inductive Action.Demands (scope : Scope) (actor : ActorId) : Action → Request → Prop
  | moveTo {target c} : scope.position target = .ok c → Demands scope actor (.moveTo target) (.moveTo actor c)
  | work {target c} : scope.position target = .ok c → Demands scope actor (.work target) (.work actor c)
  | follow {target b} : scope.actor target = .ok b → Demands scope actor (.follow target) (.follow actor b)
  | attack {target b} : scope.actor target = .ok b → Demands scope actor (.attack target) (.attack actor b)

theorem Action.Demands.actor_eq {scope : Scope} {actor : ActorId} {action : Action} {r : Request}
    (h : action.Demands scope actor r) : r.actor = actor := by
  cases h <;> rfl

/-- **A request is what its action demands of the actor who evaluates it.** So there is none where the target has no
value, and no other kind, target or actor is put in place of the action's own. -/
theorem Scope.request_eq_ok_iff {scope : Scope} {action : Action} {r : Request} :
    scope.request action = .ok r ↔ action.Demands scope scope.self r := by
  constructor
  · intro h
    cases action with
    | moveTo target =>
      obtain ⟨c, hc, hr⟩ := bind_eq_ok h
      cases hr
      exact .moveTo hc
    | work target =>
      obtain ⟨c, hc, hr⟩ := bind_eq_ok h
      cases hr
      exact .work hc
    | follow target =>
      obtain ⟨b, hb, hr⟩ := bind_eq_ok h
      cases hr
      exact .follow hb
    | attack target =>
      obtain ⟨b, hb, hr⟩ := bind_eq_ok h
      cases hr
      exact .attack hb
  · intro h
    cases h with
    | moveTo hc | work hc =>
      rw [request, hc]
      rfl
    | follow hb | attack hb =>
      rw [request, hb]
      rfl

end TaskScript
