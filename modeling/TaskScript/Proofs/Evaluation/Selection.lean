import TaskScript.Execution
import TaskScript.Proofs.Except

/-!
# `Proofs.Evaluation.Selection`: who reads the selected cube

Whether an expression reads the selected cube is told from its form alone (`usesSelected`). The answer can be trusted:
an expression that does not read it has the same value, or the same error, whatever cube was selected, and also if none
was. And where a cube was selected, no evaluation ends for want of one.

## Contents
- `Scope.reselect`: the same scope with another selection.
- `position_reselect`, `boolean_reselect`, `evaluate_reselect`, `request_reselect`: **what is not read does not matter**.
- `Fault.IsElsewhere`, `position_elsewhere`, `boolean_elsewhere`, `evaluate_elsewhere`, `request_elsewhere`: **a selection
  that was made is not missed**.
-/

namespace TaskScript

/-- A fault that has another cause than that no cube was selected. -/
def Fault.IsElsewhere (fault : Fault) : Prop :=
  fault ≠ .error .noSelection

namespace Scope

variable {scope : Scope}

/-! ## Selections that are not read -/

/-- What can be observed by a task that was created for another cube, or for none. -/
def reselect (scope : Scope) (selected : Option Cube) : Scope :=
  { scope with selected }

variable (selected : Option Cube)

/-- An expression for an actor holds no position. -/
theorem actor_reselect (expr : ActorExpr) : (scope.reselect selected).actor expr = scope.actor expr := by
  cases expr <;> rfl

/-- A cube may be read from the selection itself, or next to one that is. Expressions for actors have no cubes
inside, so they need no such condition. -/
theorem position_reselect {expr : PositionExpr} (h : expr.usesSelected = false) :
    (scope.reselect selected).position expr = scope.position expr := by
  induction expr with
  | selected => cases h
  | nextTo inner ih =>
    unfold position
    rw [ih h]
    rfl
  | positionOf expr =>
    unfold position
    rw [actor_reselect]
    rfl
  | _ => rfl

/-- Both sides of a conjunction or disjunction count, whether or not the right one is evaluated. -/
theorem boolean_reselect {expr : BoolExpr} (h : expr.usesSelected = false) :
    (scope.reselect selected).boolean expr = scope.boolean expr := by
  induction expr with
  | literal | «variable» => rfl
  | not inner ih =>
    unfold boolean
    rw [ih h]
  | and left right ihl ihr | or left right ihl ihr =>
    obtain ⟨hl, hr⟩ := Bool.or_eq_false_iff.mp h
    unfold boolean
    rw [ihl hl, ihr hr]
  | isSolid expr | isPassable expr =>
    unfold boolean
    rw [position_reselect selected h]
    rfl
  | isFriend expr | isEnemy expr | isAlive expr | carriesItem expr =>
    unfold boolean
    rw [actor_reselect]
    rfl

/-- **An expression that does not read the selected cube** has the same value whatever was selected. -/
theorem evaluate_reselect {expr : Expr} (h : expr.usesSelected = false) :
    (scope.reselect selected).evaluate expr = scope.evaluate expr := by
  unfold evaluate
  cases expr with
  | bool expr => dsimp only; rw [boolean_reselect selected h]
  | position expr => dsimp only; rw [position_reselect selected h]
  | actor expr => dsimp only; rw [actor_reselect]

theorem holds_reselect {condition : Expr} (h : condition.usesSelected = false) :
    (scope.reselect selected).holds condition = scope.holds condition := by
  unfold holds
  rw [evaluate_reselect selected h]

/-- An action has its target for an expression, and nothing else of it can read the selection. -/
theorem request_reselect {a : Action} (h : a.usesSelected = false) :
    (scope.reselect selected).request a = scope.request a := by
  unfold request
  cases a with
  | moveTo target | work target =>
    dsimp only
    rw [position_reselect selected h]
    rfl
  | follow target | attack target =>
    dsimp only
    rw [actor_reselect]
    rfl

/-! ## Selections that were made -/

section

variable {α : Type}

/-- A value that is missing is missed for the reason that was given. -/
theorem require_elsewhere {cause : EvaluationError} (hcause : cause ≠ .noSelection) (answer : Option α) :
    EndsIn Fault.IsElsewhere (fun _ => True) (require cause answer) := by
  cases answer with
  | none =>
    intro heq
    cases heq
    exact hcause rfl
  | some a => trivial

/-- A coordinate out of range has nothing to do with a selection. -/
theorem mapError_elsewhere (x : Except Overflow α) :
    EndsIn Fault.IsElsewhere (fun _ => True) (x.mapError Fault.overflow) := by
  cases x with
  | error o =>
    intro heq
    cases heq
  | ok a => trivial

theorem read_elsewhere (name : String) (expected : ValueKind) (unpack : Value → Option α) :
    EndsIn Fault.IsElsewhere (fun _ => True) (scope.read name expected unpack) := by
  refine (require_elsewhere (by nofun) _).bind ?_
  intro value _
  exact require_elsewhere (by nofun) _

end

theorem scanCube_elsewhere (target : ScanTarget) :
    EndsIn Fault.IsElsewhere (fun _ => True) (scope.scanCube target) := by
  refine (require_elsewhere (by nofun) _).bind ?_
  intro origin _
  refine (mapError_elsewhere _).bind ?_
  intro found _
  exact require_elsewhere (by nofun) _

theorem scanActor_elsewhere (target : ScanTarget) :
    EndsIn Fault.IsElsewhere (fun _ => True) (scope.scanActor target) := by
  refine (require_elsewhere (by nofun) _).bind ?_
  intro origin _
  refine (scanCube_elsewhere target).bind ?_
  intro c _
  exact require_elsewhere (by nofun) _

theorem actor_elsewhere (expr : ActorExpr) : EndsIn Fault.IsElsewhere (fun _ => True) (scope.actor expr) := by
  cases expr with
  | this => trivial
  | friend => exact scanActor_elsewhere .factionMate
  | enemy => exact scanActor_elsewhere .nonFactionMate
  | any => exact scanActor_elsewhere .anyActor
  | «variable» name => exact read_elsewhere name .actor Value.toActor?

section

variable (h : scope.selected ≠ none)

include h

/-- **Where a cube was selected, it is not missed.** The one expression that reads the selection is given it; all
others fail for reasons of their own. -/
theorem position_elsewhere (expr : PositionExpr) :
    EndsIn Fault.IsElsewhere (fun _ => True) (scope.position expr) := by
  induction expr with
  | literal c => trivial
  | here => exact require_elsewhere (by nofun) _
  | selected =>
    obtain ⟨c, hc⟩ := Option.ne_none_iff_exists'.mp h
    show EndsIn _ _ (require .noSelection scope.selected)
    rw [hc]
    trivial
  | log => exact scanCube_elsewhere .log
  | boulder => exact scanCube_elsewhere .boulder
  | workshop => exact scanCube_elsewhere .workshop
  | nextTo inner ih =>
    refine ih.bind ?_
    intro centre _
    refine (mapError_elsewhere _).bind ?_
    intro found _
    exact require_elsewhere (by nofun) _
  | positionOf expr =>
    refine (actor_elsewhere expr).bind ?_
    intro a _
    exact require_elsewhere (by nofun) _
  | «variable» name => exact read_elsewhere name .position Value.toPosition?

theorem boolean_elsewhere (expr : BoolExpr) :
    EndsIn Fault.IsElsewhere (fun _ => True) (scope.boolean expr) := by
  induction expr with
  | literal b => trivial
  | not inner ih => exact ih.bind fun _ _ => trivial
  | and left right ihl ihr =>
    refine ihl.bind ?_
    intro b _
    cases b with
    | true => exact ihr
    | false => trivial
  | or left right ihl ihr =>
    refine ihl.bind ?_
    intro b _
    cases b with
    | true => trivial
    | false => exact ihr
  | isSolid expr | isPassable expr => exact (position_elsewhere h expr).bind fun _ _ => trivial
  | isFriend expr | isEnemy expr =>
    refine (actor_elsewhere expr).bind ?_
    intro other _
    refine (require_elsewhere (by nofun) _).bind ?_
    intro own _
    exact (require_elsewhere (by nofun) _).bind fun _ _ => trivial
  | isAlive expr => exact (actor_elsewhere expr).bind fun _ _ => trivial
  | carriesItem expr =>
    refine (actor_elsewhere expr).bind ?_
    intro other _
    split
    · trivial
    · intro heq
      cases heq
  | «variable» name => exact read_elsewhere name .boolean Value.toBoolean?

/-- **Where a cube was selected, no evaluation ends for want of one.** -/
theorem evaluate_elsewhere (expr : Expr) : EndsIn Fault.IsElsewhere (fun _ => True) (scope.evaluate expr) := by
  cases expr with
  | bool expr => exact (boolean_elsewhere h expr).bind fun _ _ => trivial
  | position expr => exact (position_elsewhere h expr).bind fun _ _ => trivial
  | actor expr => exact (actor_elsewhere expr).bind fun _ _ => trivial

theorem holds_elsewhere (condition : Expr) :
    EndsIn Fault.IsElsewhere (fun _ => True) (scope.holds condition) :=
  (evaluate_elsewhere h condition).bind fun _ _ => trivial

theorem request_elsewhere (a : Action) : EndsIn Fault.IsElsewhere (fun _ => True) (scope.request a) := by
  cases a with
  | moveTo target | work target => exact (position_elsewhere h target).bind fun _ _ => trivial
  | follow target | attack target => exact (actor_elsewhere target).bind fun _ _ => trivial

end

end Scope

end TaskScript
