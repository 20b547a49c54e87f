import TaskScript.Expression
import TaskScript.Scan
import TaskScript.View

/-!
# Evaluation of expressions

An expression is evaluated for an actor, against a view of the world, the variables of the actor's
task and the cube the task was created for.  Evaluation changes nothing.

## Contents
- `EvaluationError`: why an expression has no value, with its wording; `Fault` adds overflows.
- `Scope`: everything that an expression can observe.
- `Scope.actor`, `Scope.position`, `Scope.boolean`, `Scope.evaluate`: one evaluator per kind.
-/

namespace TaskScript

/-- Why an expression has no value. -/
inductive EvaluationError where
  | unboundVariable (name : String)
  | variableKind (name : String) (expected found : ValueKind)
  | noMatch (target : ScanTarget) (origin : Cube)
  | unknownActor (actor : ActorId)
  | noSelection
  | noAdjacentCube (centre : Cube)
deriving DecidableEq, Repr

/-- The wording of an evaluation error. -/
def EvaluationError.message : EvaluationError → String
  | .unboundVariable name => "variable `" ++ name ++ "` is not bound"
  | .variableKind name expected found =>
    "variable `" ++ name ++ "` holds a " ++ found.label ++ " value, expected " ++ expected.label
  | .noMatch target origin =>
    "no cube with a " ++ target.wording ++ " reachable from " ++ toString origin
  | .unknownActor actor => toString actor ++ " is not present in the world"
  | .noSelection => "task has no selected cube"
  | .noAdjacentCube centre => "no passable cube next to " ++ toString centre

/-- What ends an evaluation without a value: an error, which the task can answer for, or a
coordinate out of range, which nobody can. -/
inductive Fault where
  | error (cause : EvaluationError)
  | overflow (cause : Overflow)
deriving DecidableEq, Repr

/-- Everything that an expression can observe. -/
structure Scope where
  view : WorldView
  /-- The actor that runs the task. -/
  self : ActorId
  env : Environment
  /-- The cube that the task was created for. -/
  selected : Option Cube

namespace Scope

variable (scope : Scope)

/-- A result that may be missing, an evaluation error standing for it. -/
def require {α : Type} (cause : EvaluationError) : Option α → Except Fault α
  | some a => .ok a
  | none => .error (.error cause)

/-- Where the actor stands, as long as it lives. -/
def here : Except Fault Cube :=
  require (.unknownActor scope.self) (scope.view.position? scope.self)

/-- The group of an actor. -/
def groupOf (actor : ActorId) : Except Fault GroupId :=
  require (.unknownActor actor) (scope.view.group? actor)

/-- The content of a variable, which has to be of the kind that `unpack` takes. -/
def read {α : Type} (name : String) (expected : ValueKind) (unpack : Value → Option α) :
    Except Fault α := do
  let value ← require (.unboundVariable name) scope.env[name]?
  require (.variableKind name expected value.kind) (unpack value)

/-- The other living actors in a cube that an actor search looks for, in ascending order. -/
def candidatesAt (target : ScanTarget) (c : Cube) : List ActorId :=
  let own := scope.view.group? scope.self
  (scope.view.actorsAt c).filter fun other =>
    other != scope.self && scope.view.isAlive other &&
      match target with
      | .factionMate => own.isSome && scope.view.group? other == own
      | .nonFactionMate => scope.view.group? other != own
      | _ => true

/-- Whether a cube holds what a search looks for. -/
def cubeMatches (target : ScanTarget) (c : Cube) : Bool :=
  match target with
  | .log => scope.view.hasLog c
  | .boulder => scope.view.hasBoulder c
  | .workshop => scope.view.isWorkshop c
  | .anyActor | .factionMate | .nonFactionMate => !(scope.candidatesAt target c).isEmpty

/-- The nearest cube that holds what a search looks for. -/
def scanCube (target : ScanTarget) : Except Fault Cube := do
  let origin ← scope.here
  let found ← (nearest? scope.view.inBounds (scope.cubeMatches target) origin).mapError .overflow
  require (.noMatch target origin) found

/-- The first candidate in the nearest cube that has one. -/
def scanActor (target : ScanTarget) : Except Fault ActorId := do
  let origin ← scope.here
  let c ← scope.scanCube target
  require (.noMatch target origin) (scope.candidatesAt target c).head?

/-- The actor that an expression denotes. -/
def actor : ActorExpr → Except Fault ActorId
  | .this => .ok scope.self
  | .any => scope.scanActor .anyActor
  | .friend => scope.scanActor .factionMate
  | .enemy => scope.scanActor .nonFactionMate
  | .variable name => scope.read name .actor Value.toActor?

/-- The cube that an expression denotes. -/
def position : PositionExpr → Except Fault Cube
  | .literal c => .ok c
  | .here => scope.here
  | .selected => require .noSelection scope.selected
  | .log => scope.scanCube .log
  | .boulder => scope.scanCube .boulder
  | .workshop => scope.scanCube .workshop
  | .nextTo inner => do
    let centre ← position inner
    let found ← (centre.findNeighbour scope.view.isPassable).mapError .overflow
    require (.noAdjacentCube centre) found
  | .positionOf expr => do
    let a ← scope.actor expr
    require (.unknownActor a) (scope.view.position? a)
  | .variable name => scope.read name .position Value.toPosition?

/-- The truth value that an expression denotes.  `and` and `or` leave the right side unevaluated
when the left side decides. -/
def boolean : BoolExpr → Except Fault Bool
  | .literal b => .ok b
  | .not inner => do return !(← boolean inner)
  | .and left right => do if ← boolean left then boolean right else return false
  | .or left right => do if ← boolean left then return true else boolean right
  | .isSolid expr => do return scope.view.isSolid (← scope.position expr)
  | .isPassable expr => do return scope.view.isPassable (← scope.position expr)
  | .isFriend expr => do
    let other ← scope.actor expr
    let own ← scope.groupOf scope.self
    return own == (← scope.groupOf other)
  | .isEnemy expr => do
    let other ← scope.actor expr
    let own ← scope.groupOf scope.self
    return own != (← scope.groupOf other)
  | .isAlive expr => do return scope.view.isAlive (← scope.actor expr)
  | .carriesItem expr => do
    let other ← scope.actor expr
    if scope.view.isAlive other then return scope.view.isCarrying other
    else throw (.error (.unknownActor other))
  | .variable name => scope.read name .boolean Value.toBoolean?

/-- The value of an expression. -/
def evaluate : Expr → Except Fault Value
  | .bool expr => return .boolean (← scope.boolean expr)
  | .position expr => return .position (← scope.position expr)
  | .actor expr => return .actor (← scope.actor expr)

end Scope

end TaskScript
