import TaskScript.Value

/-!
# Expressions

The expressions of the task language are split by the kind of value that they produce, so the kind
of an expression is known before it is evaluated.

## Contents
- `ActorExpr`, `PositionExpr`, `BoolExpr`, and `Expr` for an expression of any kind.
- `Expr.kind`: the kind of the values it has.
- `usesSelected`: whether an expression reads the cube that its task was created for.
- `ScanTarget` and `scanTarget?`: what an expression that searches the world looks for.
-/

namespace TaskScript

/-- What a search of the world looks for in a cube. -/
inductive ScanTarget where
  | log
  | boulder
  | workshop
  | anyActor
  | factionMate
  | nonFactionMate
deriving DecidableEq, Repr

namespace ScanTarget

/-- The wording of a search target in messages. -/
def wording : ScanTarget → String
  | .log => "log"
  | .boulder => "boulder"
  | .workshop => "workshop"
  | .anyActor => "any actor"
  | .factionMate => "faction mate"
  | .nonFactionMate => "non-faction mate"

/-- The name of a search target in documents. -/
def label : ScanTarget → String
  | .log => "log"
  | .boulder => "boulder"
  | .workshop => "workshop"
  | .anyActor => "any_actor"
  | .factionMate => "faction_mate"
  | .nonFactionMate => "non_faction_mate"

end ScanTarget

/-- An expression for an actor. -/
inductive ActorExpr where
  /-- The actor that runs the task. -/
  | this
  /-- The nearest other actor of the same group. -/
  | friend
  /-- The nearest actor of another group. -/
  | enemy
  /-- The nearest other actor. -/
  | any
  | variable (name : String)
deriving DecidableEq, Repr

/-- An expression for a cube. -/
inductive PositionExpr where
  | literal (cube : Cube)
  /-- Where the actor that runs the task stands. -/
  | here
  /-- The cube that the task was created for. -/
  | selected
  /-- The nearest cube with a log. -/
  | log
  /-- The nearest cube with a boulder. -/
  | boulder
  /-- The nearest workshop. -/
  | workshop
  /-- The first passable neighbour of a cube. -/
  | nextTo (centre : PositionExpr)
  | positionOf (actor : ActorExpr)
  | variable (name : String)
deriving DecidableEq, Repr

/-- An expression for a truth value. -/
inductive BoolExpr where
  | literal (value : Bool)
  | not (inner : BoolExpr)
  | and (left right : BoolExpr)
  | or (left right : BoolExpr)
  | isSolid (position : PositionExpr)
  | isPassable (position : PositionExpr)
  | isFriend (actor : ActorExpr)
  | isEnemy (actor : ActorExpr)
  | isAlive (actor : ActorExpr)
  | carriesItem (actor : ActorExpr)
  | variable (name : String)
deriving DecidableEq, Repr

/-- An expression of any kind, as conditions, assignments and prints take it. -/
inductive Expr where
  | bool (expr : BoolExpr)
  | position (expr : PositionExpr)
  | actor (expr : ActorExpr)
deriving DecidableEq, Repr

/-- What an actor expression searches for, if it searches. -/
def ActorExpr.scanTarget? : ActorExpr → Option ScanTarget
  | .any => some .anyActor
  | .friend => some .factionMate
  | .enemy => some .nonFactionMate
  | .this | .variable _ => none

namespace PositionExpr

/-- What a position expression itself searches for, if it searches. -/
def scanTarget? : PositionExpr → Option ScanTarget
  | .log => some .log
  | .boulder => some .boulder
  | .workshop => some .workshop
  | _ => none

/-- Whether the expression reads the selected cube. -/
def usesSelected : PositionExpr → Bool
  | .selected => true
  | .nextTo centre => centre.usesSelected
  | _ => false

end PositionExpr

/-- Whether the expression reads the selected cube.  Questions about actors never do, because an
actor expression holds no position. -/
def BoolExpr.usesSelected : BoolExpr → Bool
  | .not inner => inner.usesSelected
  | .and left right | .or left right => left.usesSelected || right.usesSelected
  | .isSolid position | .isPassable position => position.usesSelected
  | .literal _ | .isFriend _ | .isEnemy _ | .isAlive _ | .carriesItem _ | .variable _ => false

namespace Expr

/-- The kind of the values that an expression has. -/
def kind : Expr → ValueKind
  | .bool _ => .boolean
  | .position _ => .position
  | .actor _ => .actor

/-- Whether the expression reads the selected cube. -/
def usesSelected : Expr → Bool
  | .bool expr => expr.usesSelected
  | .position expr => expr.usesSelected
  | .actor _ => false

end Expr

end TaskScript
