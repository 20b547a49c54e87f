import TaskScript.Document.Value

/-!
# Documents of expressions

An expression is written as the name of its form when it has no content, and otherwise as an object
of that name and the content.  A form without content may also be written as an object, with a blank
for the content; what counts as blank depends on where the expression stands.

## Contents
- `toJson` for `ActorExpr`, `PositionExpr`, `BoolExpr` and `Expr`.
- `Json.isNull`, `Json.isBlank`: the two notions of a blank.
- `ofJson?` for the four kinds, given a notion of a blank.
-/

namespace TaskScript

/-- An object with a single member. -/
def Json.single (name : String) (content : Json) : Json :=
  .obj [(name, content)]

/-- Only `null` is blank. -/
def Json.isNull : Json → Bool
  | .null => true
  | _ => false

/-- `null` and the empty object are blank. -/
def Json.isBlank : Json → Bool
  | .null | .obj [] => true
  | _ => false

namespace ActorExpr

/-- The document of an actor expression. -/
def toJson : ActorExpr → Json
  | .this => .str "this"
  | .friend => .str "friend"
  | .enemy => .str "enemy"
  | .any => .str "any"
  | .variable name => .single "variable" (.str name)

/-- The form without content of a given name. -/
def plain? : String → Option ActorExpr
  | "this" => some .this
  | "friend" => some .friend
  | "enemy" => some .enemy
  | "any" => some .any
  | _ => none

/-- Reads an actor expression. -/
def ofJson? (blank : Json → Bool) : Json → Option ActorExpr
  | .str name => plain? name
  | .obj [("variable", content)] => return .variable (← content.toString?)
  | .obj [(name, content)] => if blank content then plain? name else none
  | _ => none

end ActorExpr

namespace PositionExpr

/-- The document of a position expression. -/
def toJson : PositionExpr → Json
  | .literal c => .single "literal" c.toJson
  | .here => .str "here"
  | .selected => .str "selected"
  | .log => .str "log"
  | .boulder => .str "boulder"
  | .workshop => .str "workshop"
  | .nextTo centre => .single "next_to" centre.toJson
  | .positionOf actor => .single "position_of" actor.toJson
  | .variable name => .single "variable" (.str name)

/-- The form without content of a given name. -/
def plain? : String → Option PositionExpr
  | "here" => some .here
  | "selected" => some .selected
  | "log" => some .log
  | "boulder" => some .boulder
  | "workshop" => some .workshop
  | _ => none

/-- Reads a position expression. -/
def ofJson? (blank : Json → Bool) : Json → Option PositionExpr
  | .str name => plain? name
  | .obj [("literal", content)] => return .literal (← Cube.ofJson? content)
  | .obj [("next_to", content)] => return .nextTo (← ofJson? blank content)
  | .obj [("position_of", content)] => return .positionOf (← ActorExpr.ofJson? blank content)
  | .obj [("variable", content)] => return .variable (← content.toString?)
  | .obj [(name, content)] => if blank content then plain? name else none
  | _ => none
termination_by structural j => j

end PositionExpr

namespace BoolExpr

/-- The document of a boolean expression. -/
def toJson : BoolExpr → Json
  | .literal b => .single "literal" (.bool b)
  | .not inner => .single "not" inner.toJson
  | .and left right => .single "and" (.arr [left.toJson, right.toJson])
  | .or left right => .single "or" (.arr [left.toJson, right.toJson])
  | .isSolid position => .single "is_solid" position.toJson
  | .isPassable position => .single "is_passable" position.toJson
  | .isFriend actor => .single "is_friend" actor.toJson
  | .isEnemy actor => .single "is_enemy" actor.toJson
  | .isAlive actor => .single "is_alive" actor.toJson
  | .carriesItem actor => .single "carries_item" actor.toJson
  | .variable name => .single "variable" (.str name)

/-- Reads a boolean expression.  There is no form without content. -/
def ofJson? (blank : Json → Bool) : Json → Option BoolExpr
  | .obj [("literal", content)] => return .literal (← content.toBool?)
  | .obj [("not", content)] => return .not (← ofJson? blank content)
  | .obj [("and", .arr [left, right])] => return .and (← ofJson? blank left) (← ofJson? blank right)
  | .obj [("or", .arr [left, right])] => return .or (← ofJson? blank left) (← ofJson? blank right)
  | .obj [("is_solid", content)] => return .isSolid (← PositionExpr.ofJson? blank content)
  | .obj [("is_passable", content)] => return .isPassable (← PositionExpr.ofJson? blank content)
  | .obj [("is_friend", content)] => return .isFriend (← ActorExpr.ofJson? blank content)
  | .obj [("is_enemy", content)] => return .isEnemy (← ActorExpr.ofJson? blank content)
  | .obj [("is_alive", content)] => return .isAlive (← ActorExpr.ofJson? blank content)
  | .obj [("carries_item", content)] => return .carriesItem (← ActorExpr.ofJson? blank content)
  | .obj [("variable", content)] => return .variable (← content.toString?)
  | _ => none
termination_by structural j => j

end BoolExpr

namespace Expr

/-- The document of an expression: its kind, and the expression of that kind. -/
def toJson : Expr → Json
  | .bool expr => .single "bool" expr.toJson
  | .position expr => .single "position" expr.toJson
  | .actor expr => .single "actor" expr.toJson

/-- Reads an expression. -/
def ofJson? (blank : Json → Bool) : Json → Option Expr
  | .obj [("bool", content)] => return .bool (← BoolExpr.ofJson? blank content)
  | .obj [("position", content)] => return .position (← PositionExpr.ofJson? blank content)
  | .obj [("actor", content)] => return .actor (← ActorExpr.ofJson? blank content)
  | _ => none

end Expr

end TaskScript
