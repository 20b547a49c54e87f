import TaskScript.Cube
import TaskScript.Id
import Std.Data.ExtTreeMap

/-!
# Script values

What an expression evaluates to, a variable holds and a `print` shows: a truth value, a cube or an
actor.

## Contents
- `ValueKind` and `Value`, the way they are written, `Value.kind`.
- `Environment`: the variables of a running task.
-/

namespace TaskScript

/-- The three kinds of values. -/
inductive ValueKind where
  | boolean
  | position
  | actor
deriving DecidableEq, Repr

/-- The name of a kind, in messages as in documents. -/
def ValueKind.label : ValueKind → String
  | .boolean => "boolean"
  | .position => "position"
  | .actor => "actor"

/-- The result of evaluating an expression. -/
inductive Value where
  | boolean (value : Bool)
  | position (value : Cube)
  | actor (value : ActorId)
deriving DecidableEq, Repr

namespace Value

/-- The kind a value belongs to. -/
def kind : Value → ValueKind
  | .boolean _ => .boolean
  | .position _ => .position
  | .actor _ => .actor

/-- The truth value, if it is one. -/
def toBoolean? : Value → Option Bool
  | .boolean b => some b
  | _ => none

/-- The cube, if it is one. -/
def toPosition? : Value → Option Cube
  | .position c => some c
  | _ => none

/-- The actor, if it is one. -/
def toActor? : Value → Option ActorId
  | .actor a => some a
  | _ => none

instance : ToString Value where
  toString
    | .boolean b => if b then "true" else "false"
    | .position c => toString c
    | .actor a => toString a

end Value

/-- The variables of a running task. -/
abbrev Environment := Std.ExtTreeMap String Value

end TaskScript
