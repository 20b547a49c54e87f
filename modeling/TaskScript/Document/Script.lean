import TaskScript.Document.Expression
import TaskScript.Script

/-!
# Documents of scripts

A statement is written as an object whose member `op` names its form, next to the parts of the form.
It may also be given as an array of the name and the parts.  A script is read as a whole before it is
looked at, so every part of it has to be readable, also the parts that nobody asks for.

## Contents
- `Script.toJson`: the document of a script.
- `Script.forms`: the names of the forms in their order.
- `Json.statement?`: the form of a statement, and its other parts.
- `Script.ofJson?`: reads a script.
-/

namespace TaskScript

namespace Action

/-- The parts of an action. -/
def members : Action → List (String × Json)
  | .moveTo target | .work target => [("target", target.toJson)]
  | .follow target | .attack target => [("target", target.toJson)]

end Action

namespace Leaf

/-- The parts of a leaf. -/
def members : Leaf → List (String × Json)
  | .assign name value => [("variable", .str name), ("value", value.toJson)]
  | .action a => a.members
  | .print value => [("value", value.toJson)]
  | .breakLoop | .noOp => []

end Leaf

namespace Script

mutual

/-- The document of a script.  The other branch of a conditional is left out when there is none. -/
def toJson : Script → Json
  | .sequence body => .obj [("op", .str "sequence"), ("body", .arr (toJsonAll body))]
  | .ifThen condition thenBranch none =>
    .obj [("op", .str "if"), ("condition", condition.toJson), ("then", thenBranch.toJson)]
  | .ifThen condition thenBranch (some otherwise) =>
    .obj [("op", .str "if"), ("condition", condition.toJson), ("then", thenBranch.toJson),
      ("otherwise", otherwise.toJson)]
  | .whileDo condition body =>
    .obj [("op", .str "while"), ("condition", condition.toJson), ("body", body.toJson)]
  | .leaf l => .obj (("op", .str l.label) :: l.members)
termination_by structural s => s

/-- The documents of scripts. -/
def toJsonAll : List Script → List Json
  | [] => []
  | s :: rest => s.toJson :: toJsonAll rest
termination_by structural ss => ss

end

/-- The names of the forms of statements in their order. -/
def forms : List String :=
  ["sequence", "if", "while", "assign", "break", "move_to", "work", "follow", "attack", "print",
    "no_op"]

/-- The name of a form.  Inside another statement a form may also be given by its place among the
forms. -/
def form? (nested : Bool) : Json → Option String
  | .str name => some name
  | .int n => if nested && 0 ≤ n then forms[n.toNat]? else none
  | _ => none

end Script

/-- The form of a statement, and its other parts as a record. -/
def Json.statement? (nested : Bool) : Json → Option (String × Json)
  | .obj members =>
    match members.filter (·.1 == "op") with
    | [(_, tag)] => (Script.form? nested tag).map (·, .obj (members.filter (·.1 != "op")))
    | _ => none
  | .arr (tag :: parts) => (Script.form? nested tag).map (·, .arr parts)
  | _ => none

/-- A statement without parts has nothing to read in an object, and nothing at all in an array. -/
def Json.hasNoParts : Json → Bool
  | .obj _ | .arr [] => true
  | _ => false

mutual

/-- How deeply arrays and objects are nested in a value. -/
def Json.depth : Json → Nat
  | .arr items => Json.depthOfItems items + 1
  | .obj members => Json.depthOfMembers members + 1
  | .null | .bool _ | .int _ | .float _ | .str _ | .unreadable => 0

/-- The greatest depth of a list of values. -/
def Json.depthOfItems : List Json → Nat
  | [] => 0
  | item :: rest => max item.depth (Json.depthOfItems rest)

/-- The greatest depth of the values of members. -/
def Json.depthOfMembers : List (String × Json) → Nat
  | [] => 0
  | (_, value) :: rest => max value.depth (Json.depthOfMembers rest)

end

namespace Script

/-- Reads the one part of a statement that has one. -/
def onePart? {α : Type} (name : String) (read : Json → Option α) (parts : Json) : Option α := do
  let [part] ← parts.record? [{ name }] | none
  read (← part)

/-- Reads a script nested no more than `n` deep. -/
def read : Nat → Bool → Json → Option Script
  | 0, _, _ => none
  | n + 1, nested, j => do
    let expr := Expr.ofJson? Json.isBlank
    let position := PositionExpr.ofJson? Json.isBlank
    let actor := ActorExpr.ofJson? Json.isBlank
    let (form, parts) ← j.statement? nested
    match form with
    | "sequence" => return .sequence (← onePart? "body" (Json.toList? (read n true)) parts)
    | "if" =>
      let [condition, thenBranch, otherwise] ← parts.record?
        [{ name := "condition" }, { name := "then" },
          { name := "otherwise", presence := .defaulted }] | none
      return .ifThen (← expr (← condition)) (← read n true (← thenBranch))
        (← (otherwise.getD .null).toOption? (read n true))
    | "while" =>
      let [condition, body] ← parts.record? [{ name := "condition" }, { name := "body" }] | none
      return .whileDo (← expr (← condition)) (← read n true (← body))
    | "assign" =>
      let [name, value] ← parts.record? [{ name := "variable" }, { name := "value" }] | none
      return .leaf (.assign (← (← name).toString?) (← expr (← value)))
    | "break" => if parts.hasNoParts then some (.leaf .breakLoop) else none
    | "move_to" => return .leaf (.action (.moveTo (← onePart? "target" position parts)))
    | "work" => return .leaf (.action (.work (← onePart? "target" position parts)))
    | "follow" => return .leaf (.action (.follow (← onePart? "target" actor parts)))
    | "attack" => return .leaf (.action (.attack (← onePart? "target" actor parts)))
    | "print" => return .leaf (.print (← onePart? "value" expr parts))
    | "no_op" => if parts.hasNoParts then some (.leaf .noOp) else none
    | _ => none

/-- Reads a script. -/
def ofJson? (j : Json) : Option Script :=
  if j.isReadable then read j.depth false j else none

end Script

end TaskScript
