import TaskScript.Expression

/-!
# Programs

A program is a tree of statements kept in one array, its arena.  A statement is named by its place
there, refers to its children by name, and is stored next to the name of the statement around it.

Leaves, the statements without children, are the same in a program and in a script document, so
they have a type of their own; of the leaves, actions are carried out by an actor over time.

## Contents
- `Action`, `Leaf`, `Statement`: what a statement does, with `label`, `usesSelected`.
- `Node`, `Program`: the arena, with `statement?`, `parent?`, `childrenOf`.
- `Program.ancestors`: the statements around one, from the inside out.
- `Program.subtree`: a statement and everything inside it, in pre-order.
- `FormationError`: the defects for which a program is refused.
-/

namespace TaskScript

/-- A leaf that an actor carries out over time. -/
inductive Action where
  | moveTo (target : PositionExpr)
  | work (target : PositionExpr)
  | follow (target : ActorExpr)
  | attack (target : ActorExpr)
deriving DecidableEq, Repr

namespace Action

/-- The name of an action in documents. -/
def label : Action → String
  | .moveTo _ => "move_to"
  | .work _ => "work"
  | .follow _ => "follow"
  | .attack _ => "attack"

/-- Whether the action reads the selected cube. -/
def usesSelected : Action → Bool
  | .moveTo target | .work target => target.usesSelected
  | .follow _ | .attack _ => false

end Action

/-- A statement without children. -/
inductive Leaf where
  | assign (name : String) (value : Expr)
  /-- Leaves the innermost loop. -/
  | breakLoop
  | action (action : Action)
  | print (value : Expr)
  | noOp
deriving DecidableEq, Repr

namespace Leaf

/-- The name of a leaf in documents. -/
def label : Leaf → String
  | .assign _ _ => "assign"
  | .breakLoop => "break"
  | .action a => a.label
  | .print _ => "print"
  | .noOp => "no_op"

/-- Whether the leaf reads the selected cube. -/
def usesSelected : Leaf → Bool
  | .assign _ value | .print value => value.usesSelected
  | .action a => a.usesSelected
  | .breakLoop | .noOp => false

end Leaf

/-- The name of a statement: its place in the arena of its program. -/
abbrev StatementId := Nat

/-- How a statement is called in messages. -/
def StatementId.wording (id : StatementId) : String :=
  "statement#" ++ toString id

/-- A statement; children are given by name. -/
inductive Statement where
  | sequence (children : List StatementId)
  | ifThen (condition : Expr) (thenBranch : StatementId) (elseBranch : Option StatementId)
  | whileDo (condition : Expr) (body : StatementId)
  | leaf (leaf : Leaf)
deriving DecidableEq, Repr

namespace Statement

/-- The children of a statement in the order in which they are run. -/
def children : Statement → List StatementId
  | .sequence children => children
  | .ifThen _ thenBranch elseBranch => thenBranch :: elseBranch.toList
  | .whileDo _ body => [body]
  | .leaf _ => []

/-- Whether the statement is carried out by an actor over time. -/
def isAction : Statement → Bool
  | .leaf (.action _) => true
  | _ => false

/-- The name of a statement in documents. -/
def label : Statement → String
  | .sequence _ => "sequence"
  | .ifThen _ _ _ => "if"
  | .whileDo _ _ => "while"
  | .leaf l => l.label

/-- Whether the statement itself, without its children, reads the selected cube. -/
def usesSelected : Statement → Bool
  | .ifThen condition _ _ | .whileDo condition _ => condition.usesSelected
  | .leaf l => l.usesSelected
  | .sequence _ => false

end Statement

/-- A statement in the arena, with the statement around it. -/
structure Node where
  parent : Option StatementId
  statement : Statement
deriving DecidableEq, Repr

/-- A tree of statements. -/
structure Program where
  nodes : Array Node
  root : StatementId
deriving DecidableEq, Repr

namespace Program

/-- How many statements the arena holds. -/
def size (p : Program) : Nat :=
  p.nodes.size

/-- The statement of a given name. -/
def statement? (p : Program) (id : StatementId) : Option Statement :=
  p.nodes[id]?.map (·.statement)

/-- The statement around a statement; the root has none. -/
def parent? (p : Program) (id : StatementId) : Option StatementId :=
  p.nodes[id]?.bind (·.parent)

/-- The children of a statement in the order in which they are run. -/
def childrenOf (p : Program) (id : StatementId) : List StatementId :=
  match p.statement? id with
  | some s => s.children
  | none => []

/-- The chain of parents that starts with a given one, at most `n` of them. -/
def chain (p : Program) : Nat → Option StatementId → List StatementId
  | 0, _ => []
  | _ + 1, none => []
  | n + 1, some id => id :: p.chain n (p.parent? id)

/-- The statements around a statement, from the innermost out to the root.  A chain of parents
visits no statement twice, so it is no longer than the arena. -/
def ancestors (p : Program) (id : StatementId) : List StatementId :=
  p.chain p.size (p.parent? id)

/-- Visits pending statements one after the other, the children of each before those that were
pending with it, at most `n` in all. -/
def visit (p : Program) : Nat → List StatementId → List StatementId
  | 0, _ => []
  | _ + 1, [] => []
  | n + 1, id :: pending => id :: p.visit n (p.childrenOf id ++ pending)

/-- A statement and everything inside it, in pre-order.  A tree holds no statement twice, so its
pre-order is no longer than the arena. -/
def subtree (p : Program) (id : StatementId) : List StatementId :=
  p.visit (p.size + 1) [id]

/-- Whether any statement of the tree reads the selected cube. -/
def usesSelected (p : Program) : Bool :=
  (p.subtree p.root).any fun id => (p.statement? id).any (·.usesSelected)

end Program

/-- A defect for which a program, or a task made of it, is refused. -/
inductive FormationError where
  | unboundBreak (id : StatementId)
  | emptySequence (id : StatementId)
  | illTypedCondition (id : StatementId) (found : ValueKind)
  | sharedStatement (id : StatementId)
  | unknownStatement (id : StatementId)
  | missingSelection
deriving DecidableEq, Repr

/-- The wording of a defect. -/
def FormationError.message : FormationError → String
  | .unboundBreak id => "break " ++ id.wording ++ " is not enclosed by a while loop"
  | .emptySequence id => "sequence " ++ id.wording ++ " has no statements"
  | .illTypedCondition id found =>
    "condition of " ++ id.wording ++ " must be boolean, found " ++ found.label
  | .sharedStatement id => "statement " ++ id.wording ++ " is attached to more than one parent"
  | .unknownStatement id => "statement " ++ id.wording ++ " does not belong to this program"
  | .missingSelection => "program reads the selected cube but no target cubes were given"

end TaskScript
