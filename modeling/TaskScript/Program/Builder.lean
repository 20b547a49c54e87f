import TaskScript.Program.Basic

/-!
# Building programs

Programs are built from the leaves up.  A statement is added after its children, and adding it makes
it their parent.  Names can be wrong, so the builder remembers the first defect: a child that was not
added before, or one that belongs to another statement already.  Only `finish` reports it.

## Contents
- `Builder`: the arena so far, and the first defect.
- `Builder.add`: adds a statement and adopts its children in order.
- `Builder.finish`: seals the tree under a root.
-/

namespace TaskScript

/-- The arena of a program under construction, with the first defect found. -/
structure Builder where
  nodes : Array Node := #[]
  defect : Option FormationError := none
deriving DecidableEq, Repr

namespace Builder

/-- Makes `parent` the parent of `child`.  Nothing happens after the first defect. -/
def adopt (parent : StatementId) (b : Builder) (child : StatementId) : Builder :=
  match b.defect, b.nodes[child]? with
  | some _, _ => b
  | none, none => { b with defect := some (.unknownStatement child) }
  | none, some node =>
    if child = parent ∨ node.parent.isSome then
      { b with defect := some (.sharedStatement child) }
    else
      { b with nodes := b.nodes.setIfInBounds child { node with parent := some parent } }

/-- Adds a statement; its name is the next free place in the arena. -/
def add (b : Builder) (s : Statement) : Builder × StatementId :=
  let id := b.nodes.size
  let added := { b with nodes := b.nodes.push { parent := none, statement := s } }
  (s.children.foldl (adopt id) added, id)

/-- Seals the tree under `root`, which has to be a statement without a parent. -/
def finish (b : Builder) (root : StatementId) : Except FormationError Program :=
  match b.defect, b.nodes[root]? with
  | some defect, _ => .error defect
  | none, none => .error (.unknownStatement root)
  | none, some node =>
    if node.parent.isSome then .error (.sharedStatement root)
    else .ok { nodes := b.nodes, root }

end Builder

end TaskScript
