import TaskScript.Program.Builder

/-!
# Scripts

A script is the nested form of a program, as documents hold it.  Lowering turns it into an arena:
every statement is added after its children, so the arena lists the script in post-order, and its
root comes last.

## Contents
- `Script`: nested statements.
- `Script.lower` adds a script to a builder; `Script.build` makes a program of it.
-/

namespace TaskScript

/-- A nested statement. -/
inductive Script where
  | sequence (body : List Script)
  | ifThen (condition : Expr) (thenBranch : Script) (otherwise : Option Script)
  | whileDo (condition : Expr) (body : Script)
  | leaf (leaf : Leaf)
deriving Repr

namespace Script

mutual

/-- Adds a script to a builder, its children first, and returns the name of its root. -/
def lower : Script → Builder → Builder × StatementId
  | .sequence body, b =>
    let (b, children) := lowerAll body b
    b.add (.sequence children)
  | .ifThen condition thenBranch none, b =>
    let (b, thenId) := thenBranch.lower b
    b.add (.ifThen condition thenId none)
  | .ifThen condition thenBranch (some otherwise), b =>
    let (b, thenId) := thenBranch.lower b
    let (b, elseId) := otherwise.lower b
    b.add (.ifThen condition thenId (some elseId))
  | .whileDo condition body, b =>
    let (b, bodyId) := body.lower b
    b.add (.whileDo condition bodyId)
  | .leaf l, b => b.add (.leaf l)
termination_by structural s => s

/-- Adds scripts to a builder one after the other and returns the names of their roots. -/
def lowerAll : List Script → Builder → Builder × List StatementId
  | [], b => (b, [])
  | s :: rest, b =>
    let (b, id) := s.lower b
    let (b, ids) := lowerAll rest b
    (b, id :: ids)
termination_by structural ss => ss

end

/-- The program of a script. -/
def build (s : Script) : Except FormationError Program :=
  let (b, root) := s.lower {}
  b.finish root

end Script

end TaskScript
