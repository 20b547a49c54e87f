import TaskScript.Program.Basic

/-!
# Well-formed programs

The static rules that a program has to obey before a task is made of it: a `break` stands inside a
loop, a sequence is not empty, and conditions are boolean.

## Contents
- `Program.defectAt?`: the rule that a statement breaks.
- `Program.check`: the first defect in pre-order, with `check_eq_error_iff_findSome?`, `check_eq_ok_iff_findSome?`.
-/

namespace TaskScript.Program

/-- Whether a statement of the given name is a loop. -/
def isLoop (p : Program) (id : StatementId) : Bool :=
  match p.statement? id with
  | some (.whileDo _ _) => true
  | _ => false

/-- The defect of a condition that is not boolean. -/
def conditionDefect? (id : StatementId) (condition : Expr) : Option FormationError :=
  if condition.kind = .boolean then none else some (.illTypedCondition id condition.kind)

/-- The rule that a statement breaks, if it breaks one. -/
def defectAt? (p : Program) (id : StatementId) : Option FormationError :=
  match p.statement? id with
  | none => some (.unknownStatement id)
  | some (.leaf .breakLoop) =>
    if (p.ancestors id).any p.isLoop then none else some (.unboundBreak id)
  | some (.sequence []) => some (.emptySequence id)
  | some (.ifThen condition _ _) => conditionDefect? id condition
  | some (.whileDo condition _) => conditionDefect? id condition
  | some _ => none

/-- Refuses a program for the first defect in the pre-order of its tree. -/
def check (p : Program) : Except FormationError Unit :=
  match (p.subtree p.root).findSome? p.defectAt? with
  | some defect => .error defect
  | none => .ok ()

/-- The answer of the check is the first defect there is, so a program with several defects is refused for the one
that comes first in pre-order. -/
theorem check_eq_error_iff_findSome? (p : Program) (d : FormationError) :
    p.check = .error d ↔ (p.subtree p.root).findSome? p.defectAt? = some d := by
  rw [check]
  cases (p.subtree p.root).findSome? p.defectAt? <;> simp

theorem check_eq_ok_iff_findSome? (p : Program) :
    p.check = .ok () ↔ (p.subtree p.root).findSome? p.defectAt? = none := by
  rw [check]
  cases (p.subtree p.root).findSome? p.defectAt? <;> simp

end TaskScript.Program
