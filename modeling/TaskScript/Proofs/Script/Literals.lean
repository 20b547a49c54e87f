import TaskScript.Proofs.Script.Lowering

/-!
# `Proofs.Script.Literals`: the cubes that a script names

A script can name cubes of its own choice, anywhere and without regard to the world. They are the literals in its
expressions (`Script.literals`), and lowering adds none: whatever cube a statement of a program names is named in the
script that the program was made of (`literals_of_build`).

## Contents
- `PositionExpr.literals`, …, `Statement.literals`: the cubes that a statement names.
- `Script.literals`, `literals_head`, `literals_of_mem_nodes`.
- `literals_of_build`: **the cubes of a program are those of its script**.
-/

namespace TaskScript

/-! ## Expressions and statements -/

/-- The cubes that an expression for a cube names. -/
def PositionExpr.literals : PositionExpr → List Cube
  | .literal c => [c]
  | .nextTo centre => centre.literals
  | .here | .selected | .log | .boulder | .workshop | .positionOf _ | .variable _ => []

/-- The cubes that an expression for a truth value names. Questions about actors name none. -/
def BoolExpr.literals : BoolExpr → List Cube
  | .not inner => inner.literals
  | .and left right | .or left right => left.literals ++ right.literals
  | .isSolid position | .isPassable position => position.literals
  | .literal _ | .isFriend _ | .isEnemy _ | .isAlive _ | .carriesItem _ | .variable _ => []

/-- The cubes that an expression names. -/
def Expr.literals : Expr → List Cube
  | .bool expr => expr.literals
  | .position expr => expr.literals
  | .actor _ => []

/-- The cubes that an action names. -/
def Action.literals : Action → List Cube
  | .moveTo target | .work target => target.literals
  | .follow _ | .attack _ => []

/-- The cubes that a leaf names. -/
def Leaf.literals : Leaf → List Cube
  | .assign _ value | .print value => value.literals
  | .action a => a.literals
  | .breakLoop | .noOp => []

/-- The cubes that a statement itself names, without its children. -/
def Statement.literals : Statement → List Cube
  | .ifThen condition _ _ | .whileDo condition _ => condition.literals
  | .leaf l => l.literals
  | .sequence _ => []

/-! ## Scripts -/

namespace Script

mutual

/-- The cubes that a script names, in its order. -/
def literals : Script → List Cube
  | .sequence body => literalsAll body
  | .ifThen condition thenBranch none => condition.literals ++ thenBranch.literals
  | .ifThen condition thenBranch (some otherwise) =>
    condition.literals ++ (thenBranch.literals ++ otherwise.literals)
  | .whileDo condition body => condition.literals ++ body.literals
  | .leaf l => l.literals
termination_by structural s => s

/-- The cubes that some scripts name. -/
def literalsAll : List Script → List Cube
  | [] => []
  | s :: rest => s.literals ++ literalsAll rest
termination_by structural ss => ss

end

theorem literalsAll_eq (ss : List Script) : literalsAll ss = ss.flatMap literals := by
  induction ss with
  | nil => rfl
  | cons s rest ih => rw [literalsAll, ih, List.flatMap_cons]

/-- What a script names, its own statement does or a script inside it. -/
theorem literals_eq (s : Script) (ids : List StatementId) :
    s.literals = (s.head ids).literals ++ s.children.flatMap literals := by
  rcases s with body | ⟨condition, thenBranch, _ | otherwise⟩ | ⟨condition, body⟩ | l <;>
    simp [literals, literalsAll_eq, head, children, Statement.literals]

/-- A node of some scripts that stand one after the other is a node of one of them. -/
theorem exists_of_mem_nodesAll {ss : List Script} {parent : Option StatementId} {n : Nat} {node : Node}
    (h : node ∈ nodesAll ss parent n) : ∃ s ∈ ss, ∃ m, node ∈ s.nodes parent m := by
  induction ss generalizing n with
  | nil => cases h
  | cons s rest ih =>
    rw [nodesAll_cons] at h
    rcases List.mem_append.mp h with h | h
    · exact ⟨s, List.mem_cons_self, n, h⟩
    · obtain ⟨t, ht, m, hnode⟩ := ih h
      exact ⟨t, List.mem_cons_of_mem _ ht, m, hnode⟩

/-- A statement of a script names no other cubes than the script does. -/
theorem literals_of_mem_nodes (s : Script) {parent : Option StatementId} {n : Nat} {node : Node}
    (h : node ∈ s.nodes parent n) : node.statement.literals ⊆ s.literals := by
  induction s using childInduction generalizing parent n with
  | step s ih =>
    rw [nodes, inner_eq] at h
    rcases List.mem_append.mp h with h | h
    · obtain ⟨child, hchild, m, hnode⟩ := exists_of_mem_nodesAll h
      intro c hc
      rw [s.literals_eq []]
      exact List.mem_append_right _ (List.mem_flatMap.mpr ⟨child, hchild, ih child hchild hnode hc⟩)
    · rw [List.mem_singleton.mp h, s.literals_eq (roots s.children n)]
      exact List.subset_append_left _ _

/-- **The cubes that a program names are named in its script.** -/
theorem literals_of_build {s : Script} {p : Program} (h : s.build = .ok p) {i : StatementId} {st : Statement}
    (hst : p.statement? i = some st) : st.literals ⊆ s.literals := by
  rw [build_eq] at h
  cases h
  obtain ⟨node, hnode, rfl⟩ := Option.map_eq_some_iff.mp hst
  have hmem : node ∈ s.nodes none 0 := List.mem_toArray.mp (Array.mem_of_getElem? hnode)
  exact s.literals_of_mem_nodes hmem

end Script

end TaskScript
