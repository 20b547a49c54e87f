import TaskScript.Program.Formation
import TaskScript.Proofs.Script.Lowering

/-!
# `Proofs.Script.Formation`: the rules for scripts

The check of a program walks a flat arena and climbs chains of parents, while the rules that it stands for
are about a nested document. The two meet in `Script.WellFormed`, the rules said by recursion over a script
with a flag for "inside a loop". The walk goes through the document from its beginning to its end: the
subtree of a program's root lists the script in pre-order.

## Contents
- **Pre-order**: `Script.preorder`, with `subtree_root_of_build`.
- **Rules**: `Script.WellFormed`.
-/

namespace TaskScript.Script

variable {p : Program}

/-! ## Pre-order -/

mutual

/-- The names of the statements of a script in pre-order, the first of its segment being named `n`. -/
def preorder : Script → Nat → List StatementId
  | .sequence body, n => (n + sizeAll body) :: preorderAll body n
  | .ifThen _ thenBranch none, n => (n + thenBranch.size) :: thenBranch.preorder n
  | .ifThen _ thenBranch (some otherwise), n =>
    (n + (thenBranch.size + otherwise.size)) ::
      (thenBranch.preorder n ++ otherwise.preorder (n + thenBranch.size))
  | .whileDo _ body, n => (n + body.size) :: body.preorder n
  | .leaf _, n => [n]
termination_by structural s => s

/-- The same for scripts that stand one after the other from `n` on. -/
def preorderAll : List Script → Nat → List StatementId
  | [], _ => []
  | s :: rest, n => s.preorder n ++ preorderAll rest (n + s.size)
termination_by structural ss => ss

end

theorem preorder_eq (s : Script) (n : Nat) : s.preorder n = s.rootAt n :: preorderAll s.children n := by
  rcases s with body | ⟨condition, thenBranch, _ | otherwise⟩ | ⟨condition, body⟩ | l <;>
    simp [preorder, preorderAll, children, rootAt_eq, sizeAll]

theorem childrenOf_root {s : Script} {parent : Option StatementId} {n : Nat}
    (h : NodesAt p n (s.nodes parent n)) : p.childrenOf (s.rootAt n) = roots s.children n := by
  rw [Program.childrenOf, h.statement?]
  exact children_head (length_roots s.children n)

theorem visit_roots_of {ss : List Script}
    (h : ∀ s ∈ ss, ∀ parent n, NodesAt p n (s.nodes parent n) → ∀ k pending,
      p.visit (s.size + k) (s.rootAt n :: pending) = s.preorder n ++ p.visit k pending)
    {parent : Option StatementId} {n : Nat} (hn : NodesAt p n (nodesAll ss parent n)) (k : Nat)
    (pending : List StatementId) :
    p.visit (sizeAll ss + k) (roots ss n ++ pending) = preorderAll ss n ++ p.visit k pending := by
  induction ss generalizing n with
  | nil => simp [sizeAll, roots, preorderAll]
  | cons s rest ih =>
    have hrest := ih (fun t ht => h t (List.mem_cons_of_mem _ ht)) hn.others
    rw [sizeAll, roots, preorderAll, List.cons_append, Nat.add_assoc,
      h s List.mem_cons_self parent n hn.first, hrest, List.append_assoc]

/-- Visiting the root of a script lists the script in pre-order before anything else that is pending. -/
theorem visit_root (s : Script) (parent : Option StatementId) (n : Nat)
    (h : NodesAt p n (s.nodes parent n)) (k : Nat) (pending : List StatementId) :
    p.visit (s.size + k) (s.rootAt n :: pending) = s.preorder n ++ p.visit k pending := by
  induction s using childInduction generalizing parent n k pending with
  | step s ih =>
    -- one step of the walk is for the root, and the others are for its children
    have hfuel : s.size + k = (sizeAll s.children + k) + 1 := by rw [size_eq]; omega
    rw [hfuel, Program.visit, childrenOf_root h, visit_roots_of ih h.children, preorder_eq,
      List.cons_append]

/-- **The program of a script lists the script in pre-order.** -/
theorem subtree_root_of_build {s : Script} (h : s.build = .ok p) : p.subtree p.root = s.preorder 0 := by
  obtain ⟨hroot, hsize, hnodes⟩ := nodesAt_of_build h
  rw [Program.subtree, hroot, hsize, visit_root s none 0 hnodes]
  exact List.append_nil _

/-! ## Rules -/

/-- **The rules for scripts**, said of the nested document: a `break` stands inside a loop, a sequence is
not empty, and conditions are boolean. The flag tells whether the script stands inside a loop. -/
inductive WellFormed : Bool → Script → Prop
  | leaf {inLoop : Bool} {l : Leaf} : (l = .breakLoop → inLoop = true) → WellFormed inLoop (.leaf l)
  | sequence {inLoop : Bool} {body : List Script} :
      body ≠ [] → (∀ s ∈ body, WellFormed inLoop s) → WellFormed inLoop (.sequence body)
  | ifThen {inLoop : Bool} {condition : Expr} {thenBranch : Script} {otherwise : Option Script} :
      condition.kind = .boolean → WellFormed inLoop thenBranch →
      (∀ s ∈ otherwise, WellFormed inLoop s) → WellFormed inLoop (.ifThen condition thenBranch otherwise)
  | whileDo {inLoop : Bool} {condition : Expr} {body : Script} :
      condition.kind = .boolean → WellFormed true body → WellFormed inLoop (.whileDo condition body)

/-- Whether the children of a script stand inside a loop. -/
def childrenInLoop (inLoop : Bool) : Script → Bool
  | .whileDo _ _ => true
  | _ => inLoop

theorem isLoop_root {s : Script} {parent : Option StatementId} {n : Nat}
    (h : NodesAt p n (s.nodes parent n)) (inLoop : Bool) :
    (p.isLoop (s.rootAt n) || inLoop) = s.childrenInLoop inLoop := by
  rw [Program.isLoop, h.statement?]
  cases s <;> rfl

end TaskScript.Script
