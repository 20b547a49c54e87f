import Mathlib.Logic.Function.Iterate
import TaskScript.Proofs.Program.Preorder

/-!
# `Proofs.Program.Lineage`: the ancestors of a statement

Whoever climbs an arena follows the parents, and whoever descends follows the children. Both walks carry fuel, one
because parents might lead in a circle, and one because children might. In a program that a builder has sealed neither
does: parents have larger names than their children, so a climb comes to a statement without a parent
(`ParentsAhead.climb`, the induction that this amounts to), and the ancestors are all there is to be met on the way
(`Sealed.getElem?_ancestors`).

The two walks agree on what belongs to a tree. An arena may hold statements that no parent leads from to the root; what
lies within the root is what has the root for its last ancestor (`Sealed.within_iff_getLast?`), and that is what the
subtree of the root lists.

## Contents
- `ParentsAhead.climb`: induction along the parents.
- `getElem?_ancestors`, `isChain_ancestors`: **ancestors are all there are, and they ascend**.
- `within_iff_getLast?`: **a tree by its last ancestors**.
- `Sealed.is_tree`: **a sealed program is a tree**.
-/

namespace TaskScript.Program

variable {p : Program}

/-! ## Climbing -/

/-- **Induction along the parents**: what holds of statements without a parent, and of a statement once it holds of its
parent, holds of every statement. -/
@[elab_as_elim]
theorem ParentsAhead.climb (h : p.ParentsAhead) {motive : StatementId → Prop}
    (root : ∀ i, p.parent? i = none → motive i)
    (child : ∀ i parent, p.parent? i = some parent → motive parent → motive i) (i : StatementId) : motive i := by
  -- the way that is left in the arena gets shorter with every parent
  induction hleft : p.size - i using Nat.strongRecOn generalizing i with
  | _ left ih =>
    cases hparent : p.parent? i with
    | none => exact root i hparent
    | some parent =>
      obtain ⟨hlt, hsize⟩ := h i parent hparent
      apply child i parent hparent
      apply ih (p.size - parent) _ parent rfl
      rw [← hleft]
      exact Nat.sub_lt_sub_left (Nat.lt_trans hlt hsize) hlt

namespace Sealed

variable (h : p.Sealed)

include h

/-- **The ancestors are all that parents lead to**, step by step, until there is no parent. -/
theorem getElem?_ancestors (i : StatementId) (k : Nat) :
    (p.ancestors i)[k]? = (fun q : Option StatementId => q.bind p.parent?)^[k + 1] (some i) := by
  induction k generalizing i with
  | zero =>
    show _ = p.parent? i
    cases hparent : p.parent? i with
    | none => simp [ancestors_of_parent?_eq_none hparent]
    | some parent => simp [ancestors_of_parent? h.parentsAhead hparent]
  | succ k ih =>
    rw [Function.iterate_succ_apply, Option.bind_some]
    cases hparent : p.parent? i with
    | none =>
      rw [ancestors_of_parent?_eq_none hparent, Function.iterate_fixed rfl]
      rfl
    | some parent =>
      rw [ancestors_of_parent? h.parentsAhead hparent, List.getElem?_cons_succ]
      exact ih parent

/-- **Ancestors ascend**, from a statement on. -/
theorem isChain_ancestors (i : StatementId) : (i :: p.ancestors i).IsChain (· < ·) := by
  induction i using h.parentsAhead.climb with
  | root i hparent =>
    rw [ancestors_of_parent?_eq_none hparent]
    exact .singleton i
  | child i parent hparent ih =>
    rw [ancestors_of_parent? h.parentsAhead hparent]
    exact .cons_cons (h.parentsAhead i parent hparent).1 ih

end Sealed

/-! ## The tree of a root -/

/-- What lies within a statement, apart from the statement itself, is what has a parent that does. -/
theorem within_iff_of_parent? {x r parent : StatementId} (hparent : p.parent? x = some parent) (hne : x ≠ r) :
    p.Within x r ↔ p.Within parent r := by
  constructor
  · intro hx
    rcases Relation.ReflTransGen.cases_head hx with heq | ⟨q, hq, hwithin⟩
    · exact absurd heq hne
    · rw [hparent] at hq
      exact Option.some.inj hq ▸ hwithin
  · exact fun hwithin => .head hparent hwithin

namespace Sealed

variable (h : p.Sealed)

include h

/-- **A tree by its last ancestors**: within a statement without a parent lies what has it for its last ancestor. -/
theorem within_iff_getLast? {r : StatementId} (hr : p.parent? r = none) (x : StatementId) :
    p.Within x r ↔ x = r ∨ (p.ancestors x).getLast? = some r := by
  induction x using h.parentsAhead.climb with
  | root x hparent =>
    rw [ancestors_of_parent?_eq_none hparent]
    constructor
    · intro hx
      rcases Relation.ReflTransGen.cases_head hx with heq | ⟨q, hq, -⟩
      · exact .inl heq
      · rw [hparent] at hq
        cases hq
    · rintro (rfl | hlast)
      · exact within_self p x
      · cases hlast
  | child x parent hparent ih =>
    have hne : x ≠ r := by
      rintro rfl
      rw [hr] at hparent
      cases hparent
    rw [within_iff_of_parent? hparent hne, ih, ancestors_of_parent? h.parentsAhead hparent, List.getLast?_cons]
    by_cases heq : parent = r
    · simp [heq, ancestors_of_parent?_eq_none hr]
    · cases (p.ancestors parent).getLast? <;> simp [heq, hne]

/-- **A sealed program is a tree.** The parent of a statement is the one that names it as a child; it names it once and
stands after it. Ancestors come to an end, and they ascend. The subtree of the root lists the root and what has the root
for its last ancestor, whatever else there is in the arena. -/
theorem is_tree :
    (∀ c i, p.parent? c = some i ↔ c ∈ p.childrenOf i) ∧
      (∀ c i, p.parent? c = some i → (p.childrenOf i).count c = 1 ∧ c < i) ∧
      (∀ i k, (p.ancestors i)[k]? = (fun q : Option StatementId => q.bind p.parent?)^[k + 1] (some i)) ∧
      (∀ i, (i :: p.ancestors i).Pairwise (· < ·)) ∧
      ∀ x, x ∈ p.subtree p.root ↔ x = p.root ∨ (p.ancestors x).getLast? = some p.root := by
  refine ⟨fun c i => h.parent?_eq_some_iff, ?_, h.getElem?_ancestors, fun i => (h.isChain_ancestors i).pairwise, ?_⟩
  · intro c i hparent
    have hc := h.parent?_eq_some_iff.mp hparent
    exact ⟨List.count_eq_one_of_mem (h.nodup_childrenOf i) hc, h.ordered.lt_of_mem_childrenOf hc⟩
  · intro x
    rw [h.mem_subtree_iff (Nat.le_of_lt h.ordered.root)]
    exact h.within_iff_getLast? h.parent?_root x

end Sealed

/-- A loop that is left at once, after a print that was added and then forgotten. -/
def forgetful : Program where
  nodes := #[⟨none, .leaf (.print (.actor .this))⟩, ⟨some 2, .leaf .breakLoop⟩, ⟨some 3, .sequence [1]⟩,
    ⟨none, .whileDo (.bool (.literal true)) 2⟩]
  root := 3

theorem sealed_forgetful : forgetful.Sealed :=
  ⟨[.leaf (.print (.actor .this)), .leaf .breakLoop, .sequence [1], .whileDo (.bool (.literal true)) 2], 3,
    by decide⟩

/-- The forgotten print is no part of the tree, and the `break` is. -/
theorem forgetful_is_tree :
    forgetful.Sealed ∧ (forgetful.ancestors 1).getLast? = some forgetful.root ∧
      1 ∈ forgetful.subtree forgetful.root ∧ 0 ∉ forgetful.subtree forgetful.root := by
  obtain ⟨-, -, -, -, hsubtree⟩ := sealed_forgetful.is_tree
  have hlast : (forgetful.ancestors 1).getLast? = some forgetful.root := by decide
  refine ⟨sealed_forgetful, hlast, (hsubtree 1).mpr (.inr hlast), ?_⟩
  rw [hsubtree 0]
  decide

end TaskScript.Program
