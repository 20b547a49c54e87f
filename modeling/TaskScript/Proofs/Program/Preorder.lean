import Mathlib.Data.List.Nodup
import Mathlib.Data.List.Perm.Subperm
import TaskScript.Proofs.Program.Parents

/-!
# `Proofs.Program.Preorder`: what a subtree lists

A subtree is listed by a walk over pending statements that stops after a number of visits, whether or not it has seen
everything. `Program.preorder` is the listing that the walk stands for, one statement and then the listings of its
children. The two are the same in a program that a builder has sealed: such a listing has no statement twice
(`Sealed.nodup_preorder`), so it is no longer than the arena, and the walk gets to its end.

Hence a subtree lists exactly what lies within its root (`Sealed.mem_subtree_iff`), and a program that passes the
formation check has no defect anywhere within its root (`Sealed.defectAt?_eq_none`).

## Contents
- `Program.listing`, `Program.preorder`, `Ordered.preorder_eq`, `Ordered.visit_eq_take`.
- `Sealed.mem_preorder_iff`, `Sealed.nodup_preorder`.
- `Sealed.subtree_eq_preorder`, `Sealed.mem_subtree_iff`: **the walk gets to its end**.
- `Sealed.defectAt?_eq_none`: **what the formation check promises**.
-/

namespace TaskScript.Program

variable {p : Program} {i x : StatementId}

/-! ## Pre-order -/

/-- A statement and what is inside it in pre-order, down to a given depth. -/
def listing (p : Program) : Nat → StatementId → List StatementId
  | 0, _ => []
  | n + 1, id => id :: (p.childrenOf id).flatMap (p.listing n)

/-- A statement and everything inside it, in pre-order. No tree is deeper than the place of its root in the arena. -/
def preorder (p : Program) (id : StatementId) : List StatementId :=
  p.listing (id + 1) id

/-- Depth beyond the place of a statement in the arena adds nothing. -/
theorem Ordered.listing_eq (h : p.Ordered) {n m : Nat} (hn : i < n) (hm : i < m) : p.listing n i = p.listing m i := by
  induction n generalizing m i with
  | zero => exact absurd hn (Nat.not_lt_zero i)
  | succ n ih =>
    obtain ⟨m, rfl⟩ : ∃ k, m = k + 1 := Nat.exists_eq_add_of_le' (Nat.zero_lt_of_lt hm)
    have hchildren : ∀ c ∈ p.childrenOf i, p.listing n c = p.listing m c := by
      intro c hc
      have hlt := h.lt_of_mem_childrenOf hc
      exact ih (Nat.lt_of_lt_of_le hlt (Nat.le_of_lt_succ hn)) (Nat.lt_of_lt_of_le hlt (Nat.le_of_lt_succ hm))
    rw [listing, listing, List.flatMap_congr hchildren]

/-- **The pre-order of a tree**: its root, and then the pre-orders of its branches. -/
theorem Ordered.preorder_eq (h : p.Ordered) (i : StatementId) :
    p.preorder i = i :: (p.childrenOf i).flatMap p.preorder := by
  have hchildren : ∀ c ∈ p.childrenOf i, p.listing i c = p.preorder c := fun c hc =>
    h.listing_eq (h.lt_of_mem_childrenOf hc) (Nat.lt_succ_self c)
  rw [preorder, listing, List.flatMap_congr hchildren]

/-- A walk lists the pre-orders of what is pending, as far as it gets. -/
theorem Ordered.visit_eq_take (h : p.Ordered) (n : Nat) (pending : List StatementId) :
    p.visit n pending = (pending.flatMap p.preorder).take n := by
  induction n generalizing pending with
  | zero => rfl
  | succ n ih =>
    cases pending with
    | nil => rfl
    | cons id pending =>
      rw [visit, ih, List.flatMap_cons, List.flatMap_append, h.preorder_eq id, List.cons_append, List.take_succ_cons]

/-! ## The pre-order of a sealed program -/

/-- **The pre-order of a statement holds what lies within it.** -/
theorem Sealed.mem_preorder_iff (h : p.Sealed) : x ∈ p.preorder i ↔ p.Within x i := by
  induction i using Nat.strongRecOn generalizing x with
  | _ i ih =>
    rw [h.ordered.preorder_eq, List.mem_cons, List.mem_flatMap, h.within_iff]
    constructor
    · rintro (heq | ⟨c, hc, hx⟩)
      · exact .inl heq
      · exact .inr ⟨c, hc, (ih c (h.ordered.lt_of_mem_childrenOf hc)).mp hx⟩
    · rintro (heq | ⟨c, hc, hx⟩)
      · exact .inl heq
      · exact .inr ⟨c, hc, (ih c (h.ordered.lt_of_mem_childrenOf hc)).mpr hx⟩

/-- **A pre-order has no statement twice**: branches have nothing in common. -/
theorem Sealed.nodup_preorder (h : p.Sealed) (i : StatementId) : (p.preorder i).Nodup := by
  induction i using Nat.strongRecOn with
  | _ i ih =>
    rw [h.ordered.preorder_eq, List.nodup_cons, List.nodup_flatMap]
    refine ⟨?_, fun c hc => ih c (h.ordered.lt_of_mem_childrenOf hc), ?_⟩
    · intro hmem
      obtain ⟨c, hc, hi⟩ := List.mem_flatMap.mp hmem
      exact h.not_within_child hc (h.mem_preorder_iff.mp hi)
    · refine (h.nodup_childrenOf i).imp_of_mem fun {c c'} hc hc' hne x hx hx' => hne ?_
      exact h.eq_of_within hc hc' (h.mem_preorder_iff.mp hx) (h.mem_preorder_iff.mp hx')

/-- A pre-order has no more statements than there are names up to its root. -/
theorem Sealed.length_preorder_le (h : p.Sealed) (i : StatementId) : (p.preorder i).length ≤ i + 1 := by
  have hnames : p.preorder i ⊆ List.range (i + 1) := fun x hx =>
    List.mem_range.mpr (Nat.lt_succ_of_le (h.le_of_within (h.mem_preorder_iff.mp hx)))
  have hlength := ((h.nodup_preorder i).subperm hnames).length_le
  rwa [List.length_range] at hlength

/-! ## Subtrees -/

/-- **A subtree is the pre-order of its root**: the walk gets to its end. -/
theorem Sealed.subtree_eq_preorder (h : p.Sealed) (hi : i ≤ p.size) : p.subtree i = p.preorder i := by
  have hlength := h.length_preorder_le i
  rw [subtree, h.ordered.visit_eq_take, List.flatMap_singleton]
  exact List.take_of_length_le (Nat.le_trans hlength (Nat.succ_le_succ hi))

/-- **A subtree lists what lies within its root**, and nothing else. -/
theorem Sealed.mem_subtree_iff (h : p.Sealed) (hi : i ≤ p.size) : x ∈ p.subtree i ↔ p.Within x i := by
  rw [h.subtree_eq_preorder hi]
  exact h.mem_preorder_iff

/-- **What the formation check promises**: no statement within the root breaks a rule. -/
theorem Sealed.defectAt?_eq_none (h : p.Sealed) (hcheck : p.check = .ok ()) (hx : p.Within x p.root) :
    p.defectAt? x = none := by
  have hnone := (check_eq_ok_iff_findSome? p).mp hcheck
  exact List.findSome?_eq_none_iff.mp hnone x ((h.mem_subtree_iff (Nat.le_of_lt h.ordered.root)).mpr hx)

end TaskScript.Program
