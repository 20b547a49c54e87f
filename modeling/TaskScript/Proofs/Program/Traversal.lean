import TaskScript.Proofs.Program.Preorder

/-!
# `Proofs.Program.Traversal`: the loop that lists a subtree

A subtree is listed with a stack. What is on top is taken off and listed, and its children are put on the stack so that
the first of them is on top. The loop ends with an empty stack, and it keeps no account of where it has been: nothing
in it would stop it from going round in a circle. `Traversal.Runs` is this loop, without a bound on its rounds.

`Program.visit` is the loop with a bound. In any arena, a walk that stops before its bound has listed what the loop
lists (`Traversal.runs_visit`). In a sealed program the walk along a subtree always does, because there is no statement
that it could come to twice.

## Contents
- `Traversal.round?`, `Traversal.Runs`, `Runs.unique`: **the loop**, which has one way to go.
- `Traversal.runs_visit`: the loop and the walk with a bound.
- `Ordered.eq_preorder`: there is one recursive listing.
- `Sealed.subtree_is_recursive_listing`: **the loop ends, with the recursive listing**.
-/

namespace TaskScript.Program

/-- **A traversal under way**: what it has listed, and its stack, the top of which comes last. -/
structure Traversal where
  listed : List StatementId
  stack : List StatementId

variable {p : Program}

namespace Traversal

/-- **A round of the loop**, unless the stack is empty. The first child is put on the stack last. -/
def round? (p : Program) (t : Traversal) : Option Traversal :=
  t.stack.getLast?.map fun id =>
    { listed := t.listed ++ [id], stack := t.stack.dropLast ++ (p.childrenOf id).reverse }

/-- **The loop runs to its end**, in a number of rounds. -/
inductive Runs (p : Program) : Traversal → Nat → Traversal → Prop
  | stops {t} : t.round? p = none → Runs p t 0 t
  | goesOn {t t' last rounds} : t.round? p = some t' → Runs p t' rounds last → Runs p t (rounds + 1) last

variable {t last last' : Traversal} {rounds rounds' : Nat}

theorem round?_concat (listed stack : List StatementId) (id : StatementId) :
    round? p ⟨listed, stack ++ [id]⟩ = some ⟨listed ++ [id], stack ++ (p.childrenOf id).reverse⟩ := by
  simp [round?]

/-- There is one way for the loop to go. -/
theorem Runs.unique (h : Runs p t rounds last) (h' : Runs p t rounds' last') : rounds' = rounds ∧ last' = last := by
  induction h generalizing rounds' with
  | stops hstop =>
    cases h' with
    | stops _ => exact ⟨rfl, rfl⟩
    | goesOn hround _ => cases hstop.symm.trans hround
  | goesOn hround _ ih =>
    cases h' with
    | stops hstop => cases hstop.symm.trans hround
    | goesOn hround' hrest' =>
      cases hround.symm.trans hround'
      obtain ⟨rfl, rfl⟩ := ih hrest'
      exact ⟨rfl, rfl⟩

/-- **A walk that stops before its bound is the loop**, whatever the arena. What is pending is the stack from its top
down. -/
theorem runs_visit {n : Nat} {pending : List StatementId} (h : (p.visit n pending).length < n)
    (listed : List StatementId) :
    Runs p ⟨listed, pending.reverse⟩ (p.visit n pending).length ⟨listed ++ p.visit n pending, []⟩ := by
  induction n generalizing pending listed with
  | zero => exact absurd h (Nat.not_lt_zero _)
  | succ n ih =>
    cases pending with
    | nil =>
      rw [visit, List.append_nil]
      exact .stops rfl
    | cons id pending =>
      rw [visit, List.length_cons] at h ⊢
      have hrest := ih (Nat.lt_of_succ_lt_succ h) (listed ++ [id])
      rw [List.reverse_append, List.append_assoc, List.singleton_append] at hrest
      rw [List.reverse_cons]
      exact .goesOn (round?_concat listed pending.reverse id) hrest

end Traversal

/-! ## The recursive listing -/

variable {i : StatementId}

/-- **There is one recursive listing**: what lists a statement and then its children lists the pre-order. -/
theorem Ordered.eq_preorder (h : p.Ordered) {list : StatementId → List StatementId}
    (hlist : ∀ j < p.size, list j = j :: (p.childrenOf j).flatMap list) (hi : i < p.size) :
    list i = p.preorder i := by
  induction i using Nat.strongRecOn with
  | _ i ih =>
    have hchildren : ∀ c ∈ p.childrenOf i, list c = p.preorder c := by
      intro c hc
      have hlt := h.lt_of_mem_childrenOf hc
      exact ih c hlt (Nat.lt_trans hlt hi)
    rw [hlist i hi, List.flatMap_congr hchildren, ← h.preorder_eq]

namespace Sealed

variable (h : p.Sealed)

include h

/-- A subtree is listed as its root and then the subtrees of the children. -/
theorem subtree_eq (hi : i < p.size) : p.subtree i = i :: (p.childrenOf i).flatMap p.subtree := by
  have hchildren : ∀ c ∈ p.childrenOf i, p.subtree c = p.preorder c := by
    intro c hc
    exact h.subtree_eq_preorder (Nat.le_of_lt (Nat.lt_trans (h.ordered.lt_of_mem_childrenOf hc) hi))
  rw [h.subtree_eq_preorder (Nat.le_of_lt hi), h.ordered.preorder_eq, List.flatMap_congr hchildren]

/-- The loop comes to its end with what the walk along a subtree lists. -/
theorem runs_subtree (hi : i < p.size) :
    Traversal.Runs p ⟨[], [i]⟩ (p.subtree i).length ⟨p.subtree i, []⟩ := by
  have hlength := h.length_preorder_le i
  rw [← h.subtree_eq_preorder (Nat.le_of_lt hi)] at hlength
  exact Traversal.runs_visit (Nat.lt_of_le_of_lt hlength (Nat.succ_lt_succ hi)) []

/-- **The loop ends, with the recursive listing.** Started on any statement of a sealed program it comes to an end, after
one round for each statement that it lists, and there is no other end for it to come to. It lists the statement, and
then, in the order in which they are run, what it lists for each of the children; nothing else does so, and no statement
is listed twice. -/
theorem subtree_is_recursive_listing :
    ∀ i < p.size,
      (∀ rounds last, Traversal.Runs p ⟨[], [i]⟩ rounds last ↔
        rounds = (p.subtree i).length ∧ last = ⟨p.subtree i, []⟩) ∧
      p.subtree i = i :: (p.childrenOf i).flatMap p.subtree ∧
      (∀ list : StatementId → List StatementId,
        (∀ j < p.size, list j = j :: (p.childrenOf j).flatMap list) → p.subtree i = list i) ∧
      (p.subtree i).Nodup := by
  intro i hi
  refine ⟨fun rounds last => ⟨(h.runs_subtree hi).unique, ?_⟩, h.subtree_eq hi, ?_, ?_⟩
  · rintro ⟨rfl, rfl⟩
    exact h.runs_subtree hi
  · intro list hlist
    rw [h.subtree_eq_preorder (Nat.le_of_lt hi), h.ordered.eq_preorder hlist hi]
  · rw [h.subtree_eq_preorder (Nat.le_of_lt hi)]
    exact h.nodup_preorder i

end Sealed

/-- A loop that is left at once; behind the `break` there is a choice that nobody gets to. -/
def hasty : Program where
  nodes := #[⟨some 2, .leaf .noOp⟩, ⟨some 2, .leaf (.print (.actor .this))⟩,
    ⟨some 4, .ifThen (.bool (.literal true)) 1 (some 0)⟩, ⟨some 4, .leaf .breakLoop⟩, ⟨some 5, .sequence [3, 2]⟩,
    ⟨none, .whileDo (.bool (.literal true)) 4⟩]
  root := 5

theorem sealed_hasty : hasty.Sealed :=
  ⟨[.leaf .noOp, .leaf (.print (.actor .this)), .ifThen (.bool (.literal true)) 1 (some 0), .leaf .breakLoop,
    .sequence [3, 2], .whileDo (.bool (.literal true)) 4], 5, by decide⟩

/-- The statements are listed as they are nested, and not in the order of their names. -/
theorem hasty_is_listed :
    hasty.Sealed ∧ 5 < hasty.size ∧ Traversal.Runs hasty ⟨[], [5]⟩ 6 ⟨[5, 4, 3, 2, 1, 0], []⟩ := by
  have hroot : 5 < hasty.size := by decide
  obtain ⟨hruns, -⟩ := sealed_hasty.subtree_is_recursive_listing 5 hroot
  exact ⟨sealed_hasty, hroot, (hruns 6 _).mpr ⟨rfl, rfl⟩⟩

end TaskScript.Program
