import TaskScript.Program.Formation
import TaskScript.Proofs.Script.Lowering

/-!
# `Proofs.Program.Sealed`: programs that come from a builder

A builder accepts statements in any order and with any names for their children, and `finish` reports the
first defect. So a program that it seals has none: every statement stands after its children in the arena
(`Ordered`). This is what makes walks down the tree end, and what keeps a statement apart from everything
inside it.

## Contents
- `Builder.addAll`: any row of calls of a builder.
- `Builder.ordered_addAll`: **without a defect, children stand before their parents**.
- `Builder.of_finish_eq_ok`: what it takes to seal an arena.
- `Program.Sealed`, `Program.Ordered`, `Sealed.ordered`.
- `le_of_mem_subtree`: a subtree has no later names than its root.
- `sealed_of_build`: the programs of scripts are sealed.
-/

namespace TaskScript

namespace Builder

/-- The builder after some statements were added, one after the other. -/
def addAll (ss : List Statement) (b : Builder) : Builder :=
  ss.foldl (fun b s => (b.add s).1) b

theorem addAll_append (ss ss' : List Statement) (b : Builder) :
    addAll (ss ++ ss') b = addAll ss' (addAll ss b) :=
  List.foldl_append

/-! ## Adopting children -/

/-- Adopting a child changes the parent that is noted next to it, and no statement. -/
theorem statement_adopt (parent : StatementId) (b : Builder) (child i : StatementId) :
    (adopt parent b child).nodes[i]?.map (·.statement) = b.nodes[i]?.map (·.statement) := by
  unfold adopt
  split
  · rfl
  · rfl
  · rename_i node _ hnode
    split
    · rfl
    · rw [Array.getElem?_setIfInBounds]
      split
      · rename_i heq
        subst heq
        rw [hnode]
        split
        · rfl
        · rename_i hbound
          exact absurd (Array.getElem?_eq_some_iff.mp hnode).1 hbound
      · rfl

/-- Only a statement that was added before, and not as the parent itself, is adopted without a defect. -/
theorem lt_of_adopt {parent : StatementId} {b : Builder} {child : StatementId}
    (h : (adopt parent b child).defect = none) :
    b.defect = none ∧ child < b.nodes.size ∧ child ≠ parent := by
  unfold adopt at h
  split at h
  · rename_i hdefect
    exact absurd (hdefect.symm.trans h) (Option.some_ne_none _)
  · cases h
  · rename_i node hdefect hnode
    split at h
    · cases h
    · rename_i hfree
      exact ⟨hdefect, (Array.getElem?_eq_some_iff.mp hnode).1, fun heq => hfree (.inl heq)⟩

theorem statement_foldl_adopt (parent : StatementId) (children : List StatementId) (b : Builder)
    (i : StatementId) :
    (children.foldl (adopt parent) b).nodes[i]?.map (·.statement) = b.nodes[i]?.map (·.statement) := by
  induction children generalizing b with
  | nil => rfl
  | cons c rest ih => rw [List.foldl_cons, ih, statement_adopt]

theorem size_adopt (parent : StatementId) (b : Builder) (child : StatementId) :
    (adopt parent b child).nodes.size = b.nodes.size := by
  unfold adopt
  split
  · rfl
  · rfl
  · split
    · rfl
    · exact Array.size_setIfInBounds

/-- A defect stays, so without one every child was adopted without one. -/
theorem lt_of_foldl_adopt {parent : StatementId} {children : List StatementId} {b : Builder}
    (h : (children.foldl (adopt parent) b).defect = none) :
    b.defect = none ∧ ∀ c ∈ children, c < b.nodes.size ∧ c ≠ parent := by
  induction children generalizing b with
  | nil => exact ⟨h, fun c hc => absurd hc List.not_mem_nil⟩
  | cons c rest ih =>
    obtain ⟨hfirst, hrest⟩ := ih h
    obtain ⟨hdefect, hlt, hne⟩ := lt_of_adopt hfirst
    refine ⟨hdefect, fun c' hc' => ?_⟩
    rcases List.mem_cons.mp hc' with rfl | hc'
    · exact ⟨hlt, hne⟩
    · rw [← size_adopt parent b c]
      exact hrest c' hc'

/-! ## Adding statements -/

/-- Every statement of the arena stands after its children. -/
def Ordered (b : Builder) : Prop :=
  ∀ (i : StatementId) (st : Statement), b.nodes[i]?.map Node.statement = some st →
    ∀ c ∈ st.children, c < i

/-- A defect stays. -/
theorem defect_add {b : Builder} {s : Statement} (h : (b.add s).1.defect = none) : b.defect = none :=
  (lt_of_foldl_adopt h).1

theorem Ordered.add {b : Builder} (h : b.Ordered) (s : Statement) (hdefect : (b.add s).1.defect = none) :
    (b.add s).1.Ordered := by
  intro i st hst c hc
  have hchildren := (lt_of_foldl_adopt hdefect).2
  have hlookup : (b.nodes.push { parent := none, statement := s })[i]?.map (·.statement) = some st :=
    (statement_foldl_adopt b.nodes.size s.children
      { b with nodes := b.nodes.push { parent := none, statement := s } } i).symm.trans hst
  rw [Array.getElem?_push] at hlookup
  split at hlookup
  · -- the new statement: its children were adopted, and are not the statement itself
    rename_i hi
    subst hi
    cases hlookup
    obtain ⟨hlt, hne⟩ := hchildren c hc
    rw [Array.size_push] at hlt
    exact Nat.lt_of_le_of_ne (Nat.le_of_lt_succ hlt) hne
  · exact h i st hlookup c hc

/-- A defect stays, whatever is added. -/
theorem defect_addAll (ss : List Statement) {b : Builder} (h : (addAll ss b).defect = none) : b.defect = none := by
  induction ss generalizing b with
  | nil => exact h
  | cons s rest ih => exact defect_add (ih h)

/-- **Without a defect, children stand before their parents.** -/
theorem ordered_addAll (ss : List Statement) {b : Builder} (h : b.Ordered)
    (hdefect : (addAll ss b).defect = none) : (addAll ss b).Ordered := by
  induction ss generalizing b with
  | nil => exact h
  | cons s rest ih => exact ih (h.add s (defect_addAll rest hdefect)) hdefect

/-- Only an arena without a defect is sealed, and only under a statement of it that has no parent. -/
theorem of_finish_eq_ok {b : Builder} {root : StatementId} {p : Program} (h : b.finish root = .ok p) :
    b.defect = none ∧ p = { nodes := b.nodes, root } ∧ root < p.size ∧ p.parent? root = none := by
  unfold finish at h
  split at h
  · cases h
  · cases h
  · rename_i node hdefect hnode
    split at h
    · cases h
    · rename_i horphan
      cases h
      refine ⟨hdefect, rfl, (Array.getElem?_eq_some_iff.mp hnode).1, ?_⟩
      rw [Program.parent?, hnode, Option.bind_some]
      simpa using horphan

end Builder

namespace Program

variable {p : Program}

/-- **A program that a builder sealed**, whatever calls it was made by. -/
def Sealed (p : Program) : Prop :=
  ∃ ss root, (Builder.addAll ss {}).finish root = .ok p

/-- Every statement stands after its children in the arena, and the root is one of its statements. -/
structure Ordered (p : Program) : Prop where
  root : p.root < p.size
  child_lt : ∀ {i : StatementId} {st : Statement},
    p.statement? i = some st → ∀ {c : StatementId}, c ∈ st.children → c < i

/-- A builder seals an arena without a defect, under one of its statements. -/
theorem Sealed.ordered (h : p.Sealed) : p.Ordered := by
  obtain ⟨ss, root, hfinish⟩ := h
  obtain ⟨hdefect, rfl, hroot, -⟩ := Builder.of_finish_eq_ok hfinish
  have hempty : Builder.Ordered {} := fun i st hst => by cases hst
  constructor
  · exact hroot
  · intro i st hst c hc
    exact Builder.ordered_addAll ss hempty hdefect i st hst c hc

theorem statement?_of_lt {i : StatementId} (h : i < p.size) : ∃ st, p.statement? i = some st := by
  refine ⟨p.nodes[i].statement, ?_⟩
  rw [statement?, Array.getElem?_eq_getElem h]
  rfl

theorem lt_of_statement? {i : StatementId} {st : Statement} (h : p.statement? i = some st) : i < p.size := by
  obtain ⟨node, hnode, -⟩ := Option.map_eq_some_iff.mp h
  exact (Array.getElem?_eq_some_iff.mp hnode).1

theorem Ordered.le_of_mem_visit (h : p.Ordered) {n : Nat} {pending : List StatementId} {x : StatementId}
    (hx : x ∈ p.visit n pending) : ∃ y ∈ pending, x ≤ y := by
  induction n generalizing pending with
  | zero => cases hx
  | succ n ih =>
    cases pending with
    | nil => cases hx
    | cons id pending =>
      rcases List.mem_cons.mp hx with rfl | hx
      · exact ⟨x, List.mem_cons_self, Nat.le_refl x⟩
      · obtain ⟨y, hy, hxy⟩ := ih hx
        rcases List.mem_append.mp hy with hy | hy
        · -- what is below a child of a visited statement is below the statement
          obtain ⟨st, hst, hchild⟩ : ∃ st, p.statement? id = some st ∧ y ∈ st.children := by
            rw [childrenOf] at hy
            cases hst : p.statement? id with
            | none =>
              rw [hst] at hy
              cases hy
            | some st =>
              rw [hst] at hy
              exact ⟨st, rfl, hy⟩
          exact ⟨id, List.mem_cons_self, Nat.le_trans hxy (Nat.le_of_lt (h.child_lt hst hchild))⟩
        · exact ⟨y, List.mem_cons_of_mem _ hy, hxy⟩

/-- **A subtree has no later names than its root.** -/
theorem Ordered.le_of_mem_subtree (h : p.Ordered) {i x : StatementId} (hx : x ∈ p.subtree i) : x ≤ i := by
  obtain ⟨y, hy, hxy⟩ := h.le_of_mem_visit hx
  rwa [List.mem_singleton.mp hy] at hxy

end Program

/-! ## The programs of scripts -/

namespace Script

theorem lowerAll_eq_addAll_of {ss : List Script} (h : ∀ s ∈ ss, ∀ b, ∃ sts, (s.lower b).1 = Builder.addAll sts b)
    (b : Builder) : ∃ sts, (lowerAll ss b).1 = Builder.addAll sts b := by
  induction ss generalizing b with
  | nil => exact ⟨[], rfl⟩
  | cons s rest ih =>
    obtain ⟨sts, hs⟩ := h s List.mem_cons_self b
    obtain ⟨sts', hrest⟩ := ih (fun t ht => h t (List.mem_cons_of_mem _ ht)) (s.lower b).1
    refine ⟨sts ++ sts', ?_⟩
    rw [Builder.addAll_append, ← hs, ← hrest]
    rfl

/-- Lowering a script is a row of calls of the builder. -/
theorem lower_eq_addAll (s : Script) (b : Builder) : ∃ sts, (s.lower b).1 = Builder.addAll sts b := by
  induction s using childInduction generalizing b with
  | step s ih =>
    obtain ⟨sts, hchildren⟩ := lowerAll_eq_addAll_of ih b
    refine ⟨sts ++ [s.head (lowerAll s.children b).2], ?_⟩
    rw [lower_eq_add, hchildren, Builder.addAll_append]
    rfl

/-- **The programs of scripts are sealed.** -/
theorem sealed_of_build {s : Script} {p : Program} (h : s.build = .ok p) : p.Sealed := by
  obtain ⟨sts, hlower⟩ := lower_eq_addAll s {}
  refine ⟨sts, (s.lower {}).2, ?_⟩
  rw [← hlower]
  exact h

end Script

end TaskScript
