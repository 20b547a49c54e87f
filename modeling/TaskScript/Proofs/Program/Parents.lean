import Mathlib.Logic.Relation
import TaskScript.Proofs.Program.Sealed
import TaskScript.Proofs.Program.Tree

/-!
# `Proofs.Program.Parents`: parents and children

An arena says twice how its statements are nested: a statement names its children, and next to a statement stands
its parent. The two are written at different times. A builder notes a parent when it adopts a child, long after the
child was added, and it notes none once there is a defect.

In a program that a builder has sealed the two agree (`Sealed.parent?_eq_some_iff`), and no statement names a child
twice. So what lies inside a statement lies inside exactly one of its children (`Sealed.eq_of_within`), which is
what keeps the branches of a tree apart.

## Contents
- `Builder.parentOf`, `Builder.childrenOf`, `parent_foldl_adopt`: **adoption**.
- `Builder.Agreeing`, `Agreeing.addAll`.
- `Sealed.parent?_eq_some_iff`, `Sealed.nodup_childrenOf`, `Sealed.parentsAhead`.
- `Program.Within`: a statement and everything inside it, by parents.
-/

namespace TaskScript

namespace Builder

variable {b : Builder} {parent child i : StatementId} {s : Statement}

/-- The parent that is noted next to a statement. -/
def parentOf (b : Builder) (i : StatementId) : Option StatementId :=
  b.nodes[i]?.bind (·.parent)

/-- The children that a statement names. -/
def childrenOf (b : Builder) (i : StatementId) : List StatementId :=
  (b.nodes[i]?.map (·.statement)).elim [] Statement.children

/-! ## Adoption -/

/-- Only a statement without a parent is adopted without a defect, and then it has one. -/
theorem parent_adopt (h : (adopt parent b child).defect = none) :
    b.parentOf child = none ∧
      ∀ i, (adopt parent b child).parentOf i = if i = child then some parent else b.parentOf i := by
  unfold adopt at h ⊢
  split at h
  · rename_i hdefect
    exact absurd (hdefect.symm.trans h) (Option.some_ne_none _)
  · cases h
  · rename_i node hdefect hnode
    split at h
    · cases h
    · rename_i hfree
      have hparent : node.parent = none := by
        simpa using fun hsome => hfree (.inr hsome)
      refine ⟨by rw [parentOf, hnode, Option.bind_some, hparent], fun i => ?_⟩
      rw [if_neg hfree, parentOf, Array.getElem?_setIfInBounds]
      have hlt := (Array.getElem?_eq_some_iff.mp hnode).1
      by_cases hi : i = child
      · rw [if_pos hi.symm, if_pos hi, if_pos (hi ▸ hlt)]
        rfl
      · rw [if_neg (Ne.symm hi), if_neg hi]
        rfl

/-- A row of children that are adopted without a defect has no child twice, and none that has a parent already. -/
theorem parent_foldl_adopt {children : List StatementId} (h : (children.foldl (adopt parent) b).defect = none) :
    children.Nodup ∧ (∀ c ∈ children, b.parentOf c = none) ∧
      ∀ i, (children.foldl (adopt parent) b).parentOf i = if i ∈ children then some parent else b.parentOf i := by
  induction children generalizing b with
  | nil => exact ⟨.nil, fun c hc => absurd hc List.not_mem_nil, fun i => (if_neg List.not_mem_nil).symm⟩
  | cons c rest ih =>
    obtain ⟨hnodup, hfree, hparents⟩ := ih h
    have hrest : (rest.foldl (adopt parent) (adopt parent b c)).defect = none := h
    obtain ⟨hc, hadopted⟩ := parent_adopt (lt_of_foldl_adopt hrest).1
    -- the child has a parent by now, so the rest does not hold it
    have hnew : c ∉ rest := by
      intro hmem
      have hnone := hfree c hmem
      rw [hadopted, if_pos rfl] at hnone
      cases hnone
    refine ⟨List.nodup_cons.mpr ⟨hnew, hnodup⟩, ?_, fun i => ?_⟩
    · intro c' hc'
      rcases List.mem_cons.mp hc' with rfl | hc'
      · exact hc
      · have hnone := hfree c' hc'
        rwa [hadopted, if_neg fun heq : c' = c => hnew (heq ▸ hc')] at hnone
    · rw [List.foldl_cons, hparents, hadopted]
      by_cases hi : i = c
      · subst hi
        rw [if_neg hnew, if_pos rfl, if_pos List.mem_cons_self]
      · simp [hi]

/-! ## Adding statements -/

/-- **What the parents and what the children say is the same**, and no child is named twice. -/
structure Agreeing (b : Builder) : Prop where
  parent_iff : ∀ c i, b.parentOf c = some i ↔ c ∈ b.childrenOf i
  nodup : ∀ i, (b.childrenOf i).Nodup

theorem parentOf_of_size_le (h : b.nodes.size ≤ i) : b.parentOf i = none := by
  rw [parentOf, Array.getElem?_eq_none h]
  rfl

theorem childrenOf_of_size_le (h : b.nodes.size ≤ i) : b.childrenOf i = [] := by
  rw [childrenOf, Array.getElem?_eq_none h]
  rfl

/-- A statement stands alone before it adopts its children. -/
theorem parentOf_push (b : Builder) (s : Statement) (i : StatementId) :
    Builder.parentOf { b with nodes := b.nodes.push { parent := none, statement := s } } i = b.parentOf i := by
  rw [parentOf, Array.getElem?_push]
  split
  · rename_i hi
    rw [parentOf_of_size_le (Nat.le_of_eq hi.symm)]
    rfl
  · rfl

/-- A statement that is added names its children, and all others name theirs as before. -/
theorem childrenOf_add (b : Builder) (s : Statement) (i : StatementId) :
    (b.add s).1.childrenOf i = if i = b.nodes.size then s.children else b.childrenOf i := by
  have hlookup := statement_foldl_adopt b.nodes.size s.children
    { b with nodes := b.nodes.push { parent := none, statement := s } } i
  rw [childrenOf, show (b.add s).1 = s.children.foldl (adopt b.nodes.size) _ from rfl, hlookup,
    Array.getElem?_push]
  split
  · rfl
  · rfl

theorem Agreeing.add (h : b.Agreeing) (hdefect : (b.add s).1.defect = none) : (b.add s).1.Agreeing := by
  obtain ⟨hnodup, hfree, hparents⟩ := parent_foldl_adopt hdefect
  have hparent : ∀ i, (b.add s).1.parentOf i = if i ∈ s.children then some b.nodes.size else b.parentOf i := by
    intro i
    rw [← parentOf_push b s]
    exact hparents i
  refine ⟨fun c i => ?_, fun i => ?_⟩
  · rw [hparent, childrenOf_add]
    by_cases hc : c ∈ s.children
    · -- a child of the new statement had no parent, so it was nobody's child
      have horphan : b.parentOf c = none := (parentOf_push b s c).symm.trans (hfree c hc)
      have hnowhere : c ∉ b.childrenOf i := by
        intro hmem
        rw [(h.parent_iff c i).mpr hmem] at horphan
        cases horphan
      rw [if_pos hc, Option.some.injEq]
      by_cases hi : i = b.nodes.size
      · rw [if_pos hi]
        exact iff_of_true hi.symm hc
      · rw [if_neg hi]
        exact iff_of_false (Ne.symm hi) hnowhere
    · rw [if_neg hc, h.parent_iff]
      by_cases hi : i = b.nodes.size
      · rw [if_pos hi, childrenOf_of_size_le (Nat.le_of_eq hi.symm)]
        exact iff_of_false List.not_mem_nil hc
      · rw [if_neg hi]
  · rw [childrenOf_add]
    split
    · exact hnodup
    · exact h.nodup i

/-- **Without a defect, parents and children agree.** -/
theorem Agreeing.addAll (ss : List Statement) (h : b.Agreeing) (hdefect : (Builder.addAll ss b).defect = none) :
    (Builder.addAll ss b).Agreeing := by
  induction ss generalizing b with
  | nil => exact h
  | cons s rest ih => exact ih (h.add (defect_addAll rest hdefect)) hdefect

theorem agreeing_empty : Agreeing {} where
  parent_iff c i := by
    rw [parentOf_of_size_le (Nat.zero_le c), childrenOf_of_size_le (Nat.zero_le i)]
    exact iff_of_false nofun List.not_mem_nil
  nodup i := by
    rw [childrenOf_of_size_le (Nat.zero_le i)]
    exact .nil

end Builder

namespace Program

variable {p : Program} {c i x : StatementId}

/-! ## Sealed programs -/

theorem childrenOf_eq_elim (p : Program) (i : StatementId) :
    p.childrenOf i = (p.statement? i).elim [] Statement.children := by
  unfold childrenOf
  cases p.statement? i <;> rfl

/-- What a builder that seals a program leaves in its arena. -/
theorem Sealed.agreeing (h : p.Sealed) :
    (∀ c i, p.parent? c = some i ↔ c ∈ p.childrenOf i) ∧ (∀ i, (p.childrenOf i).Nodup) ∧
      p.parent? p.root = none := by
  obtain ⟨ss, root, hfinish⟩ := h
  obtain ⟨hdefect, rfl, -, horphan⟩ := Builder.of_finish_eq_ok hfinish
  have hagree := Builder.agreeing_empty.addAll ss hdefect
  refine ⟨fun c i => ?_, fun i => ?_, horphan⟩
  · rw [childrenOf_eq_elim]
    exact hagree.parent_iff c i
  · rw [childrenOf_eq_elim]
    exact hagree.nodup i

/-- **The parent of a statement is the one that names it as a child.** -/
theorem Sealed.parent?_eq_some_iff (h : p.Sealed) : p.parent? c = some i ↔ c ∈ p.childrenOf i :=
  h.agreeing.1 c i

/-- **No statement names a child twice.** -/
theorem Sealed.nodup_childrenOf (h : p.Sealed) (i : StatementId) : (p.childrenOf i).Nodup :=
  h.agreeing.2.1 i

theorem Sealed.parent?_root (h : p.Sealed) : p.parent? p.root = none :=
  h.agreeing.2.2

theorem exists_of_mem_childrenOf (h : c ∈ p.childrenOf i) :
    ∃ st, p.statement? i = some st ∧ c ∈ st.children := by
  rw [childrenOf] at h
  split at h
  · rename_i st hst
    exact ⟨st, hst, h⟩
  · cases h

theorem childrenOf_of_statement? {st : Statement} (hst : p.statement? i = some st) : p.childrenOf i = st.children := by
  rw [childrenOf, hst]

theorem mem_childrenOf {st : Statement} (hst : p.statement? i = some st) (hc : c ∈ st.children) :
    c ∈ p.childrenOf i := by
  rw [childrenOf_of_statement? hst]
  exact hc

theorem Ordered.lt_of_mem_childrenOf (h : p.Ordered) (hc : c ∈ p.childrenOf i) : c < i := by
  obtain ⟨st, hst, hchild⟩ := exists_of_mem_childrenOf hc
  exact h.child_lt hst hchild

theorem Sealed.parentsAhead (h : p.Sealed) : p.ParentsAhead := by
  intro c i hparent
  have hc := h.parent?_eq_some_iff.mp hparent
  obtain ⟨st, hst, -⟩ := exists_of_mem_childrenOf hc
  exact ⟨h.ordered.lt_of_mem_childrenOf hc, lt_of_statement? hst⟩

/-! ## Inside a statement -/

/-- **What lies within a statement**: the statement itself, and everything that parents lead from to it. -/
def Within (p : Program) : StatementId → StatementId → Prop :=
  Relation.ReflTransGen fun inner outer => p.parent? inner = some outer

theorem within_self (p : Program) (i : StatementId) : p.Within i i :=
  .refl

theorem Sealed.within_child (h : p.Sealed) (hc : c ∈ p.childrenOf i) (hx : p.Within x c) : p.Within x i :=
  hx.tail (h.parent?_eq_some_iff.mpr hc)

/-- What lies within a statement is the statement, or lies within one of its children. -/
theorem Sealed.within_iff (h : p.Sealed) : p.Within x i ↔ x = i ∨ ∃ c ∈ p.childrenOf i, p.Within x c := by
  constructor
  · intro hx
    rcases Relation.ReflTransGen.cases_tail hx with heq | ⟨c, hxc, hparent⟩
    · exact .inl heq.symm
    · exact .inr ⟨c, h.parent?_eq_some_iff.mp hparent, hxc⟩
  · rintro (rfl | ⟨c, hc, hxc⟩)
    · exact within_self p x
    · exact h.within_child hc hxc

theorem Sealed.le_of_within (h : p.Sealed) (hx : p.Within x i) : x ≤ i := by
  induction hx with
  | refl => exact Nat.le_refl x
  | tail _ hparent ih => exact Nat.le_trans ih (Nat.le_of_lt (h.parentsAhead _ _ hparent).1)

/-- A statement does not lie within its children. -/
theorem Sealed.not_within_child (h : p.Sealed) (hc : c ∈ p.childrenOf i) : ¬ p.Within i c := by
  intro hi
  have hle := h.le_of_within hi
  have hlt := h.ordered.lt_of_mem_childrenOf hc
  exact Nat.lt_irrefl c (Nat.lt_of_lt_of_le hlt hle)

/-- **Siblings have nothing in common**: what lies within two children of a statement tells that they are one. -/
theorem Sealed.eq_of_within (h : p.Sealed) {c' : StatementId} (hc : c ∈ p.childrenOf i) (hc' : c' ∈ p.childrenOf i)
    (hx : p.Within x c) (hx' : p.Within x c') : c = c' := by
  have hinside : ∀ {c c'}, c ∈ p.childrenOf i → c' ∈ p.childrenOf i → p.Within c c' → c = c' := by
    intro c c' hc hc' hcc'
    rcases Relation.ReflTransGen.cases_head hcc' with heq | ⟨j, hparent, hj⟩
    · exact heq
    · -- the parent of the one would lie within the other
      obtain rfl := Option.some.inj ((h.parent?_eq_some_iff.mpr hc).symm.trans hparent)
      exact absurd hj (h.not_within_child hc')
  have hunique : Relator.RightUnique fun inner outer : StatementId => p.parent? inner = some outer :=
    fun _ _ _ hj hk => Option.some.inj (hj.symm.trans hk)
  rcases Relation.ReflTransGen.total_of_right_unique hunique hx hx' with hcc' | hcc'
  · exact hinside hc hc' hcc'
  · exact (hinside hc' hc hcc').symm

end Program

end TaskScript
