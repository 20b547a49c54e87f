import Mathlib.Data.List.Forall2
import TaskScript.Script

/-!
# `Proofs.Script.Lowering`: the arena that a script is lowered to

Lowering adds a script to a builder in post-order.  This module says what the arena looks like when it is
done: `Script.nodes` is the segment of a script, `Script.lower_eq` says that lowering appends exactly this
segment, and `Script.build_eq` that a script always builds.

Most facts hold of the five forms of scripts for the same reason, so scripts are seen through their list of
children: `Script.children` with the induction `Script.childInduction`, and `Script.head` for the statement
of a script once its children have names.

## Contents
- **Children view**: `children`, `head`, `childInduction`.
- **The segment**: `size`, `rootAt`, `roots`, `inner`, `nodes`.
- **Lowering**: `lower_eq`, `build_eq`.
- **Reading back**: `NodesAt`, a segment inside an arena, and `Script.At`, a script found under a name.
-/

namespace TaskScript

namespace Script

/-! ## A script and its children -/

/-- The scripts directly inside a script, in the order in which they are run. -/
def children : Script → List Script
  | .sequence body => body
  | .ifThen _ thenBranch otherwise => thenBranch :: otherwise.toList
  | .whileDo _ body => [body]
  | .leaf _ => []

/-- The statement of a script whose children have the names `ids`. -/
def head : Script → List StatementId → Statement
  | .sequence _, ids => .sequence ids
  | .ifThen condition _ _, ids => .ifThen condition (ids.headD 0) ids[1]?
  | .whileDo condition _, ids => .whileDo condition (ids.headD 0)
  | .leaf l, _ => .leaf l

theorem sizeOf_lt_of_mem_children {c : Script} {s : Script} (h : c ∈ s.children) :
    sizeOf c < sizeOf s := by
  cases s with
  | sequence body =>
    have := List.sizeOf_lt_of_mem (show c ∈ body from h)
    simp only [sequence.sizeOf_spec]; omega
  | ifThen condition thenBranch otherwise =>
    rcases List.mem_cons.mp h with rfl | ho
    · simp only [ifThen.sizeOf_spec]; omega
    · rw [Option.mem_toList.mp ho]
      simp only [ifThen.sizeOf_spec, Option.some.sizeOf_spec]; omega
  | whileDo condition body =>
    rw [List.mem_singleton.mp h]
    simp only [whileDo.sizeOf_spec]; omega
  | leaf l => exact absurd h List.not_mem_nil

/-- **Induction over scripts**, whatever their form: what holds of a script once it holds of its children
holds of every script. -/
@[elab_as_elim]
theorem childInduction {motive : Script → Prop}
    (step : ∀ s : Script, (∀ c ∈ s.children, motive c) → motive s) (s : Script) : motive s :=
  step s fun c _ => childInduction step c
termination_by sizeOf s
decreasing_by exact sizeOf_lt_of_mem_children ‹_›

/-- The named children of the statement are the names it was given. -/
theorem children_head {s : Script} {ids : List StatementId} (h : ids.length = s.children.length) :
    (s.head ids).children = ids := by
  cases s with
  | sequence body => rfl
  | ifThen condition thenBranch otherwise =>
    cases otherwise with
    | none =>
      obtain ⟨a, rfl⟩ := List.length_eq_one_iff.mp h
      rfl
    | some otherwise =>
      obtain ⟨a, tail, rfl⟩ := List.exists_cons_of_length_eq_add_one h
      obtain ⟨b, rfl⟩ := List.length_eq_one_iff.mp (Nat.succ.inj h)
      rfl
  | whileDo condition body =>
    obtain ⟨a, rfl⟩ := List.length_eq_one_iff.mp h
    rfl
  | leaf l =>
    obtain rfl := List.length_eq_zero_iff.mp h
    rfl

/-! ## The segment of a script -/

mutual

/-- How many statements a script consists of. -/
def size : Script → Nat
  | .sequence body => sizeAll body + 1
  | .ifThen _ thenBranch none => thenBranch.size + 1
  | .ifThen _ thenBranch (some otherwise) => thenBranch.size + otherwise.size + 1
  | .whileDo _ body => body.size + 1
  | .leaf _ => 1
termination_by structural s => s

/-- How many statements some scripts consist of together. -/
def sizeAll : List Script → Nat
  | [] => 0
  | s :: rest => s.size + sizeAll rest
termination_by structural ss => ss

end

/-- The name of a script's own statement, the first of its statements being named `n`. -/
def rootAt (s : Script) (n : Nat) : Nat :=
  n + s.size - 1

/-- The names of the own statements of scripts that stand one after the other from `n` on. -/
def roots : List Script → Nat → List StatementId
  | [], _ => []
  | s :: rest, n => s.rootAt n :: roots rest (n + s.size)

/-- The statement of a script, the first of its statements being named `n`. -/
def statementAt (s : Script) (n : Nat) : Statement :=
  s.head (roots s.children n)

mutual

/-- The nodes of everything inside a script, the first of them being named `n`. -/
def inner : Script → Nat → List Node
  | .sequence body, n => nodesAll body (some (n + sizeAll body)) n
  | .ifThen _ thenBranch none, n =>
    let id := n + thenBranch.size
    thenBranch.inner n ++ [⟨some id, thenBranch.statementAt n⟩]
  | .ifThen _ thenBranch (some otherwise), n =>
    let id := n + (thenBranch.size + otherwise.size)
    thenBranch.inner n ++ [⟨some id, thenBranch.statementAt n⟩] ++
      (otherwise.inner (n + thenBranch.size) ++ [⟨some id, otherwise.statementAt (n + thenBranch.size)⟩])
  | .whileDo _ body, n => body.inner n ++ [⟨some (n + body.size), body.statementAt n⟩]
  | .leaf _, _ => []
termination_by structural s => s

/-- The nodes of scripts that stand one after the other under one parent, from `n` on. -/
def nodesAll : List Script → Option StatementId → Nat → List Node
  | [], _, _ => []
  | s :: rest, parent, n => s.inner n ++ [⟨parent, s.statementAt n⟩] ++ nodesAll rest parent (n + s.size)
termination_by structural ss => ss

end

/-- **The segment of a script** in an arena: everything inside it, and then its own statement. -/
def nodes (s : Script) (parent : Option StatementId) (n : Nat) : List Node :=
  s.inner n ++ [⟨parent, s.statementAt n⟩]

theorem size_eq (s : Script) : s.size = sizeAll s.children + 1 := by
  rcases s with body | ⟨condition, thenBranch, _ | otherwise⟩ | ⟨condition, body⟩ | l <;>
    simp [size, sizeAll, children]

theorem size_pos (s : Script) : 0 < s.size := by
  rw [size_eq]; omega

theorem rootAt_eq (s : Script) (n : Nat) : s.rootAt n = n + sizeAll s.children := by
  rw [rootAt, size_eq]; rfl

theorem inner_eq (s : Script) (n : Nat) : s.inner n = nodesAll s.children (some (s.rootAt n)) n := by
  rcases s with body | ⟨condition, thenBranch, _ | otherwise⟩ | ⟨condition, body⟩ | l <;>
    simp [inner, nodesAll, children, rootAt_eq, sizeAll]

theorem nodesAll_cons (s : Script) (rest : List Script) (parent : Option StatementId) (n : Nat) :
    nodesAll (s :: rest) parent n = s.nodes parent n ++ nodesAll rest parent (n + s.size) := by
  rw [nodesAll, nodes]

@[simp] theorem length_roots (ss : List Script) (n : Nat) : (roots ss n).length = ss.length := by
  induction ss generalizing n with
  | nil => rfl
  | cons s rest ih => rw [roots, List.length_cons, List.length_cons, ih]

theorem length_nodesAll_of {ss : List Script} (h : ∀ s ∈ ss, ∀ n, (s.inner n).length + 1 = s.size)
    (parent : Option StatementId) (n : Nat) : (nodesAll ss parent n).length = sizeAll ss := by
  induction ss generalizing n with
  | nil => rfl
  | cons s rest ih =>
    have hs := h s List.mem_cons_self n
    have hrest := ih (fun t ht => h t (List.mem_cons_of_mem _ ht)) (n + s.size)
    rw [nodesAll_cons, nodes, sizeAll]
    simp only [List.length_append, List.length_singleton, hrest]
    omega

/-- A segment has one node for each statement of its script. -/
theorem length_inner (s : Script) (n : Nat) : (s.inner n).length + 1 = s.size := by
  induction s using childInduction generalizing n with
  | step s ih => rw [inner_eq, length_nodesAll_of ih, size_eq]

@[simp] theorem length_nodesAll (ss : List Script) (parent : Option StatementId) (n : Nat) :
    (nodesAll ss parent n).length = sizeAll ss :=
  length_nodesAll_of (fun s _ => s.length_inner) parent n

@[simp] theorem length_nodes (s : Script) (parent : Option StatementId) (n : Nat) :
    (s.nodes parent n).length = s.size := by
  rw [nodes, List.length_append, List.length_singleton, length_inner]

/-! ## Lowering -/

/-- Lowering, whatever the form of the script: first the children, and then the statement. -/
theorem lower_eq_add (s : Script) (b : Builder) :
    s.lower b = (lowerAll s.children b).1.add (s.head (lowerAll s.children b).2) := by
  rcases s with body | ⟨condition, thenBranch, _ | otherwise⟩ | ⟨condition, body⟩ | l <;>
    simp [lower, lowerAll, children, head]

/-- A statement without a parent that stands where it is named is adopted. -/
theorem adopt_orphan (parent : StatementId) (before after : List Node) (st : Statement)
    (hne : before.length ≠ parent) :
    Builder.adopt parent ⟨(before ++ ⟨none, st⟩ :: after).toArray, none⟩ before.length =
      ⟨(before ++ ⟨some parent, st⟩ :: after).toArray, none⟩ := by
  have hnode : (before ++ (⟨none, st⟩ : Node) :: after).toArray[before.length]? = some ⟨none, st⟩ := by
    rw [List.getElem?_toArray, List.getElem?_append_right (Nat.le_refl _), Nat.sub_self]
    rfl
  simp only [Builder.adopt, hnode, hne, Option.isSome_none, Bool.false_eq_true, or_self, if_false]
  simp

/-- A statement named after some scripts adopts all their roots. -/
theorem foldl_adopt_roots (id : StatementId) (ss : List Script) (before after : List Node)
    (hid : before.length + sizeAll ss ≤ id) :
    (roots ss before.length).foldl (Builder.adopt id)
        ⟨(before ++ nodesAll ss none before.length ++ after).toArray, none⟩ =
      ⟨(before ++ nodesAll ss (some id) before.length ++ after).toArray, none⟩ := by
  induction ss generalizing before with
  | nil => rfl
  | cons s rest ih =>
    rw [sizeAll] at hid
    have hroot : s.rootAt before.length = (before ++ s.inner before.length).length := by
      rw [List.length_append, rootAt, ← length_inner s before.length]; rfl
    have hnext : (before ++ s.nodes (some id) before.length).length = before.length + s.size := by
      rw [List.length_append, length_nodes]
    -- the statement that adopts has a later name than all that it adopts
    have hne : (before ++ s.inner before.length).length ≠ id := by
      have := length_inner s before.length
      rw [List.length_append]; omega
    have hadopt := adopt_orphan id (before ++ s.inner before.length)
      (nodesAll rest none (before.length + s.size) ++ after) (s.statementAt before.length) hne
    have hrest := ih (before ++ s.nodes (some id) before.length) (by rw [hnext]; omega)
    rw [hnext] at hrest
    rw [roots, List.foldl_cons, nodesAll_cons, nodesAll_cons, hroot]
    simp only [nodes, List.append_assoc, List.cons_append, List.nil_append] at hadopt hrest ⊢
    rw [hadopt, hrest]

/-- Lowering appends the segment of a script to the arena, without a defect. -/
theorem lowerAll_eq_of {ss : List Script}
    (h : ∀ s ∈ ss, ∀ l : List Node, s.lower ⟨l.toArray, none⟩ =
      (⟨(l ++ s.nodes none l.length).toArray, none⟩, s.rootAt l.length)) (l : List Node) :
    lowerAll ss ⟨l.toArray, none⟩ =
      (⟨(l ++ nodesAll ss none l.length).toArray, none⟩, roots ss l.length) := by
  induction ss generalizing l with
  | nil => simp [lowerAll, nodesAll, roots]
  | cons s rest ih =>
    have hrest := ih (fun t ht => h t (List.mem_cons_of_mem _ ht)) (l ++ s.nodes none l.length)
    rw [List.length_append, length_nodes] at hrest
    rw [lowerAll, h s List.mem_cons_self l]
    simp only [hrest, nodesAll_cons, roots, List.append_assoc]

/-- **Lowering appends the segment of a script** to an arena without a defect, and returns the name of the
script's own statement. -/
theorem lower_eq (s : Script) (l : List Node) :
    s.lower ⟨l.toArray, none⟩ = (⟨(l ++ s.nodes none l.length).toArray, none⟩, s.rootAt l.length) := by
  induction s using childInduction generalizing l with
  | step s ih =>
    -- the children come first, so the name of the script's own statement is the next free one
    have hid : (l ++ nodesAll s.children none l.length).length = s.rootAt l.length := by
      rw [List.length_append, length_nodesAll, rootAt_eq]
    have hadopt := foldl_adopt_roots (s.rootAt l.length) s.children l [⟨none, s.statementAt l.length⟩]
      (Nat.le_of_eq (rootAt_eq s l.length).symm)
    rw [lower_eq_add, lowerAll_eq_of ih, Builder.add]
    simp only [List.size_toArray, hid, List.push_toArray, children_head (length_roots s.children l.length)]
    rw [← statementAt, hadopt, nodes, inner_eq, List.append_assoc]

/-- **A script always builds.** Its arena is its own segment, and its root comes last. -/
theorem build_eq (s : Script) : s.build = .ok ⟨(s.nodes none 0).toArray, s.rootAt 0⟩ := by
  have hlower := lower_eq s []
  have hroot : (s.nodes none 0).toArray[s.rootAt 0]? = some ⟨none, s.statementAt 0⟩ := by
    rw [List.getElem?_toArray, nodes, inner_eq, rootAt_eq, Nat.zero_add,
      List.getElem?_append_right (Nat.le_of_eq (length_nodesAll ..)), length_nodesAll, Nat.sub_self]
    rfl
  rw [List.nil_append, List.length_nil] at hlower
  rw [build, show (({} : Builder)) = ⟨([] : List Node).toArray, none⟩ from rfl, hlower]
  simp only [Builder.finish, hroot, Option.isSome_none, Bool.false_eq_true, if_false]

/-! ## Reading back

A segment is looked at inside the arena that holds it, so that the segments of the children of a script are
segments of the same arena. -/

/-- An arena holds the nodes `l` under consecutive names from `n` on. -/
def NodesAt (p : Program) (n : Nat) (l : List Node) : Prop :=
  ∀ k, k < l.length → p.nodes[n + k]? = l[k]?

theorem NodesAt.append_left {p : Program} {n : Nat} {l₁ l₂ : List Node} (h : NodesAt p n (l₁ ++ l₂)) :
    NodesAt p n l₁ := by
  intro k hk
  have := h k (by rw [List.length_append]; omega)
  rwa [List.getElem?_append_left hk] at this

theorem NodesAt.append_right {p : Program} {n : Nat} {l₁ l₂ : List Node} (h : NodesAt p n (l₁ ++ l₂)) :
    NodesAt p (n + l₁.length) l₂ := by
  intro k hk
  have := h (l₁.length + k) (by rw [List.length_append]; omega)
  rwa [List.getElem?_append_right (by omega), Nat.add_sub_cancel_left, ← Nat.add_assoc] at this

/-- The last node of a segment is that of the script's own statement. -/
theorem NodesAt.root {p : Program} {s : Script} {parent : Option StatementId} {n : Nat}
    (h : NodesAt p n (s.nodes parent n)) : p.nodes[s.rootAt n]? = some ⟨parent, s.statementAt n⟩ := by
  have hlast := NodesAt.append_right h 0 (by simp)
  rw [inner_eq, length_nodesAll, ← rootAt_eq] at hlast
  exact hlast

/-- The name after a script's segment belongs to the script's own statement. -/
theorem NodesAt.statement? {p : Program} {s : Script} {parent : Option StatementId} {n : Nat}
    (h : NodesAt p n (s.nodes parent n)) : p.statement? (s.rootAt n) = some (s.statementAt n) := by
  rw [Program.statement?, h.root]
  rfl

theorem NodesAt.parent? {p : Program} {s : Script} {parent : Option StatementId} {n : Nat}
    (h : NodesAt p n (s.nodes parent n)) : p.parent? (s.rootAt n) = parent := by
  rw [Program.parent?, h.root]
  rfl

/-- The segment of a script holds those of its children. -/
theorem NodesAt.children {p : Program} {s : Script} {parent : Option StatementId} {n : Nat}
    (h : NodesAt p n (s.nodes parent n)) :
    NodesAt p n (nodesAll s.children (some (s.rootAt n)) n) := by
  have hinner := NodesAt.append_left h
  rwa [inner_eq] at hinner

theorem NodesAt.first {p : Program} {s : Script} {rest : List Script} {parent : Option StatementId} {n : Nat}
    (h : NodesAt p n (nodesAll (s :: rest) parent n)) : NodesAt p n (s.nodes parent n) := by
  rw [nodesAll_cons] at h
  exact h.append_left

theorem NodesAt.others {p : Program} {s : Script} {rest : List Script} {parent : Option StatementId}
    {n : Nat} (h : NodesAt p n (nodesAll (s :: rest) parent n)) :
    NodesAt p (n + s.size) (nodesAll rest parent (n + s.size)) := by
  rw [nodesAll_cons] at h
  have := h.append_right
  rwa [length_nodes] at this

/-- The arena of a script holds its segment. -/
theorem nodesAt_of_build {s : Script} {p : Program} (h : s.build = .ok p) :
    p.root = s.rootAt 0 ∧ p.size = s.size ∧ NodesAt p 0 (s.nodes none 0) := by
  rw [build_eq] at h
  obtain rfl := Except.ok.inj h
  refine ⟨rfl, by simp [Program.size], fun k _ => ?_⟩
  rw [Nat.zero_add, List.getElem?_toArray]

/-- **A script found under a name**: the statement of that name is the script's own, and the scripts inside
it are found under the names that the statement gives them. -/
inductive At (p : Program) : Script → StatementId → Prop
  | intro {s : Script} {id : StatementId} {ids : List StatementId} :
      p.statement? id = some (s.head ids) → List.Forall₂ (At p) s.children ids → At p s id

theorem forall₂_at_of {p : Program} {ss : List Script}
    (h : ∀ s ∈ ss, ∀ parent n, NodesAt p n (s.nodes parent n) → s.At p (s.rootAt n))
    {parent : Option StatementId} {n : Nat} (hn : NodesAt p n (nodesAll ss parent n)) :
    List.Forall₂ (At p) ss (roots ss n) := by
  induction ss generalizing n with
  | nil => exact .nil
  | cons s rest ih =>
    exact .cons (h s List.mem_cons_self parent n hn.first)
      (ih (fun t ht => h t (List.mem_cons_of_mem _ ht)) hn.others)

/-- A script is found where its segment ends. -/
theorem at_of_nodesAt {p : Program} (s : Script) (parent : Option StatementId) (n : Nat)
    (h : NodesAt p n (s.nodes parent n)) : s.At p (s.rootAt n) := by
  induction s using childInduction generalizing parent n with
  | step s ih =>
    exact .intro h.statement? (forall₂_at_of ih h.children)

/-- **A script is found under the root of its program.** -/
theorem at_root_of_build {s : Script} {p : Program} (h : s.build = .ok p) : s.At p p.root := by
  obtain ⟨hroot, -, hnodes⟩ := nodesAt_of_build h
  rw [hroot]
  exact at_of_nodesAt s none 0 hnodes

end Script

end TaskScript
