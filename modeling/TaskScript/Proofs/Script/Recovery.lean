import TaskScript.Proofs.Program.Preorder
import TaskScript.Proofs.Script.Formation

/-!
# `Proofs.Script.Recovery`: the script of a program

Lowering takes a document apart: its statements go into a flat arena one by one, and know their children by name only.
Nothing is lost by that. A script is read back from a program by looking up a statement and reading back its children
(`Program.script?`), and under every name of the arena this gives the part of the document whose turn it was: by name the
parts are in post-order, and along the subtree of the root they are in pre-order (`build_loses_nothing`).

## Contents
- `Script.partsInPreorder`, `Script.partsInPostorder`: a script and everything inside it.
- `Statement.ofParts?`, `Program.script?`: **reading back**.
- `scriptWithin_of_at`, `script?_of_at`: what is found under a name is read back from there.
- `forall₂_partsInPreorder`, `forall₂_partsInPostorder`: where the parts of a script are found.
- `eq_of_build_eq`, `build_loses_nothing`.
-/

namespace TaskScript

namespace Script

/-! ## The parts of a script -/

mutual

/-- **A script and everything inside it in pre-order**, as the document is read. -/
def partsInPreorder : Script → List Script
  | .sequence body => .sequence body :: partsInPreorderAll body
  | .ifThen condition thenBranch none => .ifThen condition thenBranch none :: thenBranch.partsInPreorder
  | .ifThen condition thenBranch (some otherwise) =>
    .ifThen condition thenBranch (some otherwise) :: (thenBranch.partsInPreorder ++ otherwise.partsInPreorder)
  | .whileDo condition body => .whileDo condition body :: body.partsInPreorder
  | .leaf l => [.leaf l]
termination_by structural s => s

/-- The same for scripts that stand one after the other. -/
def partsInPreorderAll : List Script → List Script
  | [] => []
  | s :: rest => s.partsInPreorder ++ partsInPreorderAll rest
termination_by structural ss => ss

end

mutual

/-- **A script and everything inside it in post-order**, each part after what is inside it. -/
def partsInPostorder : Script → List Script
  | .sequence body => partsInPostorderAll body ++ [.sequence body]
  | .ifThen condition thenBranch none => thenBranch.partsInPostorder ++ [.ifThen condition thenBranch none]
  | .ifThen condition thenBranch (some otherwise) =>
    thenBranch.partsInPostorder ++ otherwise.partsInPostorder ++ [.ifThen condition thenBranch (some otherwise)]
  | .whileDo condition body => body.partsInPostorder ++ [.whileDo condition body]
  | .leaf l => [.leaf l]
termination_by structural s => s

/-- The same for scripts that stand one after the other. -/
def partsInPostorderAll : List Script → List Script
  | [] => []
  | s :: rest => s.partsInPostorder ++ partsInPostorderAll rest
termination_by structural ss => ss

end

theorem partsInPreorder_eq (s : Script) : s.partsInPreorder = s :: partsInPreorderAll s.children := by
  rcases s with body | ⟨condition, thenBranch, _ | otherwise⟩ | ⟨condition, body⟩ | l <;>
    simp [partsInPreorder, partsInPreorderAll, children]

theorem partsInPostorder_eq (s : Script) : s.partsInPostorder = partsInPostorderAll s.children ++ [s] := by
  rcases s with body | ⟨condition, thenBranch, _ | otherwise⟩ | ⟨condition, body⟩ | l <;>
    simp [partsInPostorder, partsInPostorderAll, children]

end Script

/-! ## Reading back -/

/-- The script of a statement whose children are the statements of `parts`. There is none if the statement names another
number of children. -/
def Statement.ofParts? : Statement → List Script → Option Script
  | .sequence _, parts => some (.sequence parts)
  | .ifThen condition _ none, [thenBranch] => some (.ifThen condition thenBranch none)
  | .ifThen condition _ (some _), [thenBranch, otherwise] => some (.ifThen condition thenBranch (some otherwise))
  | .whileDo condition _, [body] => some (.whileDo condition body)
  | .leaf l, [] => some (.leaf l)
  | _, _ => none

namespace Program

/-- The script that is read back from a statement and its children, down to a given depth. -/
def scriptWithin (p : Program) : Nat → StatementId → Option Script
  | 0, _ => none
  | n + 1, id => do
    let st ← p.statement? id
    let parts ← st.children.mapM (p.scriptWithin n)
    st.ofParts? parts

/-- **The script that is read back** from a statement of a program. No tree is deeper than the place of its root in the
arena. -/
def script? (p : Program) (id : StatementId) : Option Script :=
  p.scriptWithin (id + 1) id

end Program

namespace Script

variable {p : Program}

/-- A script is put together again of its own statement and its children. -/
theorem ofParts?_head {s : Script} {ids : List StatementId} (h : s.children.length = ids.length) :
    (s.head ids).ofParts? s.children = some s := by
  cases s with
  | sequence body => rfl
  | ifThen condition thenBranch otherwise =>
    cases otherwise with
    | none =>
      obtain ⟨a, rfl⟩ := List.length_eq_one_iff.mp h.symm
      rfl
    | some otherwise =>
      obtain ⟨a, tail, rfl⟩ := List.exists_cons_of_length_eq_add_one h.symm
      obtain ⟨b, rfl⟩ := List.length_eq_one_iff.mp (Nat.succ.inj h.symm)
      rfl
  | whileDo condition body => rfl
  | leaf l => rfl

/-- What is found name by name is read name by name. -/
theorem mapM_of_forall₂ {f : StatementId → Option Script} {ss : List Script} {ids : List StatementId}
    (h : List.Forall₂ (fun s id => f id = some s) ss ids) : ids.mapM f = some ss := by
  induction h with
  | nil => rfl
  | cons hs _ ih => rw [List.mapM_cons, hs, ih]; rfl

/-- A script that is found under a name is read back from there, given enough depth. -/
theorem scriptWithin_of_at (hordered : p.Ordered) (s : Script) {id n : Nat} (h : s.At p id) (hdepth : id < n) :
    p.scriptWithin n id = some s := by
  induction s using childInduction generalizing id n with
  | step s ih =>
    obtain ⟨n, rfl⟩ : ∃ k, n = k + 1 := Nat.exists_eq_add_of_le' (Nat.zero_lt_of_lt hdepth)
    cases h with
    | @intro _ _ ids hst hparts =>
      have hnames : (s.head ids).children = ids := children_head hparts.length_eq.symm
      -- children have smaller names, so the depth that is left is enough for them
      have hread : List.Forall₂ (fun c id => p.scriptWithin n id = some c) s.children ids := by
        refine List.forall₂_iff_get.mpr ⟨hparts.length_eq, fun i hc hi => ?_⟩
        have hlt : ids.get ⟨i, hi⟩ < id := hordered.child_lt hst (hnames.symm ▸ List.get_mem ids ⟨i, hi⟩)
        exact ih _ (List.get_mem _ _) (hparts.get hc hi) (Nat.lt_of_lt_of_le hlt (Nat.le_of_lt_succ hdepth))
      rw [Program.scriptWithin, hst, Option.bind_eq_bind, Option.bind_some, hnames, mapM_of_forall₂ hread]
      exact ofParts?_head hparts.length_eq

/-- **A script is read back from where it is found.** -/
theorem script?_of_at (hordered : p.Ordered) {s : Script} {id : StatementId} (h : s.At p id) : p.script? id = some s :=
  scriptWithin_of_at hordered s h (Nat.lt_succ_self id)

/-! ## Where the parts are -/

theorem forall₂_partsInPreorderAll_of {ss : List Script}
    (h : ∀ s ∈ ss, ∀ parent n, NodesAt p n (s.nodes parent n) → List.Forall₂ (At p) s.partsInPreorder (s.preorder n))
    {parent : Option StatementId} {n : Nat} (hn : NodesAt p n (nodesAll ss parent n)) :
    List.Forall₂ (At p) (partsInPreorderAll ss) (preorderAll ss n) := by
  induction ss generalizing n with
  | nil => exact .nil
  | cons s rest ih =>
    exact List.rel_append (h s List.mem_cons_self parent n hn.first)
      (ih (fun t ht => h t (List.mem_cons_of_mem _ ht)) hn.others)

/-- The parts of a script are found along its pre-order. -/
theorem forall₂_partsInPreorder (s : Script) (parent : Option StatementId) (n : Nat)
    (h : NodesAt p n (s.nodes parent n)) : List.Forall₂ (At p) s.partsInPreorder (s.preorder n) := by
  induction s using childInduction generalizing parent n with
  | step s ih =>
    rw [partsInPreorder_eq, preorder_eq]
    exact .cons (at_of_nodesAt s parent n h) (forall₂_partsInPreorderAll_of ih h.children)

/-- The names of scripts that stand one after the other. -/
theorem range'_sizeAll_cons (s : Script) (rest : List Script) (n : Nat) :
    List.range' n (sizeAll (s :: rest)) = List.range' n s.size ++ List.range' (n + s.size) (sizeAll rest) := by
  rw [sizeAll, List.range'_append_1]

/-- The names of a script: those of everything inside it, and then its own. -/
theorem range'_size (s : Script) (n : Nat) :
    List.range' n s.size = List.range' n (sizeAll s.children) ++ [s.rootAt n] := by
  rw [size_eq, List.range'_1_concat, rootAt_eq]

theorem forall₂_partsInPostorderAll_of {ss : List Script}
    (h : ∀ s ∈ ss, ∀ parent n, NodesAt p n (s.nodes parent n) →
      List.Forall₂ (At p) s.partsInPostorder (List.range' n s.size))
    {parent : Option StatementId} {n : Nat} (hn : NodesAt p n (nodesAll ss parent n)) :
    List.Forall₂ (At p) (partsInPostorderAll ss) (List.range' n (sizeAll ss)) := by
  induction ss generalizing n with
  | nil => exact .nil
  | cons s rest ih =>
    rw [range'_sizeAll_cons]
    exact List.rel_append (h s List.mem_cons_self parent n hn.first)
      (ih (fun t ht => h t (List.mem_cons_of_mem _ ht)) hn.others)

/-- The parts of a script in post-order are found under the names of its segment, one after the other. -/
theorem forall₂_partsInPostorder (s : Script) (parent : Option StatementId) (n : Nat)
    (h : NodesAt p n (s.nodes parent n)) : List.Forall₂ (At p) s.partsInPostorder (List.range' n s.size) := by
  induction s using childInduction generalizing parent n with
  | step s ih =>
    rw [partsInPostorder_eq, range'_size]
    exact List.rel_append (forall₂_partsInPostorderAll_of ih h.children)
      (.cons (at_of_nodesAt s parent n h) .nil)

theorem preorderAll_perm_of {ss : List Script} (h : ∀ s ∈ ss, ∀ n, (s.preorder n).Perm (List.range' n s.size))
    (n : Nat) : (preorderAll ss n).Perm (List.range' n (sizeAll ss)) := by
  induction ss generalizing n with
  | nil => exact .nil
  | cons s rest ih =>
    rw [range'_sizeAll_cons]
    exact (h s List.mem_cons_self n).append (ih (fun t ht => h t (List.mem_cons_of_mem _ ht)) (n + s.size))

/-- The pre-order of a script has the names of its segment, in another order. -/
theorem preorder_perm (s : Script) (n : Nat) : (s.preorder n).Perm (List.range' n s.size) := by
  induction s using childInduction generalizing n with
  | step s ih =>
    rw [preorder_eq, range'_size]
    exact ((preorderAll_perm_of ih n).cons _).trans (List.perm_append_singleton _ _).symm

/-! ## Nothing is lost -/

/-- Parts that are found under names are read back from there. -/
theorem map_script?_of_forall₂ (hordered : p.Ordered) {ss : List Script} {ids : List StatementId}
    (h : List.Forall₂ (At p) ss ids) : ids.map p.script? = ss.map some := by
  induction h with
  | nil => rfl
  | cons hs _ ih => rw [List.map_cons, List.map_cons, script?_of_at hordered hs, ih]

/-- Different scripts make different programs. -/
theorem eq_of_build_eq {s s' : Script} (h : s.build = s'.build) : s = s' := by
  have hbuild := build_eq s
  have hordered := (sealed_of_build hbuild).ordered
  have hread := script?_of_at hordered (at_root_of_build hbuild)
  have hread' := script?_of_at hordered (at_root_of_build (h.symm.trans hbuild))
  exact Option.some.inj (hread.symm.trans hread')

/-- **Lowering a script loses nothing.** A program is made of every script, and its root is the last statement of its
arena. Read back name by name, the arena holds the parts of the script in post-order, each once, and the subtree of the
root lists all of the arena, the parts in pre-order. What is read back from the root is the script. -/
theorem build_loses_nothing (s : Script) :
    ∃ p, s.build = .ok p ∧ p.root + 1 = p.size ∧
      (List.range p.size).map p.script? = s.partsInPostorder.map some ∧
      (p.subtree p.root).Perm (List.range p.size) ∧
      (p.subtree p.root).map p.script? = s.partsInPreorder.map some ∧
      p.script? p.root = some s := by
  have hbuild := build_eq s
  generalize (⟨(s.nodes none 0).toArray, s.rootAt 0⟩ : Program) = p at hbuild
  obtain ⟨hroot, hsize, hnodes⟩ := nodesAt_of_build hbuild
  have hordered := (sealed_of_build hbuild).ordered
  have hlast : p.root + 1 = p.size := by
    rw [hroot, hsize, rootAt_eq, size_eq, Nat.zero_add]
  refine ⟨p, hbuild, hlast, ?_, ?_, ?_, script?_of_at hordered (at_root_of_build hbuild)⟩
  · rw [hsize, List.range_eq_range']
    exact map_script?_of_forall₂ hordered (forall₂_partsInPostorder s none 0 hnodes)
  · rw [subtree_root_of_build hbuild, hsize, List.range_eq_range']
    exact preorder_perm s 0
  · rw [subtree_root_of_build hbuild]
    exact map_script?_of_forall₂ hordered (forall₂_partsInPreorder s none 0 hnodes)

end Script

end TaskScript
