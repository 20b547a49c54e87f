import Mathlib.Data.List.Induction
import Mathlib.Data.List.Nodup
import TaskScript.Proofs.Program.Parents

/-!
# `Proofs.Program.Acceptance`: which programs a builder accepts

A builder takes any names for children and any name for the root. It looks at every child when it is handed over, keeps
the first defect to itself, and stops looking. What it answers in the end is said here of the calls alone, without the
arena: `handovers` lists who was handed to whom, in the order of the calls and of the children in each of them, and a
handover breaks a rule or not by the handovers before it (`Handover.Breaks`).

The invariant is that a builder knows all parents as long as no rule was broken, and the first defect from then on
(`Knows`); every handover keeps it (`Knows.adopt`). So the trees are accepted, and nothing else is
(`finish_accepts_trees`).

## Contents
- `Handover`, `Handover.Breaks`, `Orderly`, `FirstBroken`: **the rules for handing over children**.
- `Builder.handovers`: what a row of calls hands over.
- `Builder.Knows`, `Knows.adopt`, `knows_addAll`: what a builder knows after it.
- `Builder.FormsTree`, `Builder.FirstDefect`, `Builder.finish_accepts_trees`: **trees are accepted, and nothing else is**.
-/

namespace TaskScript

/-! ## Handing over children -/

/-- A child that is handed to the statement that is to be its parent. -/
structure Handover where
  parent : StatementId
  child : StatementId
deriving DecidableEq, Repr

namespace Handover

/-- How a handover breaks a rule, others having come before it. When it comes, the parent is the statement that was
added last, so all later names are unknown. -/
inductive Breaks (before : List Handover) (h : Handover) : FormationError → Prop
  | unknown : h.parent < h.child → Breaks before h (.unknownStatement h.child)
  | itself : h.child = h.parent → Breaks before h (.sharedStatement h.child)
  | taken : h.child < h.parent → h.child ∈ before.map child → Breaks before h (.sharedStatement h.child)

/-- Handovers that break no rule: every child was added before its parent, and is handed over once. -/
structure Orderly (hs : List Handover) : Prop where
  earlier : ∀ h ∈ hs, h.child < h.parent
  once : (hs.map child).Nodup

/-- The defect of the first handover that breaks a rule. -/
def FirstBroken (hs : List Handover) (e : FormationError) : Prop :=
  ∃ before h after, hs = before ++ h :: after ∧ Orderly before ∧ h.Breaks before e

variable {hs : List Handover} {h : Handover} {e : FormationError}

theorem orderly_nil : Orderly [] :=
  ⟨by simp, by simp⟩

theorem Orderly.concat (horderly : Orderly hs) (hlt : h.child < h.parent) (hnew : h.child ∉ hs.map child) :
    Orderly (hs ++ [h]) := by
  constructor
  · intro h' hh'
    rcases List.mem_append.mp hh' with hh' | hh'
    · exact horderly.earlier h' hh'
    · rw [List.mem_singleton.mp hh']
      exact hlt
  · rw [List.map_append, List.map_singleton, List.nodup_append]
    refine ⟨horderly.once, List.nodup_singleton _, ?_⟩
    intro c hc c' hc' heq
    rw [List.mem_singleton.mp hc'] at heq
    exact hnew (heq ▸ hc)

/-- A handover that breaks a rule spoils whatever it comes after. -/
theorem Breaks.not_orderly (hbreaks : h.Breaks hs e) (hs' : List Handover) : ¬ Orderly (hs ++ h :: hs') := by
  intro horderly
  have hlt := horderly.earlier h (by simp)
  cases hbreaks with
  | unknown hgt => exact Nat.lt_asymm hgt hlt
  | itself heq => exact Nat.ne_of_lt hlt heq
  | taken _ htaken =>
    have hnodup := horderly.once
    rw [List.map_append, List.map_cons, List.nodup_append] at hnodup
    exact hnodup.2.2 _ htaken _ List.mem_cons_self rfl

theorem FirstBroken.not_orderly (hfirst : FirstBroken hs e) : ¬ Orderly hs := by
  obtain ⟨before, h, after, rfl, -, hbreaks⟩ := hfirst
  exact hbreaks.not_orderly after

theorem Breaks.firstBroken (hbreaks : h.Breaks hs e) (horderly : Orderly hs) : FirstBroken (hs ++ [h]) e :=
  ⟨hs, h, [], rfl, horderly, hbreaks⟩

/-- The first defect stays the first. -/
theorem FirstBroken.append (hfirst : FirstBroken hs e) (hs' : List Handover) : FirstBroken (hs ++ hs') e := by
  obtain ⟨before, h, after, rfl, horderly, hbreaks⟩ := hfirst
  exact ⟨before, h, after ++ hs', by simp, horderly, hbreaks⟩

/-- A child that is unknown when it is handed over is not shared. -/
theorem Breaks.unique {e' : FormationError} (hbreaks : h.Breaks hs e) (hbreaks' : h.Breaks hs e') : e = e' := by
  have hdecided : ∀ {e}, h.Breaks hs e →
      e = if h.parent < h.child then .unknownStatement h.child else .sharedStatement h.child := by
    intro e hbreaks
    cases hbreaks with
    | unknown hgt => rw [if_pos hgt]
    | itself heq => rw [if_neg (Nat.not_lt_of_le (Nat.le_of_eq heq))]
    | taken hlt _ => rw [if_neg (Nat.lt_asymm hlt)]
  rw [hdecided hbreaks, hdecided hbreaks']

/-- Handovers that break no rule end before the first that does. -/
theorem Breaks.length_le {before before' after after' : List Handover} {h' : Handover} (hbreaks : h.Breaks before e)
    (horderly : Orderly before') (heq : before ++ h :: after = before' ++ h' :: after') :
    before'.length ≤ before.length := by
  by_contra hlonger
  have hlength : (before ++ [h]).length ≤ before'.length := by
    rw [List.length_append, List.length_singleton]
    omega
  have hprefix : before ++ [h] <+: before ++ h :: after := ⟨after, by simp⟩
  have hprefix' : before' <+: before ++ h :: after := ⟨h' :: after', heq.symm⟩
  obtain ⟨w, rfl⟩ := List.prefix_of_prefix_length_le hprefix hprefix' hlength
  rw [List.append_assoc] at horderly
  exact hbreaks.not_orderly w horderly

/-- **There is one first defect**, if there is one. -/
theorem FirstBroken.unique {e' : FormationError} (hfirst : FirstBroken hs e) (hfirst' : FirstBroken hs e') :
    e = e' := by
  obtain ⟨before, h, after, rfl, horderly, hbreaks⟩ := hfirst
  obtain ⟨before', h', after', heq, horderly', hbreaks'⟩ := hfirst'
  have hlength : before.length = before'.length :=
    Nat.le_antisymm (hbreaks'.length_le horderly heq.symm) (hbreaks.length_le horderly' heq)
  obtain ⟨rfl, hrest⟩ := List.append_inj heq hlength
  obtain ⟨rfl, -⟩ := List.cons.inj hrest
  exact hbreaks.unique hbreaks'

end Handover

open Handover

namespace Builder

/-- **What a row of calls hands over**, in the order of the calls, and of the children in each of them. A call names
its statement by how many calls came before. -/
def handovers (ss : List Statement) : List Handover :=
  ss.zipIdx.flatMap fun (s, id) => s.children.map (Handover.mk id)

theorem handovers_concat (ss : List Statement) (s : Statement) :
    handovers (ss ++ [s]) = handovers ss ++ s.children.map (Handover.mk ss.length) := by
  simp [handovers, List.zipIdx_append]

/-! ## What a builder knows -/

variable {b : Builder} {hs : List Handover} {parent child : StatementId}

/-- **What a builder knows after some handovers**: all parents, as long as no rule was broken, and the first defect
from then on. -/
inductive Knows (b : Builder) (hs : List Handover) : Prop
  | parents : Orderly hs → b.defect = none → (∀ c i, b.parentOf c = some i ↔ ⟨i, c⟩ ∈ hs) → Knows b hs
  | defect {e : FormationError} : FirstBroken hs e → b.defect = some e → Knows b hs

/-- Who has a parent is who was handed over. -/
theorem isSome_parentOf_iff (hparents : ∀ c i, b.parentOf c = some i ↔ ⟨i, c⟩ ∈ hs) (c : StatementId) :
    (b.parentOf c).isSome ↔ c ∈ hs.map Handover.child := by
  rw [Option.isSome_iff_exists, List.mem_map]
  constructor
  · rintro ⟨i, hi⟩
    exact ⟨⟨i, c⟩, (hparents c i).mp hi, rfl⟩
  · rintro ⟨⟨i, c⟩, hmem, rfl⟩
    exact ⟨i, (hparents c i).mpr hmem⟩

theorem size_foldl_adopt (parent : StatementId) (children : List StatementId) (b : Builder) :
    (children.foldl (adopt parent) b).nodes.size = b.nodes.size := by
  induction children generalizing b with
  | nil => rfl
  | cons c rest ih => rw [List.foldl_cons, ih, size_adopt]

@[simp] theorem size_add (b : Builder) (s : Statement) : (b.add s).1.nodes.size = b.nodes.size + 1 := by
  unfold add
  rw [size_foldl_adopt, Array.size_push]

@[simp] theorem size_addAll (ss : List Statement) (b : Builder) :
    (addAll ss b).nodes.size = b.nodes.size + ss.length := by
  induction ss generalizing b with
  | nil => rfl
  | cons s rest ih =>
    show (addAll rest (b.add s).1).nodes.size = _
    rw [ih, size_add, List.length_cons]
    omega

/-- What a handover to the statement that was added last is found to be. -/
theorem defect_adopt (hdefect : b.defect = none) (hsize : b.nodes.size = parent + 1) :
    (adopt parent b child).defect =
      if parent < child then some (.unknownStatement child)
      else if child = parent ∨ (b.parentOf child).isSome then some (.sharedStatement child)
      else none := by
  unfold adopt parentOf
  by_cases hlt : parent < child
  · have hnone : b.nodes[child]? = none := Array.getElem?_eq_none (hsize ▸ hlt)
    simp [hdefect, hnone, hlt]
  · have hbound : child < b.nodes.size := hsize ▸ Nat.lt_succ_of_le (Nat.le_of_not_lt hlt)
    obtain ⟨node, hnode⟩ : ∃ node, b.nodes[child]? = some node := ⟨_, Array.getElem?_eq_getElem hbound⟩
    rw [if_neg hlt]
    by_cases hshared : child = parent ∨ node.parent.isSome
    · simp [hdefect, hnode, hshared]
    · simp [hdefect, hnode, hshared]

/-- **Every handover keeps what a builder knows.** -/
theorem Knows.adopt (hknows : b.Knows hs) (hsize : b.nodes.size = parent + 1) (child : StatementId) :
    (Builder.adopt parent b child).Knows (hs ++ [⟨parent, child⟩]) := by
  cases hknows with
  | defect hfirst hdefect =>
    have hsame : Builder.adopt parent b child = b := by simp [Builder.adopt, hdefect]
    rw [hsame]
    exact .defect (hfirst.append _) hdefect
  | parents horderly hdefect hparents =>
    have hfound : (Builder.adopt parent b child).defect = _ := defect_adopt hdefect hsize
    have htaken := isSome_parentOf_iff hparents child
    rcases Nat.lt_trichotomy child parent with hlt | heq | hgt
    · by_cases hmem : child ∈ hs.map Handover.child
      · rw [if_neg (Nat.lt_asymm hlt), if_pos (.inr (htaken.mpr hmem))] at hfound
        exact .defect (Breaks.firstBroken (.taken hlt hmem) horderly) hfound
      · rw [if_neg (Nat.lt_asymm hlt), if_neg (by simp [htaken, hmem, Nat.ne_of_lt hlt])] at hfound
        refine .parents (horderly.concat hlt hmem) hfound ?_
        intro c i
        rw [(parent_adopt hfound).2]
        by_cases hc : c = child
        · subst hc
          have hnew : (⟨i, c⟩ : Handover) ∉ hs := fun hhs => hmem (List.mem_map_of_mem hhs)
          simp [hnew, eq_comm]
        · simp [hc, hparents]
    · rw [if_neg (Nat.not_lt_of_le (Nat.le_of_eq heq)), if_pos (.inl heq)] at hfound
      exact .defect (Breaks.firstBroken (.itself heq) horderly) hfound
    · rw [if_pos hgt] at hfound
      exact .defect (Breaks.firstBroken (.unknown hgt) horderly) hfound

theorem Knows.foldl_adopt {children : List StatementId} (hknows : b.Knows hs) (hsize : b.nodes.size = parent + 1) :
    (children.foldl (Builder.adopt parent) b).Knows (hs ++ children.map (Handover.mk parent)) := by
  induction children generalizing b hs with
  | nil => simpa using hknows
  | cons c rest ih =>
    have hrest := ih (hknows.adopt hsize c) ((size_adopt parent b c).trans hsize)
    simpa using hrest

theorem Knows.add (hknows : b.Knows hs) (s : Statement) :
    (b.add s).1.Knows (hs ++ s.children.map (Handover.mk b.nodes.size)) := by
  have hpushed : Knows { b with nodes := b.nodes.push { parent := none, statement := s } } hs := by
    cases hknows with
    | defect hfirst hdefect => exact .defect hfirst hdefect
    | parents horderly hdefect hparents =>
      refine .parents horderly hdefect ?_
      intro c i
      rw [parentOf_push]
      exact hparents c i
  exact hpushed.foldl_adopt (by simp)

/-- **What a builder knows after a row of calls.** -/
theorem knows_addAll (ss : List Statement) : (addAll ss {}).Knows (handovers ss) := by
  induction ss using List.reverseRecOn with
  | nil =>
    refine .parents orderly_nil rfl ?_
    intro c i
    simp [addAll, parentOf_of_size_le, handovers]
  | append_singleton ss s ih =>
    have hadd := ih.add s
    rw [size_addAll] at hadd
    rw [handovers_concat, addAll_append]
    simpa [addAll] using hadd

/-! ## Sealing -/

/-- **The rules for a row of calls that is sealed under a root**: no handover breaks a rule, and the root is one of the
statements that were added, and was handed to none of them. -/
structure FormsTree (ss : List Statement) (root : StatementId) : Prop extends Orderly (handovers ss) where
  added : root < ss.length
  free : root ∉ (handovers ss).map Handover.child

/-- The defect for which a row of calls is refused. The root is looked at when there is no other one. -/
inductive FirstDefect (ss : List Statement) (root : StatementId) : FormationError → Prop
  | handover {e : FormationError} : FirstBroken (handovers ss) e → FirstDefect ss root e
  | unknownRoot : Orderly (handovers ss) → ss.length ≤ root → FirstDefect ss root (.unknownStatement root)
  | sharedRoot : Orderly (handovers ss) → root < ss.length → root ∈ (handovers ss).map Handover.child →
      FirstDefect ss root (.sharedStatement root)

theorem FormsTree.not_firstDefect {ss : List Statement} {root : StatementId} {e : FormationError}
    (htree : FormsTree ss root) : ¬ FirstDefect ss root e := by
  intro hdefect
  cases hdefect with
  | handover hfirst => exact hfirst.not_orderly htree.toOrderly
  | unknownRoot _ hle => exact Nat.not_lt_of_le hle htree.added
  | sharedRoot _ _ hmem => exact htree.free hmem

theorem FirstDefect.unique {ss : List Statement} {root : StatementId} {e e' : FormationError}
    (h : FirstDefect ss root e) (h' : FirstDefect ss root e') : e = e' := by
  cases h with
  | handover hfirst =>
    cases h' with
    | handover hfirst' => exact hfirst.unique hfirst'
    | unknownRoot horderly _ => exact absurd horderly hfirst.not_orderly
    | sharedRoot horderly _ _ => exact absurd horderly hfirst.not_orderly
  | unknownRoot horderly hle =>
    cases h' with
    | handover hfirst' => exact absurd horderly hfirst'.not_orderly
    | unknownRoot _ _ => rfl
    | sharedRoot _ hlt _ => exact absurd hlt (Nat.not_lt_of_le hle)
  | sharedRoot horderly hlt _ =>
    cases h' with
    | handover hfirst' => exact absurd horderly hfirst'.not_orderly
    | unknownRoot _ hle => exact absurd hlt (Nat.not_lt_of_le hle)
    | sharedRoot _ _ _ => rfl

/-- How sealing ends: a tree is accepted, and all else is refused for its first defect. -/
theorem finish_cases (ss : List Statement) (root : StatementId) :
    (FormsTree ss root ∧ ∃ p, (addAll ss {}).finish root = .ok p) ∨
      ∃ e, FirstDefect ss root e ∧ (addAll ss {}).finish root = .error e := by
  have hsize : (addAll ss {}).nodes.size = ss.length := by simp
  cases knows_addAll ss with
  | defect hfirst hdefect => exact .inr ⟨_, .handover hfirst, by simp [finish, hdefect]⟩
  | parents horderly hdefect hparents =>
    by_cases hlt : root < ss.length
    · obtain ⟨node, hnode⟩ : ∃ node, (addAll ss {}).nodes[root]? = some node :=
        ⟨_, Array.getElem?_eq_getElem (hsize ▸ hlt)⟩
      have hparent : (addAll ss {}).parentOf root = node.parent := by simp [parentOf, hnode]
      have htaken := hparent ▸ isSome_parentOf_iff hparents root
      by_cases hmem : root ∈ (handovers ss).map Handover.child
      · exact .inr ⟨_, .sharedRoot horderly hlt hmem, by simp [finish, hdefect, hnode, htaken.mpr hmem]⟩
      · exact .inl ⟨⟨horderly, hlt, hmem⟩, by simp [finish, hdefect, hnode, mt htaken.mp hmem]⟩
    · have hnone : (addAll ss {}).nodes[root]? = none := Array.getElem?_eq_none (hsize ▸ Nat.le_of_not_lt hlt)
      exact .inr ⟨_, .unknownRoot horderly (Nat.le_of_not_lt hlt), by simp [finish, hdefect, hnone]⟩

/-- **A builder accepts the trees, and nothing else.** A call is answered by how many calls came before. Whatever calls
were made, and with whatever names, sealing succeeds exactly if every child is smaller than its parent, no child is
handed over twice, and the root was added and never handed over. Otherwise it ends with the first defect, in the order
of the calls and of the children in each of them, and one of the root only if there is no other. -/
theorem finish_accepts_trees (ss : List Statement) (root : StatementId) :
    (∀ before s, ((addAll before {}).add s).2 = before.length) ∧
      ((∃ p, (addAll ss {}).finish root = .ok p) ↔ FormsTree ss root) ∧
      ∀ e, (addAll ss {}).finish root = .error e ↔ FirstDefect ss root e := by
  refine ⟨fun before s => by simp [add], ?_, ?_⟩
  · rcases finish_cases ss root with ⟨htree, hok⟩ | ⟨e, hdefect, herror⟩
    · exact iff_of_true hok htree
    · refine iff_of_false ?_ fun htree => htree.not_firstDefect hdefect
      rintro ⟨p, hok⟩
      rw [herror] at hok
      cases hok
  · intro e
    rcases finish_cases ss root with ⟨htree, p, hok⟩ | ⟨e', hdefect, herror⟩
    · refine iff_of_false ?_ htree.not_firstDefect
      intro herror
      rw [hok] at herror
      cases herror
    · rw [herror, Except.error.injEq]
      constructor
      · rintro rfl
        exact hdefect
      · exact hdefect.unique

/-- The second sequence names a child of the first one, and then a statement that was never added. The first of the two
defects is reported. -/
example :
    (addAll [.leaf .noOp, .leaf .breakLoop, .sequence [1, 0], .sequence [0, 9]] {}).finish 3 =
      .error (.sharedStatement 0) := by
  decide

end Builder

end TaskScript
