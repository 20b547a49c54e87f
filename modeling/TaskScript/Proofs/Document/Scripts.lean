import TaskScript.Document.Script
import TaskScript.Proofs.Document.Expressions
import TaskScript.Proofs.Script.Lowering

/-!
# `Proofs.Document.Scripts`: scripts are read back

A statement is read off an object whose tag may stand anywhere among the parts. `always_statement` says what is the
same for every form: in whatever order the members stand, the tag is found and the parts are left, as a record. What
remains is the parts of each form, by induction over the script.

A script is read no deeper than its document is nested, so the induction is for all readers that go deep enough
(`Script.IsReadOff`).

## Contents
- `Script.IsReadOff`, `always_statement`: **a statement is read off its form and its parts**.
- `Script.always_isReadOff`, `Script.readsAs`: **scripts are read back**.
- `Script.exists_form`: every document of a script is tagged, and which of them have another branch.
-/

namespace TaskScript

open Json

namespace Script

/-! ## Statements -/

/-- The document is read as the script by every reader that goes deep enough. -/
def IsReadOff (s : Script) (j : Json) : Prop :=
  ∀ n nested, j.depth ≤ n → read n nested j = some s

theorem depth_le_depthOfMembers {m : String × Json} {members : List (String × Json)} (h : m ∈ members) :
    m.2.depth ≤ depthOfMembers members := by
  induction members with
  | nil => cases h
  | cons m' rest ih =>
    rw [depthOfMembers]
    rcases List.mem_cons.mp h with rfl | hrest
    · exact Nat.le_max_left _ _
    · exact Nat.le_trans (ih hrest) (Nat.le_max_right _ _)

/-- What a reader of statements is left with once the tag is found: a record of the parts, which are less deep
than the statement. -/
structure Parts (parts : Json) (members : List (String × Json)) (n : Nat) : Prop where
  record : ∀ fields, parts.record? fields = (Json.obj members).record? fields
  hasNoParts : parts.hasNoParts = true
  depth_le : ∀ m ∈ members, m.2.depth ≤ n

/-- **A statement is read off its form and its parts.** -/
theorem always_statement {s : Script} {form : String} {members : List (String × Json)}
    {M : List (String × Json) → Prop} (hnodup : ("op" :: members.map Prod.fst).Nodup)
    (hmembers : MembersAlways members M)
    (hread : ∀ n nested j parts members', M members' → Parts parts members' n →
      j.statement? nested = some (form, parts) → read (n + 1) nested j = some s) :
    (Json.obj (("op", .str form) :: members)).Always s.IsReadOff := by
  refine .obj hnodup (.cons (.scalar (P := (· = .str form)) rfl rfl) hmembers) ?_
  rintro _ shuffled hkeys ⟨_, members', rfl, rfl, hmembers'⟩ hperm n nested hdepth
  -- no part is named like the tag, so the tag is found alone and the parts are left whole
  have hop : ∀ m ∈ members', m.1 ≠ "op" := by
    intro m hm heq
    have hfresh := (List.nodup_cons.mp hnodup).1
    rw [← (List.cons.inj hkeys).2] at hfresh
    exact hfresh (heq ▸ List.mem_map_of_mem hm)
  have htag : shuffled.filter (·.1 == "op") = [("op", .str form)] := by
    have hfilter := hperm.filter (·.1 == "op")
    have hnone : members'.filter (·.1 == "op") = [] := List.filter_eq_nil_iff.mpr (by simpa using hop)
    rw [List.filter_cons_of_pos rfl, hnone] at hfilter
    exact (List.singleton_perm.mp hfilter).symm
  have hrest : members'.Perm (shuffled.filter (·.1 != "op")) := by
    have hfilter := hperm.filter (·.1 != "op")
    rwa [List.filter_cons_of_neg (by simp), List.filter_eq_self.mpr (by simpa using hop)] at hfilter
  cases n with
  | zero => cases hdepth
  | succ n =>
    refine hread n nested _ _ members' hmembers' ⟨fun fields => (record?_perm hrest fields).symm, rfl, ?_⟩ ?_
    · intro m hm
      exact Nat.le_trans (depth_le_depthOfMembers (hperm.mem_iff.mp (List.mem_cons_of_mem _ hm)))
        (Nat.le_of_succ_le_succ hdepth)
    · rw [statement?, htag]
      rfl

/-! ## Scripts -/

theorem toJsonAll_eq (ss : List Script) : toJsonAll ss = ss.map toJson := by
  induction ss with
  | nil => rfl
  | cons s rest ih => rw [toJsonAll, ih, List.map_cons]

theorem toList?_read {body : List Script} {items : List Json} {n : Nat} (h : List.Forall₂ IsReadOff body items)
    (hdepth : depthOfItems items ≤ n) : toList? (read n true) (.arr items) = some body := by
  refine toList?_eq ?_
  induction h with
  | nil => exact .nil
  | cons hitem _ ih =>
    obtain ⟨hfirst, hrest⟩ := Nat.max_le.mp hdepth
    exact .cons (hitem n true hfirst) (ih hrest)

theorem read_null (n : Nat) (nested : Bool) : read n nested .null = none := by
  cases n <;> rfl

/-- A statement with a single part, which is an expression. -/
theorem always_leaf {α : Type} {l : Leaf} {form name : String} {d : Json} {e : α} {reader : Json → Option α}
    (he : d.ReadsAs reader e) (hname : name ≠ "op")
    (hread : ∀ n nested j parts, onePart? name reader parts = some e →
      j.statement? nested = some (form, parts) → read (n + 1) nested j = some (.leaf l)) :
    (Json.obj [("op", .str form), (name, d)]).Always (IsReadOff (.leaf l)) := by
  refine always_statement (by simp [hname.symm]) (.cons he .nil) ?_
  rintro n nested j parts _ ⟨part, _, rfl, hpart, rfl⟩ hparts hstatement
  refine hread n nested j parts ?_ hstatement
  simp [onePart?, hparts.record, Field.lookup?, hpart]

/-- Leaves are read back. -/
theorem always_isReadOff_leaf (l : Leaf) : (leaf l).toJson.Always (IsReadOff (.leaf l)) := by
  cases l with
  | assign name value =>
    simp only [toJson, Leaf.label, Leaf.members]
    refine always_statement (by simp)
      (.cons (.scalar (P := (toString? · = some name)) rfl rfl) (.cons (value.readsAs isBlank) .nil)) ?_
    rintro n nested j parts _ ⟨x, _, rfl, hx, v, _, rfl, hv, rfl⟩ hparts hstatement
    simp [read, hstatement, hparts.record, Field.lookup?, hx, hv]
  | action a =>
    cases a with
    | moveTo target | work target =>
      simp only [toJson, Leaf.label, Action.label, Leaf.members, Action.members]
      refine always_leaf (target.readsAs isBlank) (by simp) fun n nested j parts htarget hstatement => ?_
      simp [read, hstatement, htarget]
    | follow target | attack target =>
      simp only [toJson, Leaf.label, Action.label, Leaf.members, Action.members]
      refine always_leaf (target.readsAs isBlank) (by simp) fun n nested j parts htarget hstatement => ?_
      simp [read, hstatement, htarget]
  | print value =>
    simp only [toJson, Leaf.label, Leaf.members]
    refine always_leaf (value.readsAs isBlank) (by simp) fun n nested j parts hvalue hstatement => ?_
    simp [read, hstatement, hvalue]
  | breakLoop | noOp =>
    simp only [toJson, Leaf.label, Leaf.members]
    refine always_statement (by simp) .nil fun n nested j parts _ _ hparts hstatement => ?_
    simp [read, hstatement, hparts.hasNoParts]

/-- **Scripts are read back**, by every reader that goes deep enough. -/
theorem always_isReadOff (s : Script) : s.toJson.Always s.IsReadOff := by
  induction s using childInduction with
  | step s ih =>
    cases s with
    | sequence body =>
      rw [toJson, toJsonAll_eq]
      refine always_statement (by simp) (.cons (.list ih) .nil) ?_
      rintro n nested j parts _ ⟨_, _, rfl, ⟨items, rfl, hitems⟩, rfl⟩ hparts hstatement
      -- the body is two levels down: the statement holds an array, and this the scripts
      have hbody : toList? (read n true) (.arr items) = some body :=
        toList?_read hitems (Nat.le_of_succ_le (hparts.depth_le _ List.mem_cons_self))
      simp [read, hstatement, onePart?, hparts.record, Field.lookup?, hbody]
    | ifThen condition thenBranch otherwise =>
      have hcondition := condition.readsAs isBlank
      have hthenBranch := ih thenBranch List.mem_cons_self
      cases otherwise with
      | none =>
        rw [toJson]
        refine always_statement (by simp) (.cons hcondition (.cons hthenBranch .nil)) ?_
        rintro n nested j parts _ ⟨c, _, rfl, hc, t, _, rfl, ht, rfl⟩ hparts hstatement
        have hthen : read n true t = some thenBranch := ht n true (hparts.depth_le ("then", t) (by simp))
        -- a branch that is left out is read like `null`
        simp [read, hstatement, hparts.record, Field.lookup?, hc, hthen, toOption?]
      | some otherwise =>
        have hotherwise := ih otherwise (List.mem_cons_of_mem _ List.mem_cons_self)
        rw [toJson]
        refine always_statement (by simp) (.cons hcondition (.cons hthenBranch (.cons hotherwise .nil))) ?_
        rintro n nested j parts _ ⟨c, _, rfl, hc, t, _, rfl, ht, o, _, rfl, ho, rfl⟩ hparts hstatement
        have hthen : read n true t = some thenBranch := ht n true (hparts.depth_le ("then", t) (by simp))
        have helse : toOption? (read n true) o = some (some otherwise) :=
          toOption?_eq (read_null n true) (ho n true (hparts.depth_le ("otherwise", o) (by simp)))
        simp [read, hstatement, hparts.record, Field.lookup?, hc, hthen, helse]
    | whileDo condition body =>
      rw [toJson]
      refine always_statement (by simp)
        (.cons (condition.readsAs isBlank) (.cons (ih body List.mem_cons_self) .nil)) ?_
      rintro n nested j parts _ ⟨c, _, rfl, hc, b, _, rfl, hb, rfl⟩ hparts hstatement
      have hbody : read n true b = some body := hb n true (hparts.depth_le ("body", b) (by simp))
      simp [read, hstatement, hparts.record, Field.lookup?, hc, hbody]
    | leaf l => exact always_isReadOff_leaf l

/-- **Scripts are read back.** -/
theorem readsAs (s : Script) : s.toJson.ReadsAs ofJson? s where
  proper := (always_isReadOff s).proper
  holds j hj := by
    rw [ofJson?, if_pos hj.isReadable]
    exact (always_isReadOff s).holds j hj j.depth false (Nat.le_refl _)

/-! ## The shape of the documents -/

/-- Every statement is tagged with the name of its form, once. A conditional with another branch is the only one
that has a member for it. -/
theorem exists_form (s : Script) : ∃ form ∈ forms, ∃ members, s.toJson = .obj (("op", .str form) :: members) ∧
    "op" ∉ members.map Prod.fst ∧
    ("otherwise" ∈ members.map Prod.fst ↔ ∃ condition thenBranch otherwise,
      s = .ifThen condition thenBranch (some otherwise)) := by
  match s with
  | .sequence body => exact ⟨"sequence", by decide, _, toJson.eq_1 body, by simp, by simp⟩
  | .ifThen condition thenBranch none => exact ⟨"if", by decide, _, by rw [toJson], by simp, by simp⟩
  | .ifThen condition thenBranch (some otherwise) => exact ⟨"if", by decide, _, by rw [toJson], by simp, by simp⟩
  | .whileDo condition body => exact ⟨"while", by decide, _, by rw [toJson], by simp, by simp⟩
  | .leaf l =>
    refine ⟨l.label, ?_, l.members, by rw [toJson], ?_⟩
    · cases l with
      | action a => cases a <;> simp [forms, Leaf.label, Action.label]
      | _ => simp [forms, Leaf.label]
    · cases l with
      | action a => cases a <;> simp [Leaf.members, Action.members]
      | _ => simp [Leaf.members]

end Script

end TaskScript
