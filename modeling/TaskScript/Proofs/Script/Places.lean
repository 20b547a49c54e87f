import TaskScript.Proofs.Program.Parents
import TaskScript.Proofs.Script.Formation

/-!
# `Proofs.Script.Places`: what the check of a program finds in a script

The check of a program goes through a flat arena in pre-order, looks for the loops around a `break` among its ancestors,
and reports names that were given in post-order. A document has none of these. Here the scripts inside a script are
listed in the order in which they are read, each with the name that its statement is given and with a flag for "inside a
loop" (`Script.places`), and what is wrong with one of them is said of the document alone (`Place.Offends`).

Both are the same: at every place the check finds what offends there (`defectAt?_iff`), and it comes to the places in
their order (`places_map_id`). So it accepts the scripts that the rules allow, and refuses all others for the first place
that offends (`check_accepts_wellFormed`).

## Contents
- `Place`, `Script.places`, `Place.Offends`, `Script.FirstOffence`: **what is wrong with a document**.
- `wellFormed_iff_places`: documents without an offence.
- `defectAt?_iff`, `checked_of_nodesAt`, `check_eq_error_iff`: **what the check finds**.
- `wellFormed_of_check`, `check_accepts_wellFormed`: **well-formed documents are accepted, and no others**.
-/

namespace TaskScript

/-- A script inside another one, as it is met by a reader. -/
structure Place where
  /-- Whether there is a loop around it. -/
  inLoop : Bool
  /-- The name of its own statement. -/
  id : StatementId
  script : Script

/-- What is wrong with a script, apart from what is wrong with the scripts inside it. -/
inductive Place.Offends : Place → FormationError → Prop
  | unboundBreak {id : StatementId} : Offends ⟨false, id, .leaf .breakLoop⟩ (.unboundBreak id)
  | emptySequence {inLoop : Bool} {id : StatementId} : Offends ⟨inLoop, id, .sequence []⟩ (.emptySequence id)
  | branch {inLoop : Bool} {id : StatementId} {condition : Expr} {thenBranch : Script} {otherwise : Option Script} :
      condition.kind ≠ .boolean →
      Offends ⟨inLoop, id, .ifThen condition thenBranch otherwise⟩ (.illTypedCondition id condition.kind)
  | loop {inLoop : Bool} {id : StatementId} {condition : Expr} {body : Script} :
      condition.kind ≠ .boolean → Offends ⟨inLoop, id, .whileDo condition body⟩ (.illTypedCondition id condition.kind)

namespace Script

mutual

/-- **The places of a script in pre-order**, the first of its statements being named `n`. Names are given in post-order:
a statement comes after everything inside it. -/
def places : Script → Bool → Nat → List Place
  | .sequence body, inLoop, n => ⟨inLoop, n + sizeAll body, .sequence body⟩ :: placesAll body inLoop n
  | .ifThen condition thenBranch none, inLoop, n =>
    ⟨inLoop, n + thenBranch.size, .ifThen condition thenBranch none⟩ :: thenBranch.places inLoop n
  | .ifThen condition thenBranch (some otherwise), inLoop, n =>
    ⟨inLoop, n + (thenBranch.size + otherwise.size), .ifThen condition thenBranch (some otherwise)⟩ ::
      (thenBranch.places inLoop n ++ otherwise.places inLoop (n + thenBranch.size))
  | .whileDo condition body, inLoop, n =>
    ⟨inLoop, n + body.size, .whileDo condition body⟩ :: body.places true n
  | .leaf l, inLoop, n => [⟨inLoop, n, .leaf l⟩]
termination_by structural s => s

/-- The same for scripts that stand one after the other from `n` on. -/
def placesAll : List Script → Bool → Nat → List Place
  | [], _, _ => []
  | s :: rest, inLoop, n => s.places inLoop n ++ placesAll rest inLoop (n + s.size)
termination_by structural ss => ss

end

/-- **The defect of the first place that offends**, in the order in which a document is read. -/
def FirstOffence (s : Script) (d : FormationError) : Prop :=
  ∃ before q after, s.places false 0 = before ++ q :: after ∧ (∀ q' ∈ before, ∀ d', ¬ q'.Offends d') ∧ q.Offends d

theorem places_eq (s : Script) (inLoop : Bool) (n : Nat) :
    s.places inLoop n = ⟨inLoop, s.rootAt n, s⟩ :: placesAll s.children (s.childrenInLoop inLoop) n := by
  rcases s with body | ⟨condition, thenBranch, _ | otherwise⟩ | ⟨condition, body⟩ | l <;>
    simp [places, placesAll, children, childrenInLoop, rootAt_eq, sizeAll]

theorem placesAll_map_id_of {ss : List Script}
    (h : ∀ s ∈ ss, ∀ inLoop n, (s.places inLoop n).map Place.id = s.preorder n) (inLoop : Bool) (n : Nat) :
    (placesAll ss inLoop n).map Place.id = preorderAll ss n := by
  induction ss generalizing n with
  | nil => rfl
  | cons s rest ih =>
    have hrest := ih fun t ht => h t (List.mem_cons_of_mem _ ht)
    simp only [placesAll, preorderAll, List.map_append, h s List.mem_cons_self, hrest]

/-- Places are met in the pre-order of their names. -/
theorem places_map_id (s : Script) (inLoop : Bool) (n : Nat) : (s.places inLoop n).map Place.id = s.preorder n := by
  induction s using childInduction generalizing inLoop n with
  | step s ih => simp only [places_eq, preorder_eq, List.map_cons, placesAll_map_id_of ih]

/-! ## Documents without an offence -/

/-- The rules hold of a script if nothing is wrong with it, and they hold of the scripts inside it. -/
theorem wellFormed_iff_children (s : Script) (inLoop : Bool) (id : StatementId) :
    s.WellFormed inLoop ↔
      (∀ d, ¬ Place.Offends ⟨inLoop, id, s⟩ d) ∧ ∀ c ∈ s.children, c.WellFormed (s.childrenInLoop inLoop) := by
  constructor
  · intro h
    cases h with
    | leaf hbreak =>
      refine ⟨?_, by simp [children]⟩
      intro d hd
      cases hd
      exact absurd (hbreak rfl) Bool.false_ne_true
    | sequence hne hbody =>
      refine ⟨?_, hbody⟩
      intro d hd
      cases hd
      exact hne rfl
    | ifThen hkind hthen helse =>
      refine ⟨?_, ?_⟩
      · intro d hd
        cases hd with
        | branch hne => exact hne hkind
      · intro c hc
        rcases List.mem_cons.mp hc with rfl | hc
        · exact hthen
        · exact helse c (Option.mem_toList.mp hc)
    | whileDo hkind hbody =>
      refine ⟨?_, ?_⟩
      · intro d hd
        cases hd with
        | loop hne => exact hne hkind
      · intro c hc
        rw [List.mem_singleton.mp hc]
        exact hbody
  · -- conversely, each rule that did not hold would be an offence of this script
    rintro ⟨hclean, hchildren⟩
    cases s with
    | leaf l =>
      refine .leaf ?_
      rintro rfl
      -- outside of a loop, a `break` would be an offence
      by_contra hout
      rw [Bool.not_eq_true] at hout
      subst hout
      exact hclean _ .unboundBreak
    | sequence body =>
      refine .sequence ?_ hchildren
      rintro rfl
      exact hclean _ .emptySequence
    | ifThen condition thenBranch otherwise =>
      refine .ifThen ?_ (hchildren _ List.mem_cons_self) ?_
      · by_contra hne
        exact hclean _ (.branch hne)
      · intro s hs
        exact hchildren s (List.mem_cons_of_mem _ (Option.mem_toList.mpr hs))
    | whileDo condition body =>
      refine .whileDo ?_ (hchildren _ List.mem_cons_self)
      by_contra hne
      exact hclean _ (.loop hne)

theorem wellFormedAll_iff_of {ss : List Script}
    (h : ∀ s ∈ ss, ∀ inLoop n, s.WellFormed inLoop ↔ ∀ q ∈ s.places inLoop n, ∀ d, ¬ q.Offends d)
    (inLoop : Bool) (n : Nat) :
    (∀ s ∈ ss, s.WellFormed inLoop) ↔ ∀ q ∈ placesAll ss inLoop n, ∀ d, ¬ q.Offends d := by
  induction ss generalizing n with
  | nil => simp [placesAll]
  | cons s rest ih =>
    have hrest := ih fun t ht => h t (List.mem_cons_of_mem _ ht)
    rw [placesAll, List.forall_mem_append, List.forall_mem_cons, ← hrest, ← h s List.mem_cons_self]

/-- **The rules hold of a document if no place of it offends.** -/
theorem wellFormed_iff_places (s : Script) (inLoop : Bool) (n : Nat) :
    s.WellFormed inLoop ↔ ∀ q ∈ s.places inLoop n, ∀ d, ¬ q.Offends d := by
  induction s using childInduction generalizing inLoop n with
  | step s ih =>
    rw [wellFormed_iff_children s inLoop (s.rootAt n), places_eq, List.forall_mem_cons, wellFormedAll_iff_of ih]

/-! ## What the check finds -/

variable {p : Program}

theorem conditionDefect?_eq_some_iff {id : StatementId} {condition : Expr} {d : FormationError} :
    Program.conditionDefect? id condition = some d ↔
      condition.kind ≠ .boolean ∧ d = .illTypedCondition id condition.kind := by
  unfold Program.conditionDefect?
  by_cases hkind : condition.kind = .boolean
  · simp [hkind]
  · simp [hkind, eq_comm]

/-- **At every place the check finds what offends there.** -/
theorem defectAt?_iff {s : Script} {parent : Option StatementId} {n : Nat} {inLoop : Bool}
    (h : NodesAt p n (s.nodes parent n)) (hloop : (p.ancestors (s.rootAt n)).any p.isLoop = inLoop)
    (d : FormationError) : p.defectAt? (s.rootAt n) = some d ↔ Place.Offends ⟨inLoop, s.rootAt n, s⟩ d := by
  rw [Program.defectAt?, h.statement?]
  cases s with
  | leaf l =>
    cases l with
    | breakLoop =>
      -- a `break` is the only leaf that the check looks at, and it looks for a loop among the ancestors
      simp only [statementAt, head, hloop]
      cases inLoop with
      | true =>
        constructor
        · intro hd
          cases hd
        · intro hd
          cases hd
      | false =>
        constructor
        · intro hd
          cases hd
          exact .unboundBreak
        · intro hd
          cases hd
          rfl
    | _ =>
      constructor
      · intro hd
        cases hd
      · intro hd
        cases hd
  | sequence body =>
    cases body with
    | nil =>
      constructor
      · intro hd
        cases hd
        exact .emptySequence
      · intro hd
        cases hd
        rfl
    | cons s rest =>
      constructor
      · intro hd
        cases hd
      · intro hd
        cases hd
  | ifThen condition thenBranch otherwise =>
    refine conditionDefect?_eq_some_iff.trans ?_
    constructor
    · rintro ⟨hne, rfl⟩
      exact .branch hne
    · intro hd
      cases hd with
      | branch hne => exact ⟨hne, rfl⟩
  | whileDo condition body =>
    refine conditionDefect?_eq_some_iff.trans ?_
    constructor
    · rintro ⟨hne, rfl⟩
      exact .loop hne
    · intro hd
      cases hd with
      | loop hne => exact ⟨hne, rfl⟩

/-- A place in some scripts that stand one after the other is a place in one of them, which has a segment of its own. -/
theorem NodesAt.place {ss : List Script} {parent : Option StatementId} {n : Nat} {inLoop : Bool}
    (h : NodesAt p n (nodesAll ss parent n)) {q : Place} (hq : q ∈ placesAll ss inLoop n) :
    ∃ s ∈ ss, ∃ m, NodesAt p m (s.nodes parent m) ∧ q ∈ s.places inLoop m := by
  induction ss generalizing n with
  | nil => cases hq
  | cons s rest ih =>
    rcases List.mem_append.mp hq with hq | hq
    · exact ⟨s, List.mem_cons_self, n, h.first, hq⟩
    · obtain ⟨t, ht, m, hm, hq⟩ := ih h.others hq
      exact ⟨t, List.mem_cons_of_mem _ ht, m, hm, hq⟩

/-- **A program has every place of its script**: the script of the place is found under its name, and the check finds
there what offends. -/
theorem places_of_nodesAt (hahead : p.ParentsAhead) (s : Script) (parent : Option StatementId) (n : Nat)
    (inLoop : Bool) (h : NodesAt p n (s.nodes parent n))
    (hloop : (p.ancestors (s.rootAt n)).any p.isLoop = inLoop) :
    ∀ q ∈ s.places inLoop n, q.script.At p q.id ∧ ∀ d, p.defectAt? q.id = some d ↔ q.Offends d := by
  induction s using childInduction generalizing parent n inLoop with
  | step s ih =>
    intro q hq
    rw [places_eq] at hq
    rcases List.mem_cons.mp hq with rfl | hq
    · exact ⟨at_of_nodesAt s parent n h, defectAt?_iff h hloop⟩
    · -- a child has one ancestor more than its parent, which is the parent
      obtain ⟨c, hc, m, hm, hq⟩ := h.children.place hq
      apply ih c hc _ m _ hm _ q hq
      rw [Program.ancestors_of_parent? hahead hm.parent?, List.any_cons, hloop, isLoop_root h]

section

variable {s : Script} (h : s.build = .ok p)

include h

theorem places_of_build :
    ∀ q ∈ s.places false 0, q.script.At p q.id ∧ ∀ d, p.defectAt? q.id = some d ↔ q.Offends d := by
  obtain ⟨-, -, hnodes⟩ := nodesAt_of_build h
  apply places_of_nodesAt (sealed_of_build h).parentsAhead s none 0 false hnodes
  rw [Program.ancestors_of_parent?_eq_none hnodes.parent?]
  rfl

/-- The check comes to the places of the script in the order in which the document is read. -/
theorem subtree_root_eq_places : p.subtree p.root = (s.places false 0).map Place.id := by
  rw [subtree_root_of_build h, places_map_id]

/-- **A program is refused for the first place that offends.** -/
theorem check_eq_error_iff (d : FormationError) : p.check = .error d ↔ s.FirstOffence d := by
  have hplaces := places_of_build h
  rw [Program.check_eq_error_iff_findSome?, subtree_root_eq_places h, List.findSome?_map, List.findSome?_eq_some_iff]
  constructor
  · rintro ⟨before, q, after, hsplit, hd, hbefore⟩
    rw [hsplit] at hplaces
    refine ⟨before, q, after, hsplit, ?_, ((hplaces q (by simp)).2 d).mp hd⟩
    intro q' hq' d' hd'
    have hnone : p.defectAt? q'.id = none := hbefore q' hq'
    rw [((hplaces q' (by simp [hq'])).2 d').mpr hd'] at hnone
    cases hnone
  · rintro ⟨before, q, after, hsplit, hbefore, hd⟩
    rw [hsplit] at hplaces
    refine ⟨before, q, after, hsplit, ((hplaces q (by simp)).2 d).mpr hd, ?_⟩
    intro q' hq'
    rw [Option.eq_none_iff_forall_ne_some]
    intro d' hd'
    exact hbefore q' hq' d' (((hplaces q' (by simp [hq'])).2 d').mp hd')

/-- **A program that passes the check comes from a well-formed script, and no other does.** -/
theorem check_eq_ok_iff : p.check = .ok () ↔ s.WellFormed false := by
  have hplaces := places_of_build h
  rw [Program.check_eq_ok_iff_findSome?, List.findSome?_eq_none_iff, subtree_root_eq_places h, List.forall_mem_map,
    wellFormed_iff_places s false 0]
  apply forall₂_congr
  intro q hq
  rw [Option.eq_none_iff_forall_ne_some]
  exact forall_congr' fun d => not_congr ((hplaces q hq).2 d)

end

/-- **A program that passes the check comes from a well-formed script.** -/
theorem wellFormed_of_check {s : Script} (hbuild : s.build = .ok p) (hcheck : p.check = .ok ()) :
    s.WellFormed false :=
  (check_eq_ok_iff hbuild).mp hcheck

/-- **Well-formed documents are accepted, and no others.** Whatever script there is, a program is made of it, and the
program passes the check exactly if the script is well-formed. Otherwise it is refused for the first place that offends,
in the order in which the document is read, and no name that is reported is unknown. The check comes to the places in
that order, and the name of a place is that of its statement in the arena. -/
theorem check_accepts_wellFormed (s : Script) :
    ∃ p, s.build = .ok p ∧ (p.check = .ok () ↔ s.WellFormed false) ∧
      (∀ d, p.check = .error d ↔ s.FirstOffence d) ∧ (∀ id, p.check ≠ .error (.unknownStatement id)) ∧
      p.subtree p.root = (s.places false 0).map Place.id ∧ ∀ q ∈ s.places false 0, q.script.At p q.id := by
  have hbuild := build_eq s
  refine ⟨_, hbuild, check_eq_ok_iff hbuild, check_eq_error_iff hbuild, ?_, subtree_root_eq_places hbuild, ?_⟩
  · intro id herror
    obtain ⟨before, q, after, -, -, hd⟩ := (check_eq_error_iff hbuild _).mp herror
    cases hd
  · intro q hq
    exact (places_of_build hbuild q hq).1

/-- A loop over a condition that is no truth value, around a sequence without statements and a `break`. -/
def confused : Script :=
  .whileDo (.position .here) (.sequence [.sequence [], .leaf .breakLoop])

/-- It is refused for its condition, although the loop comes last in the arena. -/
theorem confused_refused_for_condition :
    confused.FirstOffence (.illTypedCondition 3 .position) ∧
      ∃ p, confused.build = .ok p ∧ p.check = .error (.illTypedCondition 3 .position) ∧
        (Script.sequence []).At p 0 := by
  have hfirst : confused.FirstOffence (.illTypedCondition 3 .position) :=
    ⟨[], _, _, rfl, by simp, .loop (by decide)⟩
  obtain ⟨p, hbuild, -, hrefused, -, -, hplaces⟩ := check_accepts_wellFormed confused
  have hempty : (⟨true, 0, .sequence []⟩ : Place) ∈ confused.places false 0 := by
    simp [confused, places, placesAll, sizeAll, size]
  exact ⟨hfirst, p, hbuild, (hrefused _).mpr hfirst, hplaces _ hempty⟩

end Script

end TaskScript
