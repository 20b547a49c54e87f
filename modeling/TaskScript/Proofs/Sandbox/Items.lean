import TaskScript.Proofs.Sandbox.Reachable
import TaskScript.Proofs.Sandbox.Visit

/-!
# `Proofs.Sandbox.Items`: where items go

An item lies on a cube, is carried, or is still part of a tree or a rock. `World.amount` counts all of these
together. Work moves an item from one place to another, with one exception: a cube holds no more than one item of
a kind, so an item that is dropped where another of its kind lies is lost (`World.wastes`).

Nothing else in a tick touches an item. So after a tick, what there is and what was lost add up to what there
was (`items_accounted_for`), and the items of a kind are conserved exactly if none of them was lost.

## Contents
- `tally`, `tally_insert`, `tally_erase`: counting the entries of a table.
- `World.amount`, and what it is after each change of a world.
- `World.wastes`, `Works.amount`: **work**.
- `Sandbox.wasted`, `Visited.amount`, `items_accounted_for`: **ticks**.
- `camp_loses_log`: a log that is lost.
-/

namespace TaskScript

open Std

/-! ## Tallies -/

section

variable {α β : Type} [Ord α] [TransOrd α]

theorem size_insert_eq (t : ExtTreeSet α) (k : α) : (t.insert k).size = t.size + (!t.contains k).toNat := by
  rw [ExtTreeSet.size_insert]
  cases t.contains k <;> rfl

theorem size_erase_add_one {t : ExtTreeSet α} {k : α} (h : t.contains k = true) :
    (t.erase k).size + 1 = t.size := by
  have hne : t.size ≠ 0 := by
    intro hzero
    rw [ExtTreeSet.eq_empty_iff_size_eq_zero.mpr hzero, ExtTreeSet.contains_empty] at h
    cases h
  rw [ExtTreeSet.size_erase, if_pos h]
  omega

variable [LawfulEqOrd α]

/-- How many entries of a table have a property. -/
def tally (m : ExtTreeMap α β) (p : β → Bool) : Nat :=
  (m.filter fun _ v => p v).size

/-- An entry counts if there is one and it has the property. -/
theorem size_erase_filter (m : ExtTreeMap α β) (p : β → Bool) (k : α) :
    ((m.filter fun _ v => p v).erase k).size + (m[k]?.any p).toNat = tally m p := by
  have hcontains : (m.filter fun _ v => p v).contains k = m[k]?.any p := by
    rw [ExtTreeMap.contains_eq_isSome_getElem?, ExtTreeMap.getElem?_filter', Option.isSome_filter]
  unfold tally
  rw [ExtTreeMap.size_erase, hcontains]
  cases hany : m[k]?.any p with
  | false => rfl
  | true =>
    have hne : (m.filter fun _ v => p v).size ≠ 0 := by
      intro hzero
      rw [hany, ExtTreeMap.eq_empty_iff_size_eq_zero.mpr hzero, ExtTreeMap.contains_empty] at hcontains
      cases hcontains
    rw [if_pos rfl, Bool.toNat_true]
    omega

variable [DecidableEq α]

theorem tally_erase (m : ExtTreeMap α β) (p : β → Bool) (k : α) :
    tally (m.erase k) p + (m[k]?.any p).toNat = tally m p := by
  have hfilter : (m.erase k).filter (fun _ v => p v) = (m.filter fun _ v => p v).erase k := by
    apply ExtTreeMap.ext_getElem?
    intro a
    rw [ExtTreeMap.getElem?_filter', lookup_erase, lookup_erase, ExtTreeMap.getElem?_filter']
    by_cases ha : k = a <;> simp [ha]
  rw [tally, hfilter, size_erase_filter]

/-- An entry takes the place of the one before. -/
theorem tally_insert (m : ExtTreeMap α β) (p : β → Bool) (k : α) (v : β) :
    tally (m.insert k v) p + (m[k]?.any p).toNat = tally m p + (p v).toNat := by
  have hold := size_erase_filter m p k
  have hfilter : (m.insert k v).filter (fun _ v => p v) =
      if p v then ((m.filter fun _ v => p v).erase k).insert k v else (m.filter fun _ v => p v).erase k := by
    apply ExtTreeMap.ext_getElem?
    intro a
    rw [ExtTreeMap.getElem?_filter', lookup_insert]
    by_cases hv : p v = true
    · rw [if_pos hv, lookup_insert, lookup_erase, ExtTreeMap.getElem?_filter']
      by_cases ha : k = a <;> simp [ha, hv]
    · rw [if_neg hv, lookup_erase, ExtTreeMap.getElem?_filter']
      by_cases ha : k = a <;> simp [ha, hv]
  rw [tally, hfilter]
  by_cases hv : p v = true
  · have hfree : ¬ ((m.filter fun _ v => p v).erase k).contains k = true := by simp
    rw [if_pos hv, ExtTreeMap.size_insert, if_neg hfree, hv, Bool.toNat_true]
    omega
  · rw [if_neg hv, Bool.not_eq_true _ |>.mp hv, Bool.toNat_false]
    omega

end

namespace World

variable {w w' : World} {actor : ActorId} {a : ActorState} {target : Cube} {dt : Float}

/-! ## What there is -/

/-- How many items of a kind lie on cubes. -/
def lying (w : World) : Item → Nat
  | .log => w.logs.size
  | .boulder => w.boulders.size

/-- **How many items of a kind there are**: those in trees or rocks, those that lie on cubes, and those that
actors carry, dead or alive. -/
def amount (w : World) (item : Item) : Nat :=
  tally w.terrain (· == item.source) + w.lying item + tally w.actors (·.carrying == some item)

theorem amount_withActor (h : w.actors[actor]? = some a) (a' : ActorState) (item : Item) :
    (w.withActor actor a').amount item + (a.carrying == some item).toNat =
      w.amount item + (a'.carrying == some item).toNat := by
  have htally := tally_insert w.actors (·.carrying == some item) actor a'
  rw [h, Option.any_some] at htally
  have hlying : (w.withActor actor a').lying item = w.lying item := by cases item <;> rfl
  unfold amount
  rw [hlying]
  simp only [withActor]
  omega

theorem amount_updateActor {change : ActorState → ActorState} (hchange : ∀ x, (change x).carrying = x.carrying)
    (item : Item) : (w.updateActor actor change).amount item = w.amount item := by
  cases hactor : w.actors[actor]? with
  | some a =>
    have hmoved := amount_withActor hactor (change a) item
    rw [hchange] at hmoved
    rw [updateActor_eq hactor]
    omega
  | none =>
    have hsame : w.actors.modify actor change = w.actors := by
      apply ExtTreeMap.ext_getElem?
      intro b
      rw [lookup_modify]
      by_cases hb : actor = b
      · subst hb
        simp [hactor]
      · simp [hb]
    rw [updateActor, hsame]

theorem amount_layItem (w : World) (item : Item) (c : Cube) (other : Item) :
    (w.layItem item c).amount other = w.amount other + (item == other && !w.lies item c).toNat := by
  cases item <;> cases other <;> simp [layItem, amount, lying, lies, Item.source, size_insert_eq] <;> omega

theorem amount_takeItem {item : Item} {c : Cube} (h : w.lies item c = true) (other : Item) :
    (w.takeItem item c).amount other + (item == other).toNat = w.amount other := by
  cases item <;> cases other <;> simp only [lies] at h <;> have hone := size_erase_add_one h <;>
    simp [takeItem, amount, lying, Item.source] <;> omega

theorem amount_clearTerrain {item : Item} {c : Cube} (h : w.terrain[c]? = some item.source) (other : Item) :
    (w.clearTerrain c).amount other + (item == other).toNat = w.amount other := by
  have htally := tally_erase w.terrain (· == other.source) c
  rw [h, Option.any_some] at htally
  have hsource : (item.source == other.source) = (item == other) := by cases item <;> cases other <;> rfl
  rw [hsource] at htally
  have hlying : (w.clearTerrain c).lying other = w.lying other := by cases other <;> rfl
  unfold amount
  rw [hlying]
  simp only [clearTerrain]
  omega

/-! ## Work -/

/-- **Whether an item is lost by work**: the actor drops it on a cube where one of its kind lies already. -/
def wastes (w : World) (actor : ActorId) (target : Cube) (item : Item) : Bool :=
  w.actors[actor]?.any fun a =>
    w.reaches a target && a.carrying == some item && w.lies item (w.dropSpot a target)

/-- **Work** moves items, and loses the one that it wastes. -/
theorem Works.amount (hworks : Works w actor a target w') (h : w.actors[actor]? = some a) (item : Item) :
    w'.amount item + (w.wastes actor target item).toNat = w.amount item := by
  have hwastes : w.wastes actor target item =
      (w.reaches a target && a.carrying == some item && w.lies item (w.dropSpot a target)) := by
    rw [wastes, h, Option.any_some]
  rw [hwastes]
  cases hworks with
  | nothing hwhy => rcases hwhy with hfar | hfree <;> simp [*]
  | @drops dropped hreaches hcarrying =>
    have hlaid : (w.layItem dropped (w.dropSpot a target)).actors[actor]? = some a := by cases dropped <;> exact h
    have hfreed := amount_withActor hlaid { a with carrying := none } item
    rw [amount_layItem] at hfreed
    rw [hcarrying] at hfreed ⊢
    rw [hreaches]
    by_cases hsame : dropped = item
    · subst hsame
      cases hlies : w.lies dropped (w.dropSpot a target) <;> simp [hlies] at hfreed ⊢ <;> omega
    · have hother : (dropped == item) = false := beq_false_of_ne hsame
      simp [hother] at hfreed ⊢
      omega
  | @takes taken hcarrying hlies =>
    have htaken : (w.takeItem taken target).actors[actor]? = some a := by cases taken <;> exact h
    have hloaded := amount_withActor htaken { a with carrying := some taken } item
    have hlifted := amount_takeItem hlies item
    simp only [hcarrying] at hloaded ⊢
    by_cases hsame : taken = item <;> simp [hsame] at hloaded hlifted ⊢ <;> omega
  | wins won hcarrying hlies hsource =>
    have hcleared := amount_clearTerrain hsource item
    have hstill : (w.clearTerrain target).lies won target = false := by
      cases won <;> exact hlies
    rw [amount_layItem, hstill, hcarrying]
    by_cases hsame : won = item <;> simp [hsame] at hcleared ⊢ <;> omega

theorem amount_setActivity (activity : Activity) (item : Item) :
    (w.setActivity actor activity).amount item = w.amount item := by
  apply amount_updateActor
  intro x
  rfl

/-- How many items of a kind are lost when an actor gets on with its activity. -/
def wasted (w : World) (actor : ActorId) (dt : Float) (item : Item) : Nat :=
  match (w.living? actor).bind (·.workDone? dt) with
  | some target => (w.wastes actor target item).toNat
  | none => 0

theorem amount_advanceActivity {result : World × Bool} (h : w.advanceActivity actor dt = .ok result)
    (item : Item) : result.1.amount item + w.wasted actor dt item = w.amount item := by
  unfold wasted
  cases hliving : w.living? actor with
  | none =>
    rw [advanceActivity, hliving] at h
    cases h
    rfl
  | some a =>
    have hactor := (living?_eq_some_iff.mp hliving).1
    rw [Option.bind_some]
    cases progresses hliving h with
    | rests hidle => simp [ActorState.workDone?, hidle]
    | @goesOn position activity _ _ hundone =>
      have hmoved := amount_withActor hactor { a with position, activity } item
      simp only [hundone] at hmoved ⊢
      omega
    | @ends position _ hundone =>
      have hmoved := amount_withActor hactor { a with position, activity := .idle } item
      simp only [hundone] at hmoved ⊢
      omega
    | @works target _ hdone =>
      have hworked := (works_applyWork hactor target).amount hactor item
      simp only [hdone, clearActivity, amount_setActivity]
      exact hworked

end World

namespace Sandbox

variable {s s' : Sandbox} {dt : Float} {actor : ActorId} {a : ActorState} {m m' : Metrics}

/-! ## Ticks -/

theorem amount_absorbed (shift : Shift) (item : Item) :
    (s.absorbed actor shift).world.amount item = s.world.amount item :=
  keeps_absorbed (P := fun w => w.amount item = s.world.amount item)
    (fun _ _ activity h => (World.amount_setActivity activity item).trans h) shift rfl

theorem amount_readied {s₁ : Sandbox} (h : s.readied dt actor a = .ok s₁) (item : Item) :
    s₁.world.amount item = s.world.amount item :=
  keeps_readied (P := fun w => w.amount item = s.world.amount item)
    (fun _ _ activity h => (World.amount_setActivity activity item).trans h) h rfl

/-- How many items of a kind are lost in a visit to an actor. -/
def wastedIn (s : Sandbox) (dt : Float) (actor : ActorId) (item : Item) : Nat :=
  match s.world.actors[actor]? with
  | none => 0
  | some a =>
    match s.readied dt actor a with
    | .error _ => 0
    | .ok s₁ => s₁.world.wasted actor dt item

/-- Only the activity of the actor touches items in a visit. -/
theorem Visited.amount (h : Visited s dt actor a s') (hactor : s.world.actors[actor]? = some a) (item : Item) :
    s'.world.amount item + s.wastedIn dt actor item = s.world.amount item := by
  have hwasted : ∀ {s₁ : Sandbox}, s.readied dt actor a = .ok s₁ →
      s.wastedIn dt actor item = s₁.world.wasted actor dt item := by
    intro s₁ hready
    simp only [wastedIn, hactor, hready]
  cases h with
  | goesOn hready hadvance _ =>
    rw [hwasted hready, ← amount_readied hready item]
    exact World.amount_advanceActivity hadvance item
  | settles hready hadvance _ =>
    rw [hwasted hready, ← amount_readied hready item, amount_absorbed]
    exact World.amount_advanceActivity hadvance item

theorem amount_visitActor (h : visitActor dt (s, m) actor = .ok (s', m')) (item : Item) :
    s'.world.amount item + s.wastedIn dt actor item = s.world.amount item := by
  cases hactor : s.world.actors[actor]? with
  | none =>
    simp only [visitActor, hactor] at h
    cases h
    simp only [wastedIn, hactor]
    rfl
  | some a => exact (visited_of_visitActor hactor h).amount hactor item

/-- How many items of a kind are lost in visits to several actors, one after the other. -/
def wastedBy (dt : Float) (item : Item) : List ActorId → Sandbox × Metrics → Nat
  | [], _ => 0
  | actor :: rest, state =>
    match visitActor dt state actor with
    | .error _ => 0
    | .ok state' => state.1.wastedIn dt actor item + wastedBy dt item rest state'

/-- **How many items of a kind are lost in a tick.** -/
def wasted (s : Sandbox) (dt : Float) (item : Item) : Nat :=
  wastedBy (tickTime dt) item s.world.livingActors (s.ticked, { tick := successor s.tick })

theorem amount_foldlM_visitActor {actors : List ActorId}
    (h : actors.foldlM (visitActor dt) (s, m) = .ok (s', m')) (item : Item) :
    s'.world.amount item + wastedBy dt item actors (s, m) = s.world.amount item := by
  induction actors generalizing s m with
  | nil =>
    cases h
    rfl
  | cons actor rest ih =>
    rw [List.foldlM_cons] at h
    obtain ⟨⟨s₁, m₁⟩, hvisit, hrest⟩ := bind_eq_ok h
    have hfirst := amount_visitActor hvisit item
    have hothers := ih hrest
    simp only [wastedBy, hvisit]
    omega

/-- **Items are accounted for**: after a tick, what there is and what was lost add up to what there was. So the
items of a kind are conserved exactly if no actor dropped one where another of its kind lay. -/
theorem items_accounted_for (h : s.advanceTime dt = .ok (s', m)) (item : Item) :
    s'.world.amount item + s.wasted dt item = s.world.amount item ∧
      (s'.world.amount item = s.world.amount item ↔ s.wasted dt item = 0) := by
  rw [advanceTime_eq] at h
  have hsum : s'.world.amount item + s.wasted dt item = s.world.amount item := amount_foldlM_visitActor h item
  refine ⟨hsum, ?_⟩
  constructor <;> intro heq <;> omega

/-- An actor with empty hands picks up the log of the camp when its work is done, and there are as many logs as
before. -/
theorem camp_keeps_logs :
    let s := (camp.setCarrying ⟨1⟩ none).1
    let log : Cube := ⟨0, 0, 0⟩
    ∃ m, s.advanceTime 2.0 = .ok (s.after 2.0, m) ∧
      (s.world.logs.contains log = true ∧ (s.world.actors[(⟨1⟩ : ActorId)]?.bind (·.carrying)) = none) ∧
      ((s.after 2.0).world.logs.contains log = false ∧
        ((s.after 2.0).world.actors[(⟨1⟩ : ActorId)]?.bind (·.carrying)) = some .log) ∧
      (s.after 2.0).world.amount .log = s.world.amount .log := by
  intro s log
  obtain ⟨m, htick⟩ : ∃ m, s.advanceTime 2.0 = .ok (s.after 2.0, m) := advanceTime_after (by decide +kernel)
  have hkept := (items_accounted_for htick .log).2.mpr (by decide +kernel)
  exact ⟨m, htick, by decide +kernel, by decide +kernel, hkept⟩

/-- **A log is lost.** When its work is done, the actor of the camp drops the log it carries on the log that
lies there, and one log is left of two. -/
theorem camp_loses_log :
    Reachable camp ∧ camp.world.amount .log = 2 ∧
      ∃ m, camp.advanceTime 2.0 = .ok (camp.after 2.0, m) ∧ (camp.after 2.0).world.amount .log = 1 := by
  obtain ⟨m, htick⟩ : ∃ m, camp.advanceTime 2.0 = .ok (camp.after 2.0, m) := advanceTime_after (by decide)
  exact ⟨reachable_camp, by decide +kernel, m, htick, by decide +kernel⟩

end Sandbox

end TaskScript
