import TaskScript.Proofs.Sandbox.Activity
import TaskScript.Sandbox.Tick

/-!
# `Proofs.Sandbox.Visit`: a tick, actor by actor

In a tick every actor that lives at its start is visited. A visit has up to four stages: the actor is offered a
task, has its turn (`Sandbox.readied`), spends the time on its activity, and settles if that has finished it.
`Visited` tells how they follow each other, without the numbers that are counted along the way.

Nobody dies in a tick, so whoever is visited lives (`Visited.lives`). What every visit to a living actor keeps, a
tick does (`keeps_of_advanceTime`).

## Contents
- `Sandbox.offered`, `absorbed`, `readied`.
- `Visited`, `visited_of_visitActor`: **a visit**.
- `keeps_absorbed`, `keeps_readied`: what a turn leaves of the world.
- `World.lives`, `Visited.lives`: **nobody dies**.
- `Sandbox.ticked`, `keeps_of_advanceTime`: **a tick**.
-/

namespace TaskScript

open Std

/-! ## Who lives -/

namespace World

variable {w : World} {actor : ActorId} {a : ActorState}

/-- Whether there is an actor that lives. -/
def lives (w : World) (actor : ActorId) : Bool :=
  w.actors[actor]?.any (·.alive)

theorem lives_iff : w.lives actor = true ↔ ∃ a, w.living? actor = some a := by
  rw [lives, Option.any_eq_true]
  simp only [living?_eq_some_iff]

theorem lives_of_mem_livingActors (h : actor ∈ w.livingActors) : w.lives actor = true := by
  obtain ⟨⟨b, a⟩, hmem, rfl⟩ := List.mem_map.mp h
  obtain ⟨hin, halive⟩ := List.mem_filter.mp hmem
  rw [lives, ExtTreeMap.mem_toList_iff_getElem?_eq_some.mp hin]
  exact halive

theorem lives_updateActor {change : ActorState → ActorState} (hchange : ∀ x, (change x).alive = x.alive)
    (b : ActorId) : (w.updateActor actor change).lives b = w.lives b := by
  rw [lives, lives, actors_updateActor]
  split
  · cases w.actors[b]? with
    | none => rfl
    | some x => exact hchange x
  · rfl

theorem lives_setActivity (activity : Activity) (b : ActorId) :
    (w.setActivity actor activity).lives b = w.lives b := by
  apply lives_updateActor
  intro x
  rfl

/-- A request does nothing, or starts an activity. -/
theorem apply_cases (w : World) (r : Request) :
    w.apply r = w ∨ ∃ actor activity, w.apply r = w.setActivity actor activity := by
  have hstart : ∀ actor activity, w.startActivity actor activity = w ∨
      ∃ actor' activity', w.startActivity actor activity = w.setActivity actor' activity' := by
    intro actor activity
    unfold startActivity
    split
    · exact .inl rfl
    · exact .inr ⟨_, _, rfl⟩
  cases r <;> exact hstart _ _

/-- What a change of an activity keeps, requests do. -/
theorem keeps_foldl_apply {P : World → Prop}
    (hset : ∀ (w : World) actor activity, P w → P (w.setActivity actor activity)) (rs : List Request) (h : P w) :
    P (rs.foldl World.apply w) := by
  induction rs generalizing w with
  | nil => exact h
  | cons r rest ih =>
    rw [List.foldl_cons]
    apply ih
    rcases w.apply_cases r with heq | ⟨actor, activity, heq⟩ <;> rw [heq]
    · exact h
    · exact hset w actor activity h

/-- What a tick leaves of an actor: it is where it has walked to, and busy as before or with nothing. -/
theorem Progresses.actors {dt : Float} {result : World × Bool} (h : Progresses w actor a dt result)
    (hactor : w.actors[actor]? = some a) :
    ∃ a', (∀ b, result.1.actors[b]? = if actor = b then some a' else w.actors[b]?) ∧ a'.alive = a.alive ∧
      (result.2 = true → a.activity ≠ .idle ∧ a'.activity = .idle) ∧
      (result.2 = false → (a.activity = .idle → a'.activity = .idle) ∧
        ∀ action, a.activity.CarriesOut action → a'.activity.CarriesOut action) := by
  cases h with
  | rests hidle => exact ⟨a, actors_same hactor, rfl, Bool.noConfusion, fun _ => ⟨id, fun _ => id⟩⟩
  | goesOn hkind hbusy _ =>
    exact ⟨_, fun b => actors_withActor w actor b _, rfl, Bool.noConfusion,
      fun _ => ⟨fun hidle => absurd hidle hbusy, hkind⟩⟩
  | ends hbusy _ =>
    exact ⟨_, fun b => actors_withActor w actor b _, rfl, fun _ => ⟨hbusy, rfl⟩, Bool.noConfusion⟩
  | @works target hbusy _ =>
    obtain ⟨carrying, hcarrying⟩ := (works_applyWork hactor target).withCarrying hactor
    refine ⟨{ a with carrying, activity := .idle }, fun b => ?_, rfl, fun _ => ⟨hbusy, rfl⟩,
      Bool.noConfusion⟩
    rw [clearActivity, setActivity, actors_updateActor, hcarrying]
    split <;> rfl

end World

namespace Sandbox

variable {s s' : Sandbox} {dt : Float} {actor : ActorId} {a : ActorState} {m m' : Metrics}

/-! ## Visits -/

/-- The sandbox after an actor that is idle was offered a task. -/
def offered (s : Sandbox) (actor : ActorId) (a : ActorState) : Sandbox :=
  if (s.foreman.currentTask? actor).isNone && s.world.surroundings.isFinished actor then
    { s with foreman := (s.foreman.assignIdle actor a.group).1 }
  else s

/-- The sandbox that has taken over the result of an actor's turn. -/
def absorbed (s : Sandbox) (actor : ActorId) (shift : Shift) : Sandbox :=
  let world := shift.requests.foldl World.apply s.world
  { s with
    foreman := shift.foreman
    world :=
      match shift.report with
      | .failed _ _ => world.clearActivity actor
      | _ => world }

/-- The sandbox when an actor's activity is moved on: it was offered a task and had its turn. -/
def readied (s : Sandbox) (dt : Float) (actor : ActorId) (a : ActorState) : Except Overflow Sandbox :=
  ((s.offered actor a).foreman.runActor (s.offered actor a).world.surroundings actor dt).map
    ((s.offered actor a).absorbed actor)

theorem absorb_fst (s : Sandbox) (actor : ActorId) (shift : Shift) (m : Metrics) :
    (s.absorb actor shift m).1 = s.absorbed actor shift := by
  unfold absorb absorbed
  cases shift.report <;> rfl

/-- **A visit to an actor.** -/
inductive Visited (s : Sandbox) (dt : Float) (actor : ActorId) (a : ActorState) : Sandbox → Prop
  | goesOn {s₁ world finished} :
      s.readied dt actor a = .ok s₁ → s₁.world.advanceActivity actor dt = .ok (world, finished) →
      finished = false ∨ s₁.foreman.currentTask? actor = none →
      Visited s dt actor a { s₁ with world }
  | settles {s₁ world shift} :
      s.readied dt actor a = .ok s₁ → s₁.world.advanceActivity actor dt = .ok (world, true) →
      s₁.foreman.settleActor world.surroundings actor = .ok shift →
      Visited s dt actor a (absorbed { s₁ with world } actor shift)

theorem visited_of_visitActor (ha : s.world.actors[actor]? = some a)
    (h : visitActor dt (s, m) actor = .ok (s', m')) : Visited s dt actor a s' := by
  unfold visitActor at h
  simp only [ha] at h
  rw [← offered] at h
  obtain ⟨shift, hturn, h⟩ := bind_eq_ok h
  obtain ⟨⟨world, finished⟩, hadvance, h⟩ := bind_eq_ok h
  rw [absorb_fst] at hadvance h
  have hready : s.readied dt actor a = .ok ((s.offered actor a).absorbed actor shift) := by
    rw [readied, hturn]
    rfl
  split at h
  · rename_i hfinished
    obtain ⟨hfinished, -⟩ := Bool.and_eq_true_iff.mp hfinished
    subst hfinished
    obtain ⟨shift', hsettle, h⟩ := bind_eq_ok h
    have hs' : s' = _ := (Prod.ext_iff.mp (Except.ok.inj h)).1.symm
    rw [hs', absorb_fst]
    exact .settles hready hadvance hsettle
  · rename_i hfinished
    cases h
    refine .goesOn hready hadvance ?_
    cases finished with
    | false => exact .inl rfl
    | true =>
      right
      simpa using hfinished

theorem world_offered (s : Sandbox) (actor : ActorId) (a : ActorState) : (s.offered actor a).world = s.world := by
  unfold offered
  split <;> rfl

/-- An actor is ready for its activity once its turn is over. -/
theorem turn_of_readied (h : s.readied dt actor a = .ok s') :
    ∃ shift, (s.offered actor a).foreman.runActor (s.offered actor a).world.surroundings actor dt = .ok shift ∧
      s' = (s.offered actor a).absorbed actor shift := by
  unfold readied at h
  cases hturn : (s.offered actor a).foreman.runActor (s.offered actor a).world.surroundings actor dt with
  | error _ =>
    rw [hturn] at h
    cases h
  | ok shift =>
    rw [hturn] at h
    cases h
    exact ⟨shift, rfl, rfl⟩

section

variable {P : World → Prop} (hset : ∀ (w : World) actor activity, P w → P (w.setActivity actor activity))

include hset

/-- A turn changes nothing of the world but what actors are busy with. -/
theorem keeps_absorbed (shift : Shift) (h : P s.world) : P (s.absorbed actor shift).world := by
  have hrequests := World.keeps_foldl_apply hset shift.requests h
  unfold absorbed
  cases shift.report with
  | failed _ _ => exact hset _ actor .idle hrequests
  | _ => exact hrequests

theorem keeps_readied (hready : s.readied dt actor a = .ok s') (h : P s.world) : P s'.world := by
  obtain ⟨shift, -, rfl⟩ := turn_of_readied hready
  apply keeps_absorbed hset
  rwa [world_offered]

end

theorem lives_absorbed (shift : Shift) (b : ActorId) :
    (s.absorbed actor shift).world.lives b = s.world.lives b :=
  keeps_absorbed (P := fun w => w.lives b = s.world.lives b)
    (fun _ _ activity h => (World.lives_setActivity activity b).trans h) shift rfl

theorem lives_readied (h : s.readied dt actor a = .ok s') (b : ActorId) :
    s'.world.lives b = s.world.lives b :=
  keeps_readied (P := fun w => w.lives b = s.world.lives b)
    (fun _ _ activity h => (World.lives_setActivity activity b).trans h) h rfl

theorem lives_advanceActivity {w : World} {result : World × Bool} (hlives : w.lives actor = true)
    (h : w.advanceActivity actor dt = .ok result) (b : ActorId) : result.1.lives b = w.lives b := by
  obtain ⟨a, hliving⟩ := World.lives_iff.mp hlives
  have hactor := (World.living?_eq_some_iff.mp hliving).1
  obtain ⟨a', hactors, halive, -⟩ := (World.progresses hliving h).actors hactor
  rw [World.lives, World.lives, hactors]
  split
  · rename_i hb
    rw [← hb, hactor]
    exact halive
  · rfl

/-- **Nobody dies** in a visit. -/
theorem Visited.lives (h : Visited s dt actor a s') (hlives : s.world.lives actor = true) (b : ActorId) :
    s'.world.lives b = s.world.lives b := by
  cases h with
  | goesOn hready hadvance _ =>
    rw [← lives_readied hready b]
    exact lives_advanceActivity ((lives_readied hready actor).trans hlives) hadvance b
  | settles hready hadvance _ =>
    rw [lives_absorbed, ← lives_readied hready b]
    exact lives_advanceActivity ((lives_readied hready actor).trans hlives) hadvance b

/-! ## Ticks -/

/-- The sandbox at the start of its next tick. -/
def ticked (s : Sandbox) : Sandbox :=
  { s with tick := successor s.tick, foreman := s.foreman.beginTick (successor s.tick) }

/-- The time that a tick gives to every actor. -/
def tickTime (dt : Float) : Float :=
  if 0.0 < dt then dt else 0.0

theorem advanceTime_eq (s : Sandbox) (dt : Float) :
    s.advanceTime dt =
      s.world.livingActors.foldlM (visitActor (tickTime dt)) (s.ticked, { tick := successor s.tick }) :=
  rfl

/-- **What every visit to a living actor keeps, a tick does.** -/
theorem keeps_of_advanceTime {P : Sandbox → Prop} (h : s.advanceTime dt = .ok (s', m)) (hstart : P s.ticked)
    (hvisit : ∀ {s s' : Sandbox} {actor : ActorId} {a : ActorState},
      s.world.living? actor = some a → Visited s (tickTime dt) actor a s' → P s → P s') : P s' := by
  rw [advanceTime_eq] at h
  refine (foldlM_keeps (P := fun state => P state.1 ∧ ∀ b, state.1.world.lives b = s.world.lives b) ?_
    ⟨hstart, fun _ => rfl⟩ h).1
  rintro ⟨s₁, m₁⟩ actor ⟨s₂, m₂⟩ hactor ⟨hs₁, hlives⟩ hvisit₁
  have hlive := (hlives actor).trans (World.lives_of_mem_livingActors hactor)
  obtain ⟨a, hliving⟩ := World.lives_iff.mp hlive
  have hvisited := visited_of_visitActor (World.living?_eq_some_iff.mp hliving).1 hvisit₁
  exact ⟨hvisit hliving hvisited hs₁, fun b => (hvisited.lives hlive b).trans (hlives b)⟩

end Sandbox

end TaskScript
