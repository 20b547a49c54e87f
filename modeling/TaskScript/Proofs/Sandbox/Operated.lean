import TaskScript.Proofs.Foreman.Effect
import TaskScript.Proofs.Sandbox.Reachable
import TaskScript.Proofs.Sandbox.Visit

/-!
# `Proofs.Sandbox.Operated`: what is done to the foreman

A sandbox hands on nearly everything to its foreman, and takes care of two things itself: the groups are
registered when they are added, and the clock is turned by a tick. Whatever else commands and visits do to the
foreman is a row of routine operations (`Foreman.Operated`).

## Contents
- `Foreman.Operation.Routine`, `Foreman.Operated`: **rows of routine operations**.
- `Foreman.Operated.registered`: they register nobody.
- `Handles`, `Effect.handles`, `Visited.handles`, `handles_advanceTime`: **what is left to the foreman**.
-/

namespace TaskScript

open Std

namespace Foreman

variable {f f' f'' : Foreman}

/-- The operations that neither turn the clock nor register a group. -/
def Operation.Routine : Operation → Prop
  | .beginTick _ | .registerGroup _ => False
  | _ => True

/-- **A row of routine operations.** -/
inductive Operated : Foreman → Foreman → Prop
  | refl (f : Foreman) : Operated f f
  | step {f f₁ f' : Foreman} {op : Operation} :
      op.Routine → f.perform op = .ok f₁ → Operated f₁ f' → Operated f f'

theorem Operated.single (op : Operation) (hroutine : op.Routine) (hop : f.perform op = .ok f') :
    Operated f f' :=
  .step hroutine hop (.refl f')

theorem Operated.trans (h : Operated f f') (h' : Operated f' f'') : Operated f f'' := by
  induction h with
  | refl => exact h'
  | step hroutine hop _ ih => exact .step hroutine hop (ih h')

/-- Rows of operations lead from one foreman that there can be to another. -/
theorem Operated.reachable {maxSteps : UInt32} (h : Operated f f') (hreach : Reachable maxSteps f) :
    Reachable maxSteps f' := by
  induction h with
  | refl => exact hreach
  | step _ hop _ ih => exact ih (hreach.perform _ hop)

/-- To put a scheduler in place of that of a group is no matter for who has one. -/
theorem contains_insert_of_lookup {g : GroupId} {s : Scheduler} (hs : f.schedulers[g]? = some s) (s' : Scheduler)
    (g' : GroupId) : (f.schedulers.insert g s').contains g' = f.schedulers.contains g' := by
  rw [ExtTreeMap.contains_eq_isSome_getElem?, ExtTreeMap.contains_eq_isSome_getElem?, lookup_insert]
  split
  · rename_i hg
    rw [← hg, hs]
    rfl
  · rfl

/-- Who has a scheduler has one after a routine operation, and nobody else. -/
theorem Effect.registered {op : Operation} (heffect : Effect f op f') (hroutine : op.Routine) (g : GroupId) :
    f'.schedulers.contains g = f.schedulers.contains g := by
  cases heffect with
  | nothing => rfl
  | clock => rfl
  | registers _ => cases hroutine
  | adds hs _ _ => exact contains_insert_of_lookup hs _ g
  | shares hs _ => exact contains_insert_of_lookup hs _ g
  | @removes g₀ s t changed f₁ hs _ hf₁ =>
    rw [schedulers_dropIfOrphaned, hf₁]
    exact contains_insert_of_lookup hs _ g
  | @replaces g₀ s t job changed f₁ f₂ hs _ hf₁ _ hf₂ _ =>
    rw [schedulers_dropIfOrphaned, hf₂, record, withMembership, hf₁, withTask, schedulers_stopped]
    exact contains_insert_of_lookup hs _ g
  | assigns _ _ _ _ => rfl
  | @turns _ around actor dt run shift _ _ _ hends => rw [hends.schedulers, recordPrints_eq]
  | interrupts _ => rfl

/-- **Groups are registered in one place.** No row of routine operations adds a group, and none takes one away. -/
theorem Operated.registered {maxSteps : UInt32} (h : Operated f f') (hreach : Reachable maxSteps f) (g : GroupId) :
    f'.schedulers.contains g = f.schedulers.contains g := by
  induction h with
  | refl => rfl
  | step hroutine hop _ ih =>
    rw [ih (hreach.perform _ hop)]
    exact (effect_perform hreach.sound_held.1 hop).registered hroutine g

/-- A shift is an operation too, with its requests left aside. -/
theorem operated_of_runActor {around : Surroundings} {actor : ActorId} {dt : Float} {shift : Shift}
    (hturn : f.runActor around actor dt = .ok shift) : Operated f shift.foreman := by
  have hop : f.perform (.runActor around actor dt) = .ok shift.foreman := by
    rw [perform, hturn]
    rfl
  exact .single (.runActor around actor dt) trivial hop

end Foreman

namespace Sandbox

variable {s s' : Sandbox}

/-- **What is left to the foreman**: it works on by itself, while the groups and the clock stay as they are. -/
structure Handles (s s' : Sandbox) : Prop where
  operated : Foreman.Operated s.foreman s'.foreman
  groups : s'.groups = s.groups
  tick : s'.tick = s.tick

theorem Handles.refl (s : Sandbox) : Handles s s :=
  ⟨.refl _, rfl, rfl⟩

theorem Handles.trans {s'' : Sandbox} (h : Handles s s') (h' : Handles s' s'') : Handles s s'' where
  operated := h.operated.trans h'.operated
  groups := h'.groups.trans h.groups
  tick := h'.tick.trans h.tick

/-! ## Commands -/

theorem handles_addTask (s : Sandbox) (g : GroupId) (job : Job) : Handles s (s.addTask g job).1 := by
  unfold addTask
  split
  · have hop : Foreman.Operated s.foreman (s.foreman.addTask g job).1 := .single (.addTask g job) trivial rfl
    exact ⟨hop, rfl, rfl⟩
  · exact .refl s

/-- Jobs are handed in one by one until one is refused, and each of them leaves the groups and the clock alone. -/
theorem handles_addTasks (g : GroupId) (jobs : List Job) (s : Sandbox) : Handles s (addTasks g jobs s).1 :=
  keeps_addTasks (P := Handles s) (fun s₁ job _ h => h.trans (handles_addTask s₁ g job)) (.refl s)

/-- **A command adds a group, or leaves it to the foreman what to do.** -/
theorem Effect.handles {c : Command} {result : Sandbox × Except WorldError Unit} (h : Effect s c result) :
    Handles s result.1 ∨
      ∃ g, result.1 = { s with groups := s.groups.insert g, foreman := (s.foreman.registerGroup g).1 } := by
  cases h with
  | refused => exact .inl (.refl s)
  | ignored => exact .inl (.refl s)
  | furnishes _ => exact .inl ⟨.refl _, rfl, rfl⟩
  | @registers g => exact .inr ⟨g, rfl⟩
  | @creates g name priority program targets factory jobs _ _ =>
    have hadds := handles_addTasks g jobs { s with factory }
    exact .inl ⟨hadds.operated, hadds.groups, hadds.tick⟩
  | @adds g job _ => exact .inl ⟨.single (.addTask g job) trivial rfl, rfl, rfl⟩
  | @shares g t _ => exact .inl ⟨.single (.scheduleExisting g t) trivial rfl, rfl, rfl⟩
  | @replaces g t job _ => exact .inl ⟨.single (.replaceTask g t job) trivial rfl, rfl, rfl⟩
  | @removes g t _ => exact .inl ⟨.single (.removeTask g t) trivial rfl, rfl, rfl⟩
  | @stops _ actor change _ => exact .inl ⟨.single (.interrupt actor) trivial rfl, rfl, rfl⟩

/-! ## Visits -/

theorem handles_offered (s : Sandbox) (actor : ActorId) (a : ActorState) : Handles s (s.offered actor a) := by
  unfold offered
  split
  · exact ⟨.single (.assignIdle actor a.group) trivial rfl, rfl, rfl⟩
  · exact .refl s

/-- Before its activity goes on, an actor may be given a task and has a turn: two operations at most. -/
theorem handles_readied {dt : Float} {actor : ActorId} {a : ActorState}
    (hready : s.readied dt actor a = .ok s') : Handles s s' := by
  obtain ⟨shift, hturn, rfl⟩ := turn_of_readied hready
  have habsorbs : Handles (s.offered actor a) ((s.offered actor a).absorbed actor shift) :=
    ⟨Foreman.operated_of_runActor hturn, rfl, rfl⟩
  exact (handles_offered s actor a).trans habsorbs

/-- A visit adds at most a second turn to that, when the activity has ended in the same tick. -/
theorem Visited.handles {dt : Float} {actor : ActorId} {a : ActorState} (h : Visited s dt actor a s') :
    Handles s s' := by
  cases h with
  | goesOn hready _ _ =>
    have hreadied := handles_readied hready
    exact ⟨hreadied.operated, hreadied.groups, hreadied.tick⟩
  | @settles s₁ world shift hready _ hsettle =>
    have hreadied := handles_readied hready
    exact ⟨hreadied.operated.trans (Foreman.operated_of_runActor hsettle), hreadied.groups, hreadied.tick⟩

/-- **Once it has begun, a tick is left to the foreman.** -/
theorem handles_advanceTime {dt : Float} {m : Metrics} (h : s.advanceTime dt = .ok (s', m)) :
    Handles s.ticked s' :=
  keeps_of_advanceTime (P := Handles s.ticked) h (.refl _) fun _ hvisited hs => hs.trans hvisited.handles

end Sandbox

end TaskScript
