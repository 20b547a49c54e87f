import TaskScript.Proofs.Evaluation.Demands
import TaskScript.Proofs.Task.Lookup
import TaskScript.Sandbox.Activity

/-!
# `Proofs.Sandbox.Activity`: what a world does with an actor

A request, a walk and work change the world in several places, one after the other. Each of them is written
here as one change: the world with the actor in another state (`withActor`), and for work with an item in
another place. `Works` lists what work can do, and `Progresses` what a tick does to an activity; no later proof
opens the functions of the world.

## Contents
- `Activity.CarriesOut`: the activities by which an action is carried out.
- `World.withActor`, `updateActor_eq`, `apply_eq`: **requests**.
- `World.lies`, `World.takeItem`, `World.dropSpot`, `World.Works`, `works_applyWork`: **work**.
- `World.Progresses`, `progresses`: **a tick of an activity**.
-/

namespace TaskScript

open Std

/-! ## Activities and items -/

/-- **The activities by which an action is carried out.** -/
inductive Activity.CarriesOut : Activity → Action → Prop
  | moving {target goal credit} : CarriesOut (.moving goal credit) (.moveTo target)
  | working {target goal remaining} : CarriesOut (.working goal remaining) (.work target)
  | following {target goal credit} : CarriesOut (.following goal credit) (.follow target)
  | attacking {target goal remaining} : CarriesOut (.attacking goal remaining) (.attack target)

theorem Activity.isIdle_iff (activity : Activity) : activity.isIdle = true ↔ activity = .idle := by
  cases activity <;> simp [isIdle]

/-- The terrain that an item is made from. -/
def Item.source : Item → Terrain
  | .log => .tree
  | .boulder => .rock

/-- The cube that an actor has worked on once it has spent `dt` more seconds, if its work is done then. -/
def ActorState.workDone? (a : ActorState) (dt : Float) : Option Cube :=
  match a.activity with
  | .working target remaining => if timeSlack < remaining - dt then none else some target
  | _ => none

namespace World

variable {w : World} {actor : ActorId} {a : ActorState}

/-! ## Actors -/

/-- The world with an actor in a given state. -/
def withActor (w : World) (actor : ActorId) (a : ActorState) : World :=
  { w with actors := w.actors.insert actor a }

/-- One actor is in the new state, and all others in the state they were in. -/
theorem actors_withActor (w : World) (actor b : ActorId) (a : ActorState) :
    (w.withActor actor a).actors[b]? = if actor = b then some a else w.actors[b]? :=
  lookup_insert w.actors actor b a

theorem actors_updateActor (w : World) (actor b : ActorId) (change : ActorState → ActorState) :
    (w.updateActor actor change).actors[b]? = if actor = b then w.actors[b]?.map change else w.actors[b]? :=
  lookup_modify w.actors actor b change

/-- Every actor is in the state that it is in. -/
theorem actors_same (h : w.actors[actor]? = some a) (b : ActorId) :
    w.actors[b]? = if actor = b then some a else w.actors[b]? := by
  split
  · rename_i hb
    exact hb ▸ h
  · rfl

/-- **A change of an actor is a new state for it.** With this, every change of the world that is about one actor is
written with `withActor`, in terms of the state that the actor had. -/
theorem updateActor_eq (h : w.actors[actor]? = some a) (change : ActorState → ActorState) :
    w.updateActor actor change = w.withActor actor (change a) := by
  have hactors : w.actors.modify actor change = w.actors.insert actor (change a) := by
    apply ExtTreeMap.ext_getElem?
    intro b
    rw [lookup_modify, lookup_insert]
    split
    · rename_i hb
      rw [← hb, h]
      rfl
    · rfl
  rw [updateActor, withActor, hactors]

theorem updateActor_withActor (change : ActorState → ActorState) :
    (w.withActor actor a).updateActor actor change = w.withActor actor (change a) := by
  rw [updateActor_eq (by rw [actors_withActor, if_pos rfl])]
  have hactors : (w.actors.insert actor a).insert actor (change a) = w.actors.insert actor (change a) := by
    apply ExtTreeMap.ext_getElem?
    intro b
    rw [lookup_insert, lookup_insert, lookup_insert]
    split <;> rfl
  rw [withActor, withActor, withActor, hactors]

/-- The dead keep their place in the table, but are not found among the living. -/
theorem living?_eq_some_iff : w.living? actor = some a ↔ w.actors[actor]? = some a ∧ a.alive = true := by
  rw [living?, Option.filter_eq_some_iff]

/-- What is requested for an action makes a living actor busy with it. -/
theorem apply_eq {scope : Scope} {action : Action} {request : Request}
    (hrequest : scope.request action = .ok request) (hliving : w.living? scope.self = some a) :
    ∃ activity, activity.CarriesOut action ∧ w.apply request = w.withActor scope.self { a with activity } := by
  have hstart : ∀ activity, w.startActivity scope.self activity = w.withActor scope.self { a with activity } := by
    intro activity
    rw [startActivity, hliving]
    exact updateActor_eq (living?_eq_some_iff.mp hliving).1 _
  cases Scope.request_eq_ok_iff.mp hrequest with
  | moveTo _ => exact ⟨_, .moving, hstart _⟩
  | work _ => exact ⟨_, .working, hstart _⟩
  | follow _ => exact ⟨_, .following, hstart _⟩
  | attack _ => exact ⟨_, .attacking, hstart _⟩

/-! ## Work -/

/-- Whether an item lies on a cube. -/
def lies (w : World) : Item → Cube → Bool
  | .log, c => w.logs.contains c
  | .boulder, c => w.boulders.contains c

/-- Takes an item off a cube. -/
def takeItem (w : World) : Item → Cube → World
  | .log, c => { w with logs := w.logs.erase c }
  | .boulder, c => { w with boulders := w.boulders.erase c }

/-- Clears a cube. -/
def clearTerrain (w : World) (c : Cube) : World :=
  { w with terrain := w.terrain.erase c }

/-- Where a carried item is dropped by work on a cube. -/
def dropSpot (w : World) (a : ActorState) (target : Cube) : Cube :=
  if w.isPassable target then target else a.position

/-- Whether a cube can be worked on by an actor. -/
def reaches (w : World) (a : ActorState) (target : Cube) : Bool :=
  a.position.isAdjacent target && w.inBounds target

/-- **What work on a cube can do.** -/
inductive Works (w : World) (actor : ActorId) (a : ActorState) (target : Cube) : World → Prop
  | nothing : w.reaches a target = false ∨ a.carrying = none → Works w actor a target w
  | drops {item} :
      w.reaches a target = true → a.carrying = some item →
      Works w actor a target ((w.layItem item (w.dropSpot a target)).withActor actor { a with carrying := none })
  | takes {item} :
      a.carrying = none → w.lies item target = true →
      Works w actor a target ((w.takeItem item target).withActor actor { a with carrying := some item })
  | wins (item : Item) :
      a.carrying = none → w.lies item target = false → w.terrain[target]? = some item.source →
      Works w actor a target ((w.clearTerrain target).layItem item target)

theorem terrain_of_terrainAt {c : Cube} {t : Terrain} (h : w.terrainAt c = t) (hair : t ≠ .air) :
    w.terrain[c]? = some t := by
  rw [terrainAt] at h
  cases hcube : w.terrain[c]? with
  | none =>
    rw [hcube] at h
    exact absurd h.symm hair
  | some t' =>
    rw [hcube] at h
    exact congrArg some h

/-- **Work does one of four things.** An actor that carries something drops it; one with empty hands takes what
lies there, a boulder before a log, or wins an item from rock or from a tree; and else work is idle. -/
theorem works_applyWork (h : w.actors[actor]? = some a) (target : Cube) :
    Works w actor a target (w.applyWork actor target) := by
  unfold applyWork
  rw [h]
  dsimp only
  split
  · rename_i hfar
    refine .nothing (.inl (Bool.and_eq_false_iff.mpr ?_))
    simpa using hfar
  · rename_i hnear
    have hreaches : w.reaches a target = true := by
      rw [reaches]
      simpa using hnear
    cases hcarrying : a.carrying with
    | some item =>
      dsimp only
      have hlaid : (w.layItem item (w.dropSpot a target)).actors[actor]? = some a := by cases item <;> exact h
      rw [← dropSpot, setCarrying, updateActor_eq hlaid]
      exact .drops hreaches hcarrying
    | none =>
      dsimp only
      split
      · rename_i hboulder
        have htaken : (w.takeItem .boulder target).actors[actor]? = some a := h
        rw [setCarrying, ← takeItem, updateActor_eq htaken]
        exact .takes hcarrying hboulder
      · rename_i hboulder
        split
        · rename_i hlog
          have htaken : (w.takeItem .log target).actors[actor]? = some a := h
          rw [setCarrying, ← takeItem, updateActor_eq htaken]
          exact .takes hcarrying hlog
        · rename_i hlog
          split
          · rename_i hrock
            exact .wins .boulder hcarrying (Bool.not_eq_true _ |>.mp hboulder)
              (terrain_of_terrainAt hrock Terrain.noConfusion)
          · rename_i htree
            exact .wins .log hcarrying (Bool.not_eq_true _ |>.mp hlog)
              (terrain_of_terrainAt htree Terrain.noConfusion)
          · exact .nothing (.inr hcarrying)
          · exact .nothing (.inr hcarrying)

/-- Work changes nothing of the actor but what it carries. -/
theorem Works.withCarrying {target : Cube} {w' : World} (hworks : Works w actor a target w')
    (h : w.actors[actor]? = some a) :
    ∃ carrying, ∀ b, w'.actors[b]? = if actor = b then some { a with carrying } else w.actors[b]? := by
  have hsame : ∀ w' : World, w'.actors = w.actors →
      ∀ b, w'.actors[b]? = if actor = b then some { a with carrying := a.carrying } else w.actors[b]? := by
    intro w' hactors b
    rw [hactors]
    exact actors_same h b
  cases hworks with
  | nothing _ => exact ⟨_, hsame _ rfl⟩
  | @drops item _ _ =>
    refine ⟨none, fun b => ?_⟩
    rw [actors_withActor]
    cases item <;> rfl
  | @takes item _ _ =>
    refine ⟨some item, fun b => ?_⟩
    rw [actors_withActor]
    cases item <;> rfl
  | wins item _ _ _ => exact ⟨_, hsame _ (by cases item <;> rfl)⟩

/-! ## One tick of an activity -/

/-- **What a tick does to the activity of an actor**, and whether the activity has finished by that. -/
inductive Progresses (w : World) (actor : ActorId) (a : ActorState) (dt : Float) : World × Bool → Prop
  | rests : a.activity = .idle → Progresses w actor a dt (w, false)
  | goesOn {position activity} :
      (∀ action, a.activity.CarriesOut action → activity.CarriesOut action) → a.activity ≠ .idle →
      a.workDone? dt = none → Progresses w actor a dt (w.withActor actor { a with position, activity }, false)
  | ends {position} :
      a.activity ≠ .idle → a.workDone? dt = none →
      Progresses w actor a dt (w.withActor actor { a with position, activity := .idle }, true)
  | works {target} :
      a.activity ≠ .idle → a.workDone? dt = some target →
      Progresses w actor a dt ((w.applyWork actor target).clearActivity actor, true)

theorem settleWalk_eq (h : w.actors[actor]? = some a) (walk : Walk) (goOn : Float → Activity) :
    w.settleWalk actor walk goOn =
      (w.withActor actor
        { a with position := walk.position, activity := if walk.isOver then .idle else goOn walk.credit },
        walk.isOver) := by
  unfold settleWalk
  rw [updateActor_eq h]
  cases walk.isOver with
  | true =>
    rw [if_pos rfl, if_pos rfl, clearActivity, setActivity, updateActor_withActor]
  | false =>
    rw [if_neg Bool.false_ne_true, if_neg Bool.false_ne_true, setActivity, updateActor_withActor]

/-- A walk that is over ends its activity, and one that is not goes on in an activity of the same kind. -/
theorem progresses_settleWalk (h : w.actors[actor]? = some a) {dt : Float} {walk : Walk}
    {goOn : Float → Activity} (hbusy : a.activity ≠ .idle) (hwalks : a.workDone? dt = none)
    (hkind : ∀ credit action, a.activity.CarriesOut action → (goOn credit).CarriesOut action) :
    Progresses w actor a dt (w.settleWalk actor walk goOn) := by
  rw [settleWalk_eq h]
  cases walk.isOver with
  | true => exact .ends hbusy hwalks
  | false => exact .goesOn (hkind _) hbusy hwalks

theorem clearActivity_eq (h : w.actors[actor]? = some a) :
    w.clearActivity actor = w.withActor actor { a with activity := .idle } :=
  updateActor_eq h _

/-- **An activity makes progress in one of four ways**, told apart by whether the actor is at something and whether
work is done in this tick. The kind of an activity never changes under way. -/
theorem progresses (hliving : w.living? actor = some a) {dt : Float} {result : World × Bool}
    (h : w.advanceActivity actor dt = .ok result) : Progresses w actor a dt result := by
  have hactor := (living?_eq_some_iff.mp hliving).1
  unfold advanceActivity at h
  rw [hliving] at h
  cases hactivity : a.activity with
  | idle =>
    simp only [hactivity] at h
    cases h
    exact .rests hactivity
  | moving target credit =>
    simp only [hactivity] at h
    obtain ⟨walk, -, hwalk⟩ := bind_eq_ok h
    cases hwalk
    have hwalks : a.workDone? dt = none := by simp [ActorState.workDone?, hactivity]
    refine progresses_settleWalk hactor (by simp [hactivity]) hwalks fun _ action hcarries => ?_
    rw [hactivity] at hcarries
    cases hcarries
    exact .moving
  | following target credit =>
    simp only [hactivity, advanceFollow] at h
    cases hother : w.living? target with
    | none =>
      rw [hother] at h
      cases h
      rw [clearActivity_eq hactor]
      exact .ends (by simp [hactivity]) (by simp [ActorState.workDone?, hactivity])
    | some other =>
      rw [hother] at h
      obtain ⟨walk, -, hwalk⟩ := bind_eq_ok h
      cases hwalk
      have hwalks : a.workDone? dt = none := by simp [ActorState.workDone?, hactivity]
      refine progresses_settleWalk hactor (by simp [hactivity]) hwalks fun _ action hcarries => ?_
      rw [hactivity] at hcarries
      cases hcarries
      exact .following
  | working target remaining =>
    simp only [hactivity] at h
    by_cases htime : timeSlack < remaining - dt
    · simp only [htime, if_true] at h
      cases h
      rw [setActivity, updateActor_eq hactor]
      have hgoes : a.workDone? dt = none := by simp [ActorState.workDone?, hactivity, htime]
      refine .goesOn (fun action hcarries => ?_) (by simp [hactivity]) hgoes
      rw [hactivity] at hcarries
      cases hcarries
      exact .working
    · simp only [htime, if_false] at h
      cases h
      exact .works (by simp [hactivity]) (by simp [ActorState.workDone?, hactivity, htime])
  | attacking target remaining =>
    simp only [hactivity] at h
    split at h <;> cases h
    · rw [setActivity, updateActor_eq hactor]
      refine .goesOn (fun action hcarries => ?_) (by simp [hactivity]) (by simp [ActorState.workDone?, hactivity])
      rw [hactivity] at hcarries
      cases hcarries
      exact .attacking
    · rw [clearActivity_eq hactor]
      exact .ends (by simp [hactivity]) (by simp [ActorState.workDone?, hactivity])

end World

end TaskScript
