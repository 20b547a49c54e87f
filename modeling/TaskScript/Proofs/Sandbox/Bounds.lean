import TaskScript.Proofs.Sandbox.Operated
import TaskScript.Proofs.Sandbox.Orderly
import TaskScript.Proofs.Sandbox.Room
import TaskScript.Proofs.Sandbox.Walks

/-!
# `Proofs.Sandbox.Bounds`: the sandbox never leaves its grid

A script may name any cube there is as the target of an action, and no check is made when an activity starts. It
is the activity that stays inside: a walk goes on only into cubes that can be entered, and work is done only on
cubes of the world. What is dropped where it cannot lie is dropped where the actor stands.

`World.Sited` says that everything in a world of a given size lies inside, and that its actors belong to groups
that are known. Commands keep it by their checks, and visits because walks and work do.

## Contents
- `World.Sited`, with a lemma for each change of a world.
- `World.Sited.carried`: **walks and work**.
- `sited_perform`: **commands**.
- `Sandbox.Sited`, `Reachable.sited`: every sandbox.
- `never_leaves_grid`: **the sandbox never leaves its grid**.
-/

namespace TaskScript

open Std

variable {size : Extent} {known : ExtTreeSet GroupId}

/-- An actor that stands in the world and belongs to a known group. -/
structure ActorState.Sited (size : Extent) (known : ExtTreeSet GroupId) (a : ActorState) : Prop where
  position : size.contains a.position = true
  group : known.contains a.group = true

namespace World

/-- **A world of a given size in which everything lies inside**: actors, items and terrain. -/
structure Sited (size : Extent) (known : ExtTreeSet GroupId) (w : World) : Prop where
  config : w.config.worldSize = size
  actors : ∀ (actor : ActorId) (a : ActorState), w.actors[actor]? = some a → a.Sited size known
  items : ∀ (item : Item) (c : Cube), w.lies item c = true → size.contains c = true
  terrain : ∀ (c : Cube) (t : Terrain), w.terrain[c]? = some t → size.contains c = true ∧ t ≠ .air

variable {w w' : World} {actor : ActorId} {a : ActorState}

/-- What lies in a world after an item was laid lay there before, or is the item. -/
theorem lies_of_layItem {item other : Item} {c c' : Cube} (h : (w.layItem item c).lies other c' = true) :
    c = c' ∨ w.lies other c' = true := by
  cases item <;> cases other <;>
    simp only [layItem, lies, ExtTreeSet.contains_insert, Bool.or_eq_true, beq_iff_eq, Std.compare_eq_iff_eq] at h ⊢
  · exact h
  · exact .inr h
  · exact .inr h
  · exact h

theorem lies_of_takeItem {item other : Item} {c c' : Cube} (h : (w.takeItem item c).lies other c' = true) :
    w.lies other c' = true := by
  cases item <;> cases other <;>
    simp only [takeItem, lies, ExtTreeSet.contains_erase, Bool.and_eq_true] at h ⊢
  · exact h.2
  · exact h
  · exact h
  · exact h.2

/-- The check that commands and activities make is the one that the invariant is about. -/
theorem Sited.inBounds_iff (h : w.Sited size known) {c : Cube} : w.inBounds c = true ↔ size.contains c = true := by
  rw [inBounds, h.config]

namespace Sited

/-- Other groups may be known besides. -/
theorem mono (h : w.Sited size known) {known' : ExtTreeSet GroupId}
    (hknown : ∀ g, known.contains g = true → known'.contains g = true) : w.Sited size known' where
  config := h.config
  actors b a ha := ⟨(h.actors b a ha).position, hknown _ (h.actors b a ha).group⟩
  items := h.items
  terrain := h.terrain

theorem withActor (h : w.Sited size known) (actor : ActorId) {a : ActorState} (ha : a.Sited size known) :
    (w.withActor actor a).Sited size known where
  config := h.config
  actors _ _ hb := of_lookup_insert h.actors ha hb
  items item := h.items item
  terrain := h.terrain

/-- An actor may be changed in any way that keeps it where it is allowed to be, and in its group. -/
theorem updateActor (h : w.Sited size known) (actor : ActorId) {change : ActorState → ActorState}
    (hchange : ∀ a, a.Sited size known → (change a).Sited size known) :
    (w.updateActor actor change).Sited size known where
  config := h.config
  actors _ _ hb := of_lookup_modify h.actors hchange hb
  items item := h.items item
  terrain := h.terrain

theorem setActivity (h : w.Sited size known) (actor : ActorId) (activity : Activity) :
    (w.setActivity actor activity).Sited size known :=
  h.updateActor actor fun _ ha => ⟨ha.position, ha.group⟩

theorem setCarrying (h : w.Sited size known) (actor : ActorId) (item : Option Item) :
    (w.setCarrying actor item).Sited size known :=
  h.updateActor actor fun _ ha => ⟨ha.position, ha.group⟩

/-! ### Items and terrain -/

/-- An item may be laid on any cube inside. This is the one change of items that has to be checked. -/
theorem layItem (h : w.Sited size known) (item : Item) {c : Cube} (hc : size.contains c = true) :
    (w.layItem item c).Sited size known where
  config := by cases item <;> exact h.config
  actors := by cases item <;> exact h.actors
  items other c' hc' := by
    rcases lies_of_layItem hc' with rfl | hlies
    · exact hc
    · exact h.items other c' hlies
  terrain := by cases item <;> exact h.terrain

theorem takeItem (h : w.Sited size known) (item : Item) (c : Cube) : (w.takeItem item c).Sited size known where
  config := by cases item <;> exact h.config
  actors := by cases item <;> exact h.actors
  items other c' hc' := h.items other c' (lies_of_takeItem hc')
  terrain := by cases item <;> exact h.terrain

theorem clearTerrain (h : w.Sited size known) (c : Cube) : (w.clearTerrain c).Sited size known := by
  refine ⟨h.config, h.actors, h.items, fun c' t ht => ?_⟩
  rw [World.clearTerrain, lookup_erase] at ht
  split at ht
  · cases ht
  · exact h.terrain c' t ht

/-- Air is never written down as terrain: a cube that is cleared is taken out of the table. -/
theorem fillTerrain (h : w.Sited size known) {c : Cube} {t : Terrain} (hc : size.contains c = true)
    (ht : t ≠ .air) : Sited size known { w with terrain := w.terrain.insert c t } := by
  refine ⟨h.config, h.actors, h.items, fun c' t' ht' => ?_⟩
  rw [lookup_insert] at ht'
  split at ht'
  · rename_i hcube
    cases ht'
    exact ⟨hcube ▸ hc, ht⟩
  · exact h.terrain c' t' ht'

/-! ### Activities -/

/-- **Work changes nothing outside the world.** What is dropped lies on a cube that can be entered, or where the
actor stands. -/
theorem applyWork (h : w.Sited size known) (hactor : w.actors[actor]? = some a) (target : Cube) :
    (w.applyWork actor target).Sited size known := by
  have ha := h.actors actor a hactor
  have hworks := works_applyWork hactor target
  generalize w.applyWork actor target = w' at hworks
  cases hworks with
  | nothing _ => exact h
  | drops _ _ =>
    have hspot : size.contains (w.dropSpot a target) = true := by
      unfold dropSpot
      split
      · rename_i hpassable
        exact h.inBounds_iff.mp (Bool.and_eq_true_iff.mp hpassable).1
      · exact ha.position
    exact (h.layItem _ hspot).withActor actor ⟨ha.position, ha.group⟩
  | @takes item _ _ => exact (h.takeItem item target).withActor actor ⟨ha.position, ha.group⟩
  | wins item _ _ hterrain => exact (h.clearTerrain target).layItem item (h.terrain target _ hterrain).1

/-- **An actor that walks or works stays inside**, and so does what it works on. -/
theorem carried (h : w.Sited size known) (hactor : w.actors[actor]? = some a) (hcarried : Carried w actor a w') :
    w'.Sited size known := by
  have ha := h.actors actor a hactor
  cases hcarried with
  | rests => exact h
  | @walks position activity hwalk =>
    refine h.withActor actor ⟨?_, ha.group⟩
    rcases hwalk with heq | hpassable
    · exact heq ▸ ha.position
    · exact h.inBounds_iff.mp (Bool.and_eq_true_iff.mp hpassable).1
  | works => exact (h.applyWork hactor _).setActivity actor .idle

end Sited

end World

namespace Sandbox

variable {s s' : Sandbox} {dt : Float} {actor : ActorId} {a : ActorState}

/-! ## Commands -/

/-- A command on a cube is carried out only if the cube is one of the world. -/
theorem sited_onCube {c : Cube} {world : World} (h : s.world.Sited size known)
    (hworld : size.contains c = true → world.Sited size known) :
    (s.onCube c { s with world }).1.world.Sited size known := by
  unfold onCube
  split
  · rename_i hc
    exact hworld (h.inBounds_iff.mp hc)
  · exact h

theorem sited_setTerrain (h : s.world.Sited size known) (c : Cube) (t : Terrain) :
    (s.setTerrain c t).1.world.Sited size known := by
  refine sited_onCube h fun hc => ?_
  by_cases ht : t = .air
  · rw [if_pos ht]
    exact h.clearTerrain c
  · rw [if_neg ht]
    exact h.fillTerrain hc ht

/-- An actor is refused if its cube lies outside or if nobody has added its group, the two things that the
invariant asks of an actor. -/
theorem sited_spawnActor (h : s.world.Sited size s.groups) (actor : ActorId) (g : GroupId) (position : Cube) :
    (s.spawnActor actor g position).1.world.Sited size s.groups := by
  unfold spawnActor
  split
  · exact h
  rename_i hgroup
  split
  · exact h
  rename_i hinside
  split
  · exact h
  have hposition : s.world.inBounds position = true := by simpa using hinside
  exact h.withActor actor ⟨h.inBounds_iff.mp hposition, by simpa using hgroup⟩

/-- To stop an actor does not move it. -/
theorem sited_afterStopped {w : World} (h : w.Sited size known) (who : Option ActorId) :
    (afterStopped w who).Sited size known := by
  cases who with
  | none => exact h
  | some actor => exact h.setActivity actor .idle

theorem sited_createTasks (h : s.world.Sited size known) (g : GroupId) (name : String) (priority : Int64)
    (program : Program) (targets : List Cube) :
    (s.createTasks g name priority program targets).1.world.Sited size known := by
  have hadd : ∀ (s : Sandbox) (job : Job), (s.addTask g job).1.world = s.world := by
    intro s job
    unfold addTask
    split <;> rfl
  unfold createTasks
  split
  · split
    · exact h
    · exact keeps_addTasks (P := fun s => s.world.Sited size known) (fun s job _ hs => hadd s job ▸ hs) h
  · exact h

theorem sited_replaceTask (h : s.world.Sited size known) (g : GroupId) (t : TaskId) (job : Job) :
    (answered (s.replaceTask g t job)).1.world.Sited size known := by
  by_cases hgroup : s.groups.contains g = true
  · rw [replaceTask_eq hgroup]
    exact sited_afterStopped h _
  · unfold replaceTask
    rw [if_neg hgroup]
    exact h

theorem sited_removeTask (h : s.world.Sited size known) (g : GroupId) (t : TaskId) :
    (s.removeTask g t).1.world.Sited size known := by
  unfold removeTask
  split
  · rw [afterStop_eq]
    exact sited_afterStopped h _
  · exact h

theorem sited_killActor (h : s.world.Sited size known) (actor : ActorId) :
    (s.killActor actor).1.world.Sited size known := by
  unfold killActor World.kill
  split
  · cases s.world.living? actor with
    | none => exact h
    | some a => exact h.updateActor actor fun _ ha => ⟨ha.position, ha.group⟩
  · exact h

/-- **No command puts anything outside the world**, or an actor into a group that is not known. -/
theorem sited_perform (h : s.world.Sited size s.groups) (c : Command) :
    (s.perform c).1.world.Sited size s.groups := by
  cases c with
  | addGroup g =>
    show (s.addGroup g).world.Sited size s.groups
    unfold addGroup
    split <;> exact h
  | spawnActor actor g position => exact sited_spawnActor h actor g position
  | setCarrying actor item =>
    show (s.setCarrying actor item).1.world.Sited size s.groups
    unfold setCarrying
    split
    · exact h.setCarrying actor item
    · exact h
  | setTerrain c t => exact sited_setTerrain h c t
  | placeLog c => exact sited_onCube h fun hc => h.layItem .log hc
  | placeBoulder c => exact sited_onCube h fun hc => h.layItem .boulder hc
  | createTasks g name priority program targets => exact sited_createTasks h g name priority program targets
  | addTask g job =>
    show (s.addTask g job).1.world.Sited size s.groups
    unfold addTask
    split <;> exact h
  | shareTask g t =>
    show (s.shareTask g t).1.world.Sited size s.groups
    unfold shareTask
    split <;> exact h
  | replaceTask g t job => exact sited_replaceTask h g t job
  | removeTask g t => exact sited_removeTask h g t
  | interrupt actor =>
    show (s.interrupt actor).1.world.Sited size s.groups
    unfold interrupt
    split
    · exact h.setActivity actor .idle
    · exact h
  | killActor actor => exact sited_killActor h actor

/-! ## Sandboxes -/

/-- **A sandbox in which everything lies inside**, and whose groups are those that have a scheduler. -/
structure Sited (size : Extent) (s : Sandbox) : Prop where
  world : s.world.Sited size s.groups
  registered : ∀ g, s.groups.contains g = s.foreman.schedulers.contains g

theorem sited_new (config : Config) : Sited config.worldSize (new config) where
  world := by
    refine ⟨rfl, fun actor a ha => ?_, fun item c hc => ?_, fun c t ht => ?_⟩
    · rw [show (new config).world.actors = ∅ from rfl, ExtTreeMap.getElem?_empty] at ha
      cases ha
    · cases item with
      | log =>
        rw [World.lies, show (new config).world.logs = ∅ from rfl, ExtTreeSet.contains_empty] at hc
        cases hc
      | boulder =>
        rw [World.lies, show (new config).world.boulders = ∅ from rfl, ExtTreeSet.contains_empty] at hc
        cases hc
    · rw [show (new config).world.terrain = ∅ from rfl, ExtTreeMap.getElem?_empty] at ht
      cases ht
  registered g := by
    rw [show (new config).groups = ∅ from rfl, ExtTreeSet.contains_empty,
      show (new config).foreman.schedulers = ∅ from rfl, ExtTreeMap.contains_empty]

/-- What is left to the foreman leaves the groups as they are. -/
theorem registered_of_handles (h : ∀ g, s.groups.contains g = s.foreman.schedulers.contains g)
    (hhandles : Handles s s') {maxSteps : UInt32} (hreach : Foreman.Reachable maxSteps s.foreman) (g : GroupId) :
    s'.groups.contains g = s'.foreman.schedulers.contains g := by
  rw [hhandles.groups, hhandles.operated.registered hreach, h]

/-- A group that is added gets a scheduler, unless it has one. -/
theorem contains_registerGroup_iff (f : Foreman) (g g' : GroupId) :
    (f.registerGroup g).1.schedulers.contains g' = true ↔ g = g' ∨ f.schedulers.contains g' = true := by
  unfold Foreman.registerGroup
  split
  · rename_i hknown
    constructor
    · exact .inr
    · rintro (rfl | hg')
      · exact hknown
      · exact hg'
  · rw [ExtTreeMap.contains_insert, Bool.or_eq_true, beq_iff_eq, Std.compare_eq_iff_eq]

theorem Orderly.foreman_reachable (h : s.Orderly) : ∃ maxSteps, Foreman.Reachable maxSteps s.foreman := by
  obtain ⟨maxSteps, diary, collected, hhistory, -⟩ := h.handed
  exact ⟨maxSteps, hhistory.reachable⟩

/-- **Commands keep the sandbox inside**, and the groups of the sandbox are those that the foreman has registered.
-/
theorem Sited.perform (h : s.Sited size) (horderly : s.Orderly) (c : Command) : (s.perform c).1.Sited size := by
  have hworld := sited_perform h.world c
  rcases (effect_perform s c).handles with hhandles | ⟨g, heq⟩
  · obtain ⟨maxSteps, hreach⟩ := horderly.foreman_reachable
    refine ⟨?_, registered_of_handles h.registered hhandles hreach⟩
    rw [hhandles.groups]
    exact hworld
  · rw [heq]
    refine ⟨h.world.mono fun g' hg' => ?_, fun g' => ?_⟩
    · rw [ExtTreeSet.contains_insert, hg', Bool.or_true]
    · rw [Bool.eq_iff_iff, contains_registerGroup_iff, ExtTreeSet.contains_insert, Bool.or_eq_true, beq_iff_eq,
        Std.compare_eq_iff_eq, h.registered]

/-- A visit keeps everything inside: the actor's turn changes only what actors are busy with. -/
theorem sited_visited (h : s.world.Sited size known) (hliving : s.world.living? actor = some a)
    (hvisited : Visited s dt actor a s') : s'.world.Sited size known := by
  have hset : ∀ (w : World) (actor : ActorId) (activity : Activity), w.Sited size known →
      (w.setActivity actor activity).Sited size known := fun _ actor activity hw => hw.setActivity actor activity
  have hadvanced : ∀ {s₁ : Sandbox} {result : World × Bool}, s.readied dt actor a = .ok s₁ →
      s₁.world.advanceActivity actor dt = .ok result → result.1.Sited size known := by
    intro s₁ result hready hadvance
    have hlives := (lives_readied hready actor).trans (World.lives_iff.mpr ⟨a, hliving⟩)
    obtain ⟨a₁, hliving₁⟩ := World.lives_iff.mp hlives
    have hcarried := World.carried_advanceActivity hliving₁ hadvance
    exact (keeps_readied hset hready h).carried (World.living?_eq_some_iff.mp hliving₁).1 hcarried
  cases hvisited with
  | goesOn hready hadvance _ => exact hadvanced hready hadvance
  | @settles s₁ world shift hready hadvance _ =>
    exact keeps_absorbed (s := { s₁ with world }) hset shift (hadvanced hready hadvance)

/-- **Ticks keep the sandbox inside.** Each visit finds a sandbox that is sited, and leaves one. -/
theorem Sited.advanceTime (h : s.Sited size) (horderly : s.Orderly) {m : Metrics}
    (htick : s.advanceTime dt = .ok (s', m)) : s'.Sited size := by
  have hworld : s'.world.Sited size s.groups :=
    keeps_of_advanceTime (P := fun s' => s'.world.Sited size s.groups) htick h.world
      fun hliving hvisited hs => sited_visited hs hliving hvisited
  have hhandles := handles_advanceTime htick
  obtain ⟨maxSteps, hreach⟩ := horderly.foreman_reachable
  have hticked : Foreman.Reachable maxSteps s.ticked.foreman := hreach.perform (.beginTick (successor s.tick)) rfl
  refine ⟨?_, registered_of_handles (s := s.ticked) h.registered hhandles hticked⟩
  rw [hhandles.groups]
  exact hworld

theorem Reachable.sited (h : Reachable s) : ∃ size, s.Sited size := by
  induction h with
  | new config => exact ⟨config.worldSize, sited_new config⟩
  | perform c _ hreach ih =>
    obtain ⟨size, hs⟩ := ih
    exact ⟨size, hs.perform hreach.orderly c⟩
  | advanceTime hreach htick ih =>
    obtain ⟨size, hs⟩ := ih
    exact ⟨size, hs.advanceTime hreach.orderly htick⟩
  | nextTaskId _ ih =>
    obtain ⟨size, hs⟩ := ih
    exact ⟨size, hs.world, hs.registered⟩
  | drainEvents _ ih =>
    obtain ⟨size, hs⟩ := ih
    exact ⟨size, hs.world, hs.registered⟩

/-- **The sandbox never leaves its grid.** Every actor, dead or alive, every item and everything that fills a cube
is inside the world; no cube is filled with air; every actor belongs to a group that is known; the groups that are
known are those that have a scheduler; and where an actor is elsewhere after a tick, it came there on a visit in
the tick, and the cube could be entered before and after the visit. -/
theorem never_leaves_grid (h : Reachable s) :
    (∀ (actor : ActorId) (a : ActorState), s.world.actors[actor]? = some a →
        s.world.inBounds a.position = true ∧ s.groups.contains a.group = true) ∧
      (∀ c, s.world.logs.contains c = true → s.world.inBounds c = true) ∧
      (∀ c, s.world.boulders.contains c = true → s.world.inBounds c = true) ∧
      (∀ (c : Cube) (t : Terrain), s.world.terrain[c]? = some t → s.world.inBounds c = true ∧ t ≠ .air) ∧
      (∀ g, s.groups.contains g = true ↔ s.foreman.schedulers.contains g = true) ∧
      ∀ (dt : Float) (s' : Sandbox) (m : Metrics) (actor : ActorId) (a a' : ActorState),
        s.advanceTime dt = .ok (s', m) → s.world.actors[actor]? = some a → s'.world.actors[actor]? = some a' →
        a'.position ≠ a.position →
        ∃ s₁ s₂, VisitIn s dt actor s₁ s₂ ∧ s₁.world.stands? actor ≠ some a'.position ∧
          s₂.world.stands? actor = some a'.position ∧ s₁.world.isPassable a'.position = true ∧
          s₂.world.isPassable a'.position = true := by
  obtain ⟨size, hworld, hregistered⟩ := h.sited
  refine ⟨?_, ?_, ?_, ?_, ?_, ?_⟩
  · intro actor a ha
    have hsited := hworld.actors actor a ha
    exact ⟨hworld.inBounds_iff.mpr hsited.position, hsited.group⟩
  · intro c hc
    exact hworld.inBounds_iff.mpr (hworld.items .log c hc)
  · intro c hc
    exact hworld.inBounds_iff.mpr (hworld.items .boulder c hc)
  · intro c t ht
    have hinside := hworld.terrain c t ht
    exact ⟨hworld.inBounds_iff.mpr hinside.1, hinside.2⟩
  · intro g
    rw [hregistered]
  · intro dt s' m actor a a' htick ha ha' hmoved
    have hstart : s.world.stands? actor ≠ some a'.position := by
      rw [World.stands?, ha]
      exact fun heq => hmoved (Option.some.inj heq).symm
    have hend : s'.world.stands? actor = some a'.position := by
      rw [World.stands?, ha']
      rfl
    exact visitIn_of_moved htick hstart hend

/-- An actor at a corner of the world is sent to a cube outside. -/
def hike : Sandbox :=
  match ofScenario (errand ⟨13, 0, 0⟩ (.literal ⟨99, 0, 0⟩)) with
  | .ok s => s
  | .error _ => new {}

theorem reachable_hike : Reachable hike := by
  unfold hike
  split
  · rename_i hs
    exact reachable_ofScenario hs
  · exact .new {}

/-- It gets as far as the last cube of the world, which it entered on its visit. -/
theorem hike_ends_inside :
    Reachable hike ∧ (hike.after 9.0).world.stands? ⟨1⟩ = some ⟨15, 0, 0⟩ ∧
      ∃ s₁ s₂, VisitIn hike 9.0 ⟨1⟩ s₁ s₂ ∧ s₂.world.stands? ⟨1⟩ = some ⟨15, 0, 0⟩ ∧
        s₁.world.isPassable ⟨15, 0, 0⟩ = true := by
  obtain ⟨m, htick⟩ : ∃ m, hike.advanceTime 9.0 = .ok (hike.after 9.0, m) := advanceTime_after (by decide +kernel)
  have hstart : hike.world.stands? ⟨1⟩ = some ⟨13, 0, 0⟩ := by decide +kernel
  have hend : (hike.after 9.0).world.stands? ⟨1⟩ = some ⟨15, 0, 0⟩ := by decide +kernel
  obtain ⟨a, ha, hposition⟩ := Option.map_eq_some_iff.mp hstart
  obtain ⟨a', ha', hposition'⟩ := Option.map_eq_some_iff.mp hend
  obtain ⟨-, -, -, -, -, hwalks⟩ := never_leaves_grid reachable_hike
  obtain ⟨s₁, s₂, hvisit, -, hthere, hpassable, -⟩ :=
    hwalks 9.0 (hike.after 9.0) m ⟨1⟩ a a' htick ha ha' (by rw [hposition, hposition']; decide)
  rw [hposition'] at hthere hpassable
  exact ⟨reachable_hike, hend, s₁, s₂, hvisit, hthere, hpassable⟩

end Sandbox

end TaskScript
