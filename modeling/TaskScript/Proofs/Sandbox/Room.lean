import TaskScript.Proofs.Execution.Room
import TaskScript.Proofs.Sandbox.Reachable
import TaskScript.Proofs.Sandbox.Visit

/-!
# `Proofs.Sandbox.Room`: ticks that stay in range

Coordinates meet arithmetic in three places: a search of the world computes the neighbours of its cubes, `next_to`
computes those of any cube, and a walk computes the way to its goal. None of them asks first whether the result belongs
to the world, and a literal cube, a target or a huge world can take each of them out of range.

Nothing else can. If the world is no larger than the coordinates reach, and every cube that the tasks of a scenario
name leaves room for arithmetic (`Scenario.HasRoom`), then no tick overflows (`ticks_stay_in_range`). The invariant is
that actors stand in the world and walk to cubes with room, and that jobs and executions know no others
(`Sandbox.HasRoom`).

## Contents
- `World.HasRoom`, with `walk`, `advanceActivity`: **activities**.
- `Foreman.HasRoom`, with `assignIdle`, `runActor`: **turns**.
- `Sandbox.HasRoom`, with `visitActor`, `advanceTime`: **ticks**.
- `Scenario.HasRoom`, `HasRoom.perform`, `hasRoom_ofScenario`: **scenarios**.
- `Sandbox.advance`, `ticks_stay_in_range`: **no tick overflows**.
- `errand_leaves_range`: scenarios that leave no room.
-/

namespace TaskScript

open Std

variable {size : Extent}

/-! ## The world -/

/-- An activity that leads to no cube without room. -/
def Activity.HasRoom (size : Extent) : Activity → Prop
  | .moving target _ => target.HasRoom size
  | .idle | .working _ _ | .following _ _ | .attacking _ _ => True

/-- An actor that stands in the world and walks to no cube without room. -/
structure ActorState.HasRoom (size : Extent) (a : ActorState) : Prop where
  position : size.contains a.position = true
  activity : a.activity.HasRoom size

namespace World

/-- **A world of a given size whose actors have room.** -/
structure HasRoom (size : Extent) (w : World) : Prop where
  config : w.config.worldSize = size
  actors : ∀ (actor : ActorId) (a : ActorState), w.actors[actor]? = some a → a.HasRoom size

variable {w : World} {actor : ActorId}

namespace HasRoom

theorem congr {w' : World} (h : w.HasRoom size) (hconfig : w'.config = w.config) (hactors : w'.actors = w.actors) :
    w'.HasRoom size :=
  ⟨hconfig ▸ h.config, fun b a ha => h.actors b a (hactors ▸ ha)⟩

theorem withActor (h : w.HasRoom size) (actor : ActorId) {a : ActorState} (ha : a.HasRoom size) :
    (w.withActor actor a).HasRoom size :=
  ⟨h.config, fun _ _ hb => of_lookup_insert h.actors ha hb⟩

theorem updateActor (h : w.HasRoom size) (actor : ActorId) {change : ActorState → ActorState}
    (hchange : ∀ a, a.HasRoom size → (change a).HasRoom size) : (w.updateActor actor change).HasRoom size :=
  ⟨h.config, fun _ _ hb => of_lookup_modify h.actors hchange hb⟩

theorem setActivity (h : w.HasRoom size) (actor : ActorId) {activity : Activity} (hactivity : activity.HasRoom size) :
    (w.setActivity actor activity).HasRoom size :=
  h.updateActor actor fun _ ha => ⟨ha.position, hactivity⟩

theorem clearActivity (h : w.HasRoom size) (actor : ActorId) : (w.clearActivity actor).HasRoom size :=
  h.setActivity actor trivial

theorem startActivity (h : w.HasRoom size) (actor : ActorId) {activity : Activity}
    (hactivity : activity.HasRoom size) : (w.startActivity actor activity).HasRoom size := by
  unfold World.startActivity
  split
  · exact h
  · exact h.setActivity actor hactivity

/-- A request with room starts an activity with room. -/
theorem apply (h : w.HasRoom size) {r : Request} (hr : r.HasRoom size) : (w.apply r).HasRoom size := by
  cases r with
  | moveTo actor target => exact h.startActivity actor hr
  | work actor target => exact h.startActivity actor trivial
  | follow actor target => exact h.startActivity actor trivial
  | attack actor target => exact h.startActivity actor trivial

theorem foldl_apply {rs : List Request} (h : w.HasRoom size) (hrs : ∀ r ∈ rs, r.HasRoom size) :
    (rs.foldl World.apply w).HasRoom size := by
  induction rs generalizing w with
  | nil => exact h
  | cons r rest ih =>
    have hfirst := h.apply (hrs r List.mem_cons_self)
    exact ih hfirst fun r' hr' => hrs r' (List.mem_cons_of_mem _ hr')

theorem layItem (h : w.HasRoom size) (item : Item) (c : Cube) : (w.layItem item c).HasRoom size := by
  cases item <;> exact h.congr rfl rfl

/-- Work moves nobody. -/
theorem applyWork (h : w.HasRoom size) (actor : ActorId) (target : Cube) : (w.applyWork actor target).HasRoom size := by
  cases hactor : w.actors[actor]? with
  | none =>
    rw [World.applyWork, hactor]
    exact h
  | some a =>
    have ha := h.actors actor a hactor
    have hworks := works_applyWork hactor target
    generalize w.applyWork actor target = w' at hworks
    cases hworks with
    | nothing _ => exact h
    | drops _ _ => exact (h.layItem _ _).withActor actor ⟨ha.position, ha.activity⟩
    | @takes item _ _ =>
      have htaken : (w.takeItem item target).HasRoom size := by
        cases item <;> exact h.congr rfl rfl
      exact htaken.withActor actor ⟨ha.position, ha.activity⟩
    | wins item _ _ _ =>
      have hcleared : (w.clearTerrain target).HasRoom size := h.congr rfl rfl
      exact hcleared.layItem item target

variable (hsize : size.Roomy)

include hsize

/-- What executions see of the world has room. -/
theorem view (h : w.HasRoom size) : w.surroundings.toWorldView.HasRoom size where
  inBounds c hc := Cube.hasRoom_of_contains hsize (h.config ▸ hc)
  position actor c hc := by
    obtain ⟨a, ha, rfl⟩ := Option.map_eq_some_iff.mp hc
    exact Cube.hasRoom_of_contains hsize (h.actors actor a (living?_eq_some_iff.mp ha).1).position

/-! ### Activities -/

/-- **A walk to a cube with room does not overflow**, and stays in the world. -/
theorem walk (h : w.HasRoom size) {goal : Cube} (hgoal : goal.HasRoom size) (arrived : Cube → Bool) (n : Nat)
    {position : Cube} (hposition : size.contains position = true) (credit : Float) :
    Succeeds (fun walk => size.contains walk.position = true) (w.walk arrived goal n position credit) := by
  induction n generalizing position credit with
  | zero => exact hposition
  | succ n ih =>
    unfold World.walk
    dsimp only
    generalize (if 0.0 < w.config.timings.moveSecondsPerCube then _ else _ : Float) = cost
    split
    · exact hposition
    split
    · exact hposition
    · refine (Cube.succeeds_stepTowards hsize hposition hgoal).bind fun next _ => ?_
      split
      · rename_i hpassable
        have hnext : w.inBounds next = true := (Bool.and_eq_true_iff.mp hpassable).1
        exact ih (h.config ▸ hnext) _
      · exact hposition

omit hsize in
theorem settleWalk (h : w.HasRoom size) (actor : ActorId) {walk : Walk} (hwalk : size.contains walk.position = true)
    {goOn : Float → Activity} (hgoOn : ∀ credit, (goOn credit).HasRoom size) :
    (w.settleWalk actor walk goOn).1.HasRoom size := by
  have hmoved : (w.updateActor actor ({ · with position := walk.position })).HasRoom size :=
    h.updateActor actor fun _ ha => ⟨hwalk, ha.activity⟩
  unfold World.settleWalk
  dsimp only
  split
  · exact hmoved.clearActivity actor
  · exact hmoved.setActivity actor (hgoOn _)

/-- **An activity with room does not overflow** when it is moved on. -/
theorem advanceActivity (h : w.HasRoom size) (actor : ActorId) (dt : Float) :
    Succeeds (fun result => result.1.HasRoom size) (w.advanceActivity actor dt) := by
  unfold World.advanceActivity
  split
  · exact h
  · rename_i a hliving
    obtain ⟨hposition, hactivity⟩ := h.actors actor a (living?_eq_some_iff.mp hliving).1
    split
    · exact h
    · rename_i target credit hmoving
      rw [hmoving] at hactivity
      refine (h.walk hsize hactivity _ _ hposition _).bind fun walk hwalk => ?_
      exact h.settleWalk actor hwalk fun _ => hactivity
    · rename_i target credit _
      unfold World.advanceFollow
      split
      · exact h.clearActivity actor
      · rename_i other hother
        -- the other stands in the world, whose cubes have room
        have hgoal := (h.actors target other (living?_eq_some_iff.mp hother).1).position
        refine (h.walk hsize (Cube.hasRoom_of_contains hsize hgoal) _ _ hposition _).bind fun walk hwalk => ?_
        exact h.settleWalk actor hwalk fun _ => trivial
    · dsimp only
      split
      · exact h.setActivity actor trivial
      · exact (h.applyWork actor _).clearActivity actor
    · dsimp only
      split
      · exact h.setActivity actor trivial
      · exact h.clearActivity actor

end HasRoom

end World

/-! ## The foreman -/

namespace Foreman

/-- **A foreman of jobs and executions with room.** -/
structure HasRoom (size : Extent) (f : Foreman) : Prop where
  handed : f.HandedOnly (Job.HasRoom size)
  running : ∀ (actor : ActorId) (run : Run), f.running[actor]? = some run → run.execution.HasRoom size

variable {f f' : Foreman} {around : Surroundings} {actor : ActorId} {dt : Float}

namespace HasRoom

/-- An operation that starts no execution. -/
theorem operate (h : f.HasRoom size) (op : Operation) (hop : f.perform op = .ok f')
    (hnew : ∀ job ∈ f.accepted op, job.HasRoom size) (hrunning : f'.running = f.running) : f'.HasRoom size :=
  ⟨h.handed.perform op hop hnew, fun b run hrun => h.running b run (hrunning ▸ hrun)⟩

theorem assignIdle (h : f.HasRoom size) (actor : ActorId) (g : GroupId) : (f.assignIdle actor g).1.HasRoom size := by
  refine ⟨h.handed.perform (.assignIdle actor g) rfl (List.forall_mem_nil _), fun b run hrun => ?_⟩
  rcases running_assignIdle h.handed actor g with hsame | ⟨t, job, hjob, -, hstarted⟩
  · exact h.running b run (hsame ▸ hrun)
  · rw [hstarted] at hrun
    exact of_lookup_insert (P := fun run => run.execution.HasRoom size) h.running (Execution.hasRoom_start hjob _) hrun

/-- **A turn does not overflow**, whoever has it. -/
theorem runActor (h : f.HasRoom size) (hview : around.toWorldView.HasRoom size) (actor : ActorId) (dt : Float) :
    Succeeds (fun shift => shift.foreman.HasRoom size ∧ ∀ r ∈ shift.requests, r.HasRoom size)
      (f.runActor around actor dt) := by
  cases hrun : f.running[actor]? with
  | none =>
    rw [Foreman.runActor, hrun]
    exact ⟨h, List.forall_mem_nil _⟩
  | some run =>
    obtain ⟨hafter, hrequests, hresult⟩ := (h.running actor run hrun).turn hview actor dt
    cases hshift : f.runActor around actor dt with
    | error cause => exact hresult.of_error (overflow_of_runActor hrun hshift)
    | ok shift =>
      obtain ⟨hmade, hgives⟩ := gives_of_runActor hrun hshift
      have hop : f.perform (.runActor around actor dt) = .ok shift.foreman := by
        rw [Foreman.perform, hshift]
        rfl
      refine ⟨⟨h.handed.perform _ hop (List.forall_mem_nil _), fun b run' hrun' => ?_⟩, hmade ▸ hrequests⟩
      cases hgives with
      | goesOn _ _ hrunning =>
        rw [hrunning] at hrun'
        exact of_lookup_insert (P := fun run => run.execution.HasRoom size) h.running hafter hrun'
      | completes _ _ hrunning => exact of_lookup_erase h.running (hrunning ▸ hrun')
      | fails _ _ hrunning => exact of_lookup_erase h.running (hrunning ▸ hrun')

end HasRoom

end Foreman

/-! ## Ticks -/

namespace Sandbox

/-- **The invariant of ticks that stay in range.** -/
structure HasRoom (size : Extent) (s : Sandbox) : Prop where
  world : s.world.HasRoom size
  foreman : s.foreman.HasRoom size

variable {s s' : Sandbox}

namespace HasRoom

/-- The result of a turn is taken over. -/
theorem absorb (h : s.HasRoom size) (actor : ActorId) {shift : Shift} (hforeman : shift.foreman.HasRoom size)
    (hrequests : ∀ r ∈ shift.requests, r.HasRoom size) (m : Metrics) : (s.absorb actor shift m).1.HasRoom size := by
  have hworld := h.world.foldl_apply hrequests
  rw [absorb_fst]
  unfold Sandbox.absorbed
  refine ⟨?_, hforeman⟩
  dsimp only
  split
  · exact hworld.clearActivity actor
  · exact hworld

theorem offered (h : s.HasRoom size) (actor : ActorId) (a : ActorState) : (s.offered actor a).HasRoom size := by
  unfold Sandbox.offered
  split
  · exact ⟨h.world, h.foreman.assignIdle actor a.group⟩
  · exact h

variable (hsize : size.Roomy)

include hsize

/-- **A visit does not overflow.** -/
theorem visitActor (h : s.HasRoom size) (dt : Float) (m : Metrics) (actor : ActorId) :
    Succeeds (fun state => state.1.HasRoom size) (visitActor dt (s, m) actor) := by
  unfold Sandbox.visitActor
  dsimp only
  split
  · exact h
  · rename_i a _
    rw [← Sandbox.offered]
    have hoffered := h.offered actor a
    have hview := hoffered.world.view hsize
    refine (hoffered.foreman.runActor hview actor dt).bind fun shift hshift => ?_
    have hready := hoffered.absorb actor hshift.1 hshift.2 { m with processedActors := m.processedActors + 1 }
    refine (hready.world.advanceActivity hsize actor dt).bind fun result hworld => ?_
    obtain ⟨world, finished⟩ := result
    have hadvanced : HasRoom size { (_ : Sandbox) with world } := ⟨hworld, hready.foreman⟩
    split
    · -- the program settles what has finished
      refine (hready.foreman.runActor (hworld.view hsize) actor 0.0).bind fun shift hshift => ?_
      exact hadvanced.absorb actor hshift.1 hshift.2 _
    · exact hadvanced

/-- **A tick does not overflow.** -/
theorem advanceTime (h : s.HasRoom size) (dt : Float) :
    Succeeds (fun state => state.1.HasRoom size) (s.advanceTime dt) := by
  have hticked : s.ticked.HasRoom size :=
    ⟨h.world, h.foreman.operate (.beginTick (successor s.tick)) rfl (List.forall_mem_nil _) rfl⟩
  rw [advanceTime_eq]
  refine endsIn_foldlM (fun state actor _ hstate => ?_) hticked
  exact hstate.visitActor hsize (tickTime dt) state.2 actor

end HasRoom

end Sandbox

/-! ## Scenarios -/

/-- The cubes that the tasks of a scenario name: their targets, and the literals of their programs. -/
def Scenario.namedCubes (scenario : Scenario) : List Cube :=
  scenario.tasks.flatMap fun spec => spec.targets ++ spec.program.literals

/-- **A scenario that leaves room for arithmetic**: its world is no larger than the coordinates reach, and every cube
that its tasks name has room there. -/
def Scenario.HasRoom (scenario : Scenario) : Prop :=
  scenario.config.worldSize.Roomy ∧ ∀ c ∈ scenario.namedCubes, c.HasRoom scenario.config.worldSize

instance (scenario : Scenario) : Decidable scenario.HasRoom :=
  inferInstanceAs (Decidable (_ ∧ _))

/-- The jobs of an entry of a scenario have room. -/
theorem Scenario.HasRoom.job {scenario : Scenario} (h : scenario.HasRoom) {spec : TaskSpec}
    (hspec : spec ∈ scenario.tasks) {program : Program} (hbuild : spec.program.build = .ok program)
    {f f' : Factory} {jobs : List Job}
    (hjobs : f.createJobs spec.name spec.priority program spec.targets = .ok (f', jobs)) {job : Job}
    (hjob : job ∈ jobs) : job.HasRoom scenario.config.worldSize := by
  have hnamed : ∀ c ∈ spec.targets ++ spec.program.literals, c.HasRoom scenario.config.worldSize :=
    fun c hc => h.2 c (List.mem_flatMap.mpr ⟨spec, hspec, hc⟩)
  have hprogram : program.HasRoom scenario.config.worldSize := fun i st hst c hc =>
    hnamed c (List.mem_append_right _ (Script.literals_of_build hbuild hst hc))
  obtain ⟨-, id, ⟨target, htarget, rfl⟩ | ⟨-, rfl⟩⟩ := Factory.of_mem_createJobs hjobs hjob
  · refine ⟨hprogram, fun c hc => ?_⟩
    cases hc
    exact hnamed target (List.mem_append_left _ htarget)
  · exact ⟨hprogram, fun c hc => nomatch hc⟩

namespace Sandbox

variable {s : Sandbox} {scenario : Scenario}

namespace HasRoom

theorem addTask (h : s.HasRoom size) (g : GroupId) {job : Job} (hjob : job.HasRoom size) :
    (s.addTask g job).1.HasRoom size := by
  unfold Sandbox.addTask
  split
  · refine ⟨h.world, h.foreman.operate (.addTask g job) rfl (fun job' hjob' => ?_) ?_⟩
    · rwa [Foreman.mem_acceptedIf hjob']
    · exact Foreman.running_addTask h.foreman.handed.sound g job
  · exact h

theorem onCube {cube : Cube} {world : World} (h : s.HasRoom size) (hworld : world.HasRoom size) :
    (s.onCube cube { s with world }).1.HasRoom size := by
  unfold Sandbox.onCube
  split
  · exact ⟨hworld, h.foreman⟩
  · exact h

theorem spawnActor (h : s.HasRoom size) (actor : ActorId) (g : GroupId) (position : Cube) :
    (s.spawnActor actor g position).1.HasRoom size := by
  unfold Sandbox.spawnActor
  split
  · exact h
  split
  · exact h
  rename_i hinside
  split
  · exact h
  · have hposition : s.world.inBounds position = true := by simpa using hinside
    exact ⟨h.world.withActor actor ⟨h.world.config ▸ hposition, trivial⟩, h.foreman⟩

theorem setCarrying (h : s.HasRoom size) (actor : ActorId) (item : Option Item) :
    (s.setCarrying actor item).1.HasRoom size := by
  unfold Sandbox.setCarrying
  split
  · exact ⟨h.world.updateActor actor fun _ ha => ⟨ha.position, ha.activity⟩, h.foreman⟩
  · exact h

theorem addGroup (h : s.HasRoom size) (g : GroupId) : (s.addGroup g).HasRoom size := by
  unfold Sandbox.addGroup
  split
  · exact h
  · refine ⟨h.world, h.foreman.operate (.registerGroup g) rfl (List.forall_mem_nil _) ?_⟩
    exact s.foreman.running_registerGroup g

theorem shareTask (h : s.HasRoom size) (g : GroupId) (t : TaskId) : (s.shareTask g t).1.HasRoom size := by
  unfold Sandbox.shareTask
  split
  · refine ⟨h.world, h.foreman.operate (.scheduleExisting g t) rfl (List.forall_mem_nil _) ?_⟩
    exact s.foreman.running_scheduleExisting g t
  · exact h

theorem createTasks (h : s.HasRoom size) {name : String} {priority : Int64} {program : Program}
    {targets : List Cube} (g : GroupId)
    (hjobs : ∀ {factory jobs}, s.factory.createJobs name priority program targets = .ok (factory, jobs) →
      ∀ job ∈ jobs, job.HasRoom size) :
    (s.createTasks g name priority program targets).1.HasRoom size := by
  unfold Sandbox.createTasks
  split
  · split
    · exact h
    · rename_i factory jobs hmade
      have hnamed : HasRoom size { s with factory } := ⟨h.world, h.foreman⟩
      exact keeps_addTasks (fun _ job hjob hs => hs.addTask g (hjobs hmade job hjob)) hnamed
  · exact h

/-- **The commands of a setup leave room**, accepted or refused. -/
theorem perform (hroom : scenario.HasRoom) {c : Command} (hc : c.SetsUp scenario)
    (h : s.HasRoom scenario.config.worldSize) : (s.perform c).1.HasRoom scenario.config.worldSize := by
  cases hc with
  | @addGroup g => exact h.addGroup g
  | @spawnActor actor g position => exact h.spawnActor actor g position
  | @setCarrying actor item => exact h.setCarrying actor item
  | setTerrain => exact h.onCube (h.world.congr rfl rfl)
  | placeLog => exact h.onCube (h.world.layItem .log _)
  | placeBoulder => exact h.onCube (h.world.layItem .boulder _)
  | @createTasks spec program g hspec hbuild =>
    exact h.createTasks g fun hjobs job hjob => hroom.job hspec hbuild hjobs hjob
  | @shareTask g t => exact h.shareTask g t

end HasRoom

theorem hasRoom_new (config : Config) : (new config).HasRoom config.worldSize where
  world := by
    refine ⟨rfl, fun actor a ha => ?_⟩
    rw [show (new config).world.actors = ∅ from rfl, ExtTreeMap.getElem?_empty] at ha
    cases ha
  foreman := by
    refine ⟨Foreman.handedOnly_new _, fun actor run hrun => ?_⟩
    rw [show (new config).foreman.running = ∅ from rfl, ExtTreeMap.getElem?_empty] at hrun
    cases hrun

/-- **A scenario that leaves room leads to a sandbox that does.** -/
theorem hasRoom_ofScenario (hroom : scenario.HasRoom) (hs : ofScenario scenario = .ok s) :
    s.HasRoom scenario.config.worldSize :=
  keeps_ofScenario (fun _ _ hc h => h.perform hroom hc) (hasRoom_new scenario.config) hs

/-! ## Runs -/

/-- The sandbox after ticks of the given lengths. -/
def advance (dts : List Float) (s : Sandbox) : Except Overflow Sandbox :=
  dts.foldlM (fun s dt => return (← s.advanceTime dt).1) s

theorem HasRoom.advance (hsize : size.Roomy) (h : s.HasRoom size) (dts : List Float) :
    Succeeds (HasRoom size) (s.advance dts) :=
  endsIn_foldlM (fun _ dt _ hs => (hs.advanceTime hsize dt).bind fun _ hafter => hafter) h

theorem HasRoom.runTicks (hsize : size.Roomy) (h : s.HasRoom size) (dt : Float) (n : Nat) :
    Succeeds (fun result => result.1.HasRoom size) (s.runTicks dt n) := by
  induction n generalizing s with
  | zero => exact h
  | succ n ih =>
    refine (h.advanceTime hsize dt).bind fun first hfirst => ?_
    exact (ih hfirst).bind fun rest hrest => hrest

/-- How the ticks of a scenario overflow, if it is accepted and they do. -/
def overflow? (scenario : Scenario) (dts : List Float) : Option Overflow :=
  match ofScenario scenario with
  | .error _ => none
  | .ok s =>
    match s.advance dts with
    | .error cause => some cause
    | .ok _ => none

theorem overflow?_eq_some_iff {dts : List Float} {cause : Overflow} :
    overflow? scenario dts = some cause ↔ ∃ s, ofScenario scenario = .ok s ∧ s.advance dts = .error cause := by
  unfold overflow?
  cases ofScenario scenario with
  | error _ => simp
  | ok s => cases hticks : s.advance dts <;> simp [hticks]

/-- A scenario in which an actor walks to a cube. -/
def errand (start : Cube) (target : PositionExpr) : Scenario where
  groups := [⟨1⟩]
  actors := [⟨⟨1⟩, ⟨1⟩, start, none⟩]
  tasks := [⟨"errand", [⟨1⟩], 0, [], .leaf (.action (.moveTo target))⟩]

/-- **No tick overflows**, however many there are and however long they last, in a sandbox that was set up of a scenario
that leaves room for arithmetic; and every actor stands in the world all along. -/
theorem ticks_stay_in_range (hroom : scenario.HasRoom) (hs : ofScenario scenario = .ok s) (dts : List Float) :
    ∃ s', s.advance dts = .ok s' ∧ (∀ dt n, ∃ result, s'.runTicks dt n = .ok result) ∧
      ∀ (actor : ActorId) (a : ActorState),
        s'.world.actors[actor]? = some a → s'.world.inBounds a.position = true := by
  obtain ⟨s', hadvance, hs'⟩ := ((hasRoom_ofScenario hroom hs).advance hroom.1 dts).exists_ok
  refine ⟨s', hadvance, fun dt n => ?_, fun actor a ha => ?_⟩
  · obtain ⟨result, hresult, -⟩ := (hs'.runTicks hroom.1 dt n).exists_ok
    exact ⟨result, hresult⟩
  · rw [World.inBounds, hs'.world.config]
    exact (hs'.world.actors actor a ha).position

/-- The theorem applies, for instance to a walk towards a cube that has just enough room. -/
theorem ticks_stay_in_range_errand :
    let scenario := errand ⟨15, 0, 0⟩ (.literal ⟨-2147483633, 0, 2147483646⟩)
    scenario.HasRoom ∧ ∃ s, ofScenario scenario = .ok s ∧ ∃ s', s.advance [2.0, 0.5] = .ok s' ∧
      (∀ dt n, ∃ result, s'.runTicks dt n = .ok result) ∧
        ∀ (actor : ActorId) (a : ActorState),
          s'.world.actors[actor]? = some a → s'.world.inBounds a.position = true := by
  intro scenario
  have hroom : scenario.HasRoom := by decide
  obtain ⟨s, hs⟩ : ∃ s, ofScenario scenario = .ok s := exists_ok_of_isOk (by decide)
  exact ⟨hroom, s, hs, ticks_stay_in_range hroom hs [2.0, 0.5]⟩

/-- **Not every scenario that is accepted leaves room.** A walk to a cube that is too far away overflows in its first
step, and so does a look at the neighbours of the last cube that there is. -/
theorem errand_leaves_range :
    (∃ s, ofScenario (errand ⟨1, 0, 0⟩ (.literal ⟨-2147483648, 0, 0⟩)) = .ok s ∧
      s.advance [2.0] = .error .subtract) ∧
    ∃ s, ofScenario (errand ⟨1, 0, 0⟩ (.nextTo (.literal ⟨2147483647, 0, 0⟩))) = .ok s ∧
      s.advance [2.0] = .error .add :=
  ⟨overflow?_eq_some_iff.mp (by decide +kernel), overflow?_eq_some_iff.mp (by decide +kernel)⟩

end Sandbox

end TaskScript
