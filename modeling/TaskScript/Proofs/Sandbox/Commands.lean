import TaskScript.Proofs.Foreman.Running
import TaskScript.Proofs.Sandbox.Activity
import TaskScript.Sandbox.Basic

/-!
# `Proofs.Sandbox.Commands`: what a command can do

There are thirteen commands, and they do few kinds of things: a command is refused, it changes the world without
touching what anybody is busy with, it gives work to the foreman, or it stops an actor. `Sandbox.Effect` lists
them all, with what they answer; no later proof opens a command.

## Contents
- `Sandbox.Command`, `perform`: the commands as one.
- `World.Furnished`: changes of the world that leave everybody busy as before.
- `keeps_addTasks`: jobs in a row.
- `Effect`, `effect_perform`: **what a command can do**.
-/

namespace TaskScript

open Std

/-- **A change of the world that leaves everybody busy as before.** Actors that come with it are idle. -/
structure World.Furnished (w w' : World) : Prop where
  keeps : ∀ (actor : ActorId) (a : ActorState), w.actors[actor]? = some a →
    ∃ a', w'.actors[actor]? = some a' ∧ a'.alive = a.alive ∧ a'.activity = a.activity
  idle : ∀ (actor : ActorId) (a' : ActorState), w'.actors[actor]? = some a' →
    w.actors[actor]? = none → a'.activity = .idle

/-- To lay an item or to fill a cube is no matter for the actors. -/
theorem World.furnished_of_actors {w w' : World} (h : w'.actors = w.actors) : w.Furnished w' where
  keeps actor a ha := ⟨a, h ▸ ha, rfl, rfl⟩
  idle actor a' ha' hnone := by
    rw [h, hnone] at ha'
    cases ha'

namespace Sandbox

/-- A command from outside. -/
inductive Command where
  | addGroup (group : GroupId)
  | spawnActor (actor : ActorId) (group : GroupId) (position : Cube)
  | setCarrying (actor : ActorId) (item : Option Item)
  | setTerrain (cube : Cube) (terrain : Terrain)
  | placeLog (cube : Cube)
  | placeBoulder (cube : Cube)
  | createTasks (group : GroupId) (name : String) (priority : Int64) (program : Program) (targets : List Cube)
  | addTask (group : GroupId) (job : Job)
  | shareTask (group : GroupId) (task : TaskId)
  | replaceTask (group : GroupId) (member : TaskId) (replacement : Job)
  | removeTask (group : GroupId) (task : TaskId)
  | interrupt (actor : ActorId)
  | killActor (actor : ActorId)

/-- An answer, apart from what it tells when a command is accepted. -/
def answered {α : Type} (answer : Sandbox × Except WorldError α) : Sandbox × Except WorldError Unit :=
  (answer.1, answer.2.map fun _ => ())

/-- The sandbox after a command, and whether it was refused. -/
def perform (s : Sandbox) : Command → Sandbox × Except WorldError Unit
  | .addGroup group => (s.addGroup group, .ok ())
  | .spawnActor actor group position => s.spawnActor actor group position
  | .setCarrying actor item => s.setCarrying actor item
  | .setTerrain cube terrain => s.setTerrain cube terrain
  | .placeLog cube => s.placeLog cube
  | .placeBoulder cube => s.placeBoulder cube
  | .createTasks group name priority program targets =>
    answered (s.createTasks group name priority program targets)
  | .addTask group job => answered (s.addTask group job)
  | .shareTask group task => s.shareTask group task
  | .replaceTask group member replacement => answered (s.replaceTask group member replacement)
  | .removeTask group task => s.removeTask group task
  | .interrupt actor => answered (s.interrupt actor)
  | .killActor actor => s.killActor actor

variable {s : Sandbox}

/-- The foreman's answer in the sandbox's words, apart from what it tells when a change is accepted. -/
def told {α : Type} (answer : Except SchedulingError α) : Except WorldError Unit :=
  (answer.mapError .scheduling).map fun _ => ()

/-- The world after the foreman has stopped an actor, if it did. -/
def afterStopped (w : World) : Option ActorId → World
  | some actor => w.clearActivity actor
  | none => w

/-- **An actor that the foreman has stopped is stopped in the world as well.** Its name comes with the answer;
where there is no name, the world stays as it is. -/
theorem afterStop_eq (s : Sandbox) (answer : Foreman × Except SchedulingError (Option ActorId)) :
    afterStop (s.withForeman answer) =
      ({ s with foreman := answer.1, world := afterStopped s.world (Foreman.stoppedBy answer.2) },
        told answer.2) := by
  obtain ⟨f, answer⟩ := answer
  cases answer with
  | error e => rfl
  | ok who => cases who <;> rfl

/-- What handing in a job keeps, handing in a row of jobs does. -/
theorem keeps_addTasks {P : Sandbox → Prop} {g : GroupId} {jobs : List Job}
    (hstep : ∀ s job, job ∈ jobs → P s → P (s.addTask g job).1) (h : P s) : P (addTasks g jobs s).1 := by
  induction jobs generalizing s with
  | nil => exact h
  | cons job rest ih =>
    have hfirst := hstep s job List.mem_cons_self h
    unfold addTasks
    split
    · rename_i heq
      rwa [heq] at hfirst
    · rename_i heq
      rw [heq] at hfirst
      exact ih (fun s job' hjob' => hstep s job' (List.mem_cons_of_mem _ hjob')) hfirst

/-- A replacement in a known group, in one piece. -/
theorem replaceTask_eq {g : GroupId} (hgroup : s.groups.contains g = true) (t : TaskId) (job : Job) :
    answered (s.replaceTask g t job) =
      ({ s with
          factory := s.factory.reserveThrough job.id
          foreman := (s.foreman.replaceTask g t job).1
          world := afterStopped s.world (Foreman.stoppedBy (s.foreman.replaceTask g t job).2) },
        told (s.foreman.replaceTask g t job).2) := by
  unfold replaceTask
  rw [if_pos hgroup]
  dsimp only
  rw [afterStop_eq, answered]
  cases hanswer : (s.foreman.replaceTask g t job).2 <;> rfl

/-- **What a command can do**, and what it answers. -/
inductive Effect (s : Sandbox) : Command → Sandbox × Except WorldError Unit → Prop
  | refused {c e} : Effect s c (s, .error e)
  | ignored {c} : Effect s c (s, .ok ())
  | furnishes {c world} : s.world.Furnished world → Effect s c ({ s with world }, .ok ())
  | registers {g} :
      Effect s (.addGroup g)
        ({ s with groups := s.groups.insert g, foreman := (s.foreman.registerGroup g).1 }, .ok ())
  | creates {g name priority program targets factory jobs} :
      s.groups.contains g = true → s.factory.createJobs name priority program targets = .ok (factory, jobs) →
      Effect s (.createTasks g name priority program targets) (answered (addTasks g jobs { s with factory }))
  | adds {g job} :
      s.groups.contains g = true →
      Effect s (.addTask g job)
        ({ s with
            factory := s.factory.reserveThrough job.id
            foreman := (s.foreman.addTask g job).1 }, told (s.foreman.addTask g job).2)
  | shares {g t} :
      s.groups.contains g = true →
      Effect s (.shareTask g t)
        ({ s with foreman := (s.foreman.scheduleExisting g t).1 }, told (s.foreman.scheduleExisting g t).2)
  | replaces {g t job} :
      s.groups.contains g = true →
      Effect s (.replaceTask g t job)
        ({ s with
            factory := s.factory.reserveThrough job.id
            foreman := (s.foreman.replaceTask g t job).1
            world := afterStopped s.world (Foreman.stoppedBy (s.foreman.replaceTask g t job).2) },
          told (s.foreman.replaceTask g t job).2)
  | removes {g t} :
      s.groups.contains g = true →
      Effect s (.removeTask g t)
        ({ s with
            foreman := (s.foreman.removeTask g t).1
            world := afterStopped s.world (Foreman.stoppedBy (s.foreman.removeTask g t).2) },
          told (s.foreman.removeTask g t).2)
  | stops {c actor change} :
      (∀ a, (change a).activity = .idle) →
      Effect s c
        ({ s with world := s.world.updateActor actor change, foreman := (s.foreman.interrupt actor).1 }, .ok ())

theorem effect_addGroup (s : Sandbox) (g : GroupId) : Effect s (.addGroup g) (s.addGroup g, .ok ()) := by
  unfold addGroup
  split
  · exact .ignored
  · exact .registers

/-- The jobs are made before any of them is added. A refusal by the factory leaves everything as it was, while one
by the foreman leaves the jobs that were added before. -/
theorem effect_createTasks (s : Sandbox) (g : GroupId) (name : String) (priority : Int64) (program : Program)
    (targets : List Cube) :
    Effect s (.createTasks g name priority program targets)
      (answered (s.createTasks g name priority program targets)) := by
  unfold createTasks
  split
  · rename_i hgroup
    split
    · exact .refused
    · rename_i hjobs
      exact .creates hgroup hjobs
  · exact .refused

/-- An actor is put where there was none of that name, so nobody is called away from what it is busy with. -/
theorem effect_spawnActor (s : Sandbox) (actor : ActorId) (g : GroupId) (position : Cube) :
    Effect s (.spawnActor actor g position) (s.spawnActor actor g position) := by
  unfold spawnActor
  split
  · exact .refused
  split
  · exact .refused
  split
  · exact .refused
  · rename_i hnew
    have hnone : s.world.actors[actor]? = none := by
      rw [Bool.not_eq_true, ExtTreeMap.contains_eq_isSome_getElem?, Option.isSome_eq_false_iff,
        Option.isNone_iff_eq_none] at hnew
      exact hnew
    refine .furnishes ⟨fun b a ha => ⟨a, ?_, rfl, rfl⟩, fun b a' ha' hb => ?_⟩
    · rw [lookup_insert_of_ne _ _ (fun heq => ?_)]
      · exact ha
      · rw [← heq, hnone] at ha
        cases ha
    · rw [lookup_insert] at ha'
      split at ha'
      · cases ha'
        rfl
      · rw [hb] at ha'
        cases ha'

theorem effect_setCarrying (s : Sandbox) (actor : ActorId) (item : Option Item) :
    Effect s (.setCarrying actor item) (s.setCarrying actor item) := by
  unfold setCarrying
  split
  · refine .furnishes ⟨fun b a ha => ?_, fun b a' ha' hb => ?_⟩
    · rw [World.setCarrying, World.actors_updateActor, ha]
      split <;> exact ⟨_, rfl, rfl, rfl⟩
    · rw [World.setCarrying, World.actors_updateActor, hb] at ha'
      split at ha' <;> cases ha'
  · exact .refused

/-- Terrain and items are no matter for actors. -/
theorem effect_onCube {c : Command} {cube : Cube} {world : World} (h : world.actors = s.world.actors) :
    Effect s c (s.onCube cube { s with world }) := by
  unfold onCube
  split
  · exact .furnishes (World.furnished_of_actors h)
  · exact .refused

theorem effect_addTask (s : Sandbox) (g : GroupId) (job : Job) :
    Effect s (.addTask g job) (answered (s.addTask g job)) := by
  unfold addTask
  split
  · rename_i hgroup
    exact .adds hgroup
  · exact .refused

theorem effect_shareTask (s : Sandbox) (g : GroupId) (t : TaskId) :
    Effect s (.shareTask g t) (s.shareTask g t) := by
  unfold shareTask
  split
  · rename_i hgroup
    have heffect : Effect s (.shareTask g t) _ := .shares hgroup
    rw [told] at heffect
    rw [withForeman]
    cases hanswer : (s.foreman.scheduleExisting g t).2 with
    | error e => rwa [hanswer] at heffect
    | ok _ => rwa [hanswer] at heffect
  · exact .refused

/-- The names up to that of the replacement are used up before the foreman is asked, whatever it answers. -/
theorem effect_replaceTask (s : Sandbox) (g : GroupId) (t : TaskId) (job : Job) :
    Effect s (.replaceTask g t job) (answered (s.replaceTask g t job)) := by
  by_cases hgroup : s.groups.contains g = true
  · rw [replaceTask_eq hgroup]
    exact .replaces hgroup
  · unfold replaceTask
    rw [if_neg hgroup]
    exact .refused

theorem effect_removeTask (s : Sandbox) (g : GroupId) (t : TaskId) :
    Effect s (.removeTask g t) (s.removeTask g t) := by
  unfold removeTask
  split
  · rename_i hgroup
    rw [afterStop_eq]
    exact .removes hgroup
  · exact .refused

theorem effect_interrupt (s : Sandbox) (actor : ActorId) :
    Effect s (.interrupt actor) (answered (s.interrupt actor)) := by
  unfold interrupt
  split
  · exact .stops fun _ => rfl
  · exact .refused

/-- To die is to stop: the actor is idle from then on, and its task is free for another. -/
theorem effect_killActor (s : Sandbox) (actor : ActorId) :
    Effect s (.killActor actor) (s.killActor actor) := by
  unfold killActor World.kill
  split
  · cases s.world.living? actor with
    | none => exact .ignored
    | some a => exact .stops fun _ => rfl
  · exact .refused

/-- **A command has an effect of the list.** -/
theorem effect_perform (s : Sandbox) (c : Command) : Effect s c (s.perform c) := by
  cases c with
  | addGroup g => exact effect_addGroup s g
  | spawnActor actor g position => exact effect_spawnActor s actor g position
  | setCarrying actor item => exact effect_setCarrying s actor item
  | setTerrain cube terrain => exact effect_onCube rfl
  | placeLog cube => exact effect_onCube rfl
  | placeBoulder cube => exact effect_onCube rfl
  | createTasks g name priority program targets => exact effect_createTasks s g name priority program targets
  | addTask g job => exact effect_addTask s g job
  | shareTask g t => exact effect_shareTask s g t
  | replaceTask g t job => exact effect_replaceTask s g t job
  | removeTask g t => exact effect_removeTask s g t
  | interrupt actor => exact effect_interrupt s actor
  | killActor actor => exact effect_killActor s actor

end Sandbox

end TaskScript
