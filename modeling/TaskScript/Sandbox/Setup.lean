import TaskScript.Sandbox.Basic
import TaskScript.Scenario

/-!
# Setting up a scenario

A scenario is set up entry by entry, in the order terrain, logs, boulders, groups, actors, tasks; the
first entry that is refused ends the setup.

## Contents
- `Sandbox.addSpec`: a task, created in its first group and shared with the others.
- `Sandbox.ofScenario`: a whole scenario.
-/

namespace TaskScript.Sandbox

/-- What an accepted command leads to and answers. -/
def accepted {α : Type} (answer : Sandbox × Except WorldError α) :
    Except WorldError (Sandbox × α) :=
  answer.2.map (answer.1, ·)

/-- What an accepted command leads to. -/
def settled {α : Type} (answer : Sandbox × Except WorldError α) : Except WorldError Sandbox :=
  answer.2.map fun _ => answer.1

/-- Puts an actor of a scenario into the world. -/
def addActor (s : Sandbox) (spec : ActorSpec) : Except WorldError Sandbox := do
  let s ← settled (s.spawnActor spec.id spec.group spec.position)
  settled (s.setCarrying spec.id spec.carrying)

/-- Creates the tasks of an entry in its first group and shares them with its other groups. -/
def addSpec (s : Sandbox) (spec : TaskSpec) : Except WorldError Sandbox := do
  let program ← spec.program.build.mapError .formation
  match spec.groups with
  | [] => throw (.noGroups spec.name)
  | first :: others =>
    let (s, ids) ← accepted (s.createTasks first spec.name spec.priority program spec.targets)
    others.foldlM (fun s group => ids.foldlM (fun s id => settled (s.shareTask group id)) s) s

/-- The sandbox that a scenario describes. -/
def ofScenario (scenario : Scenario) : Except WorldError Sandbox := do
  let s := Sandbox.new scenario.config
  let s ← scenario.terrain.foldlM (fun s patch => settled (s.setTerrain patch.cube patch.terrain)) s
  let s ← scenario.logs.foldlM (fun s c => settled (s.placeLog c)) s
  let s ← scenario.boulders.foldlM (fun s c => settled (s.placeBoulder c)) s
  let s := scenario.groups.foldl addGroup s
  let s ← scenario.actors.foldlM addActor s
  scenario.tasks.foldlM addSpec s

end TaskScript.Sandbox
