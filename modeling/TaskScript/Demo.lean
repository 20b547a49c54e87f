import TaskScript.Sandbox.Setup

/-!
# The built-in demonstration

A small world with two actors, two trees and a workshop.  One task surveys a cube far away; the
others fell the trees and carry the logs to the workshop.

## Contents
- `Demo.survey`, `Demo.lumber`: the scripts.
- `Demo.sandbox`: the world with its tasks handed in.
-/

namespace TaskScript.Demo

/-- Goes to a cube and works on it. -/
def survey : Script :=
  let place := PositionExpr.literal ⟨5, 5, 5⟩
  .sequence [.leaf (.action (.moveTo place)), .leaf (.action (.work place))]

/-- Fells the selected tree, picks up the nearest log, and works on the workshop from next to it
until the log is gone. -/
def lumber : Script :=
  .sequence [
    .leaf (.action (.moveTo (.nextTo .selected))),
    .leaf (.action (.work .selected)),
    .leaf (.action (.work .log)),
    .whileDo (.bool (.carriesItem .this)) (.sequence [
      .leaf (.action (.moveTo (.nextTo .workshop))),
      .leaf (.action (.work .workshop))]),
    .leaf (.print (.position .here))]

/-- The trees to fell. -/
def trees : List Cube :=
  [⟨7, 0, 0⟩, ⟨7, 2, 0⟩]

/-- The settings of the demonstration. -/
def config : Config where
  worldSize := ⟨12, 12, 8⟩
  timings := { moveSecondsPerCube := 0.2, workSeconds := 0.5, attackSeconds := 0.5 }

/-- The jobs of the demonstration. -/
def jobs : Except WorldError (List Job) := do
  let (factory, surveys) ←
    (({} : Factory).createJobs "survey" 10 (← survey.build.mapError .formation) []).mapError .formation
  let (_, lumbers) ←
    (factory.createJobs "lumber" 5 (← lumber.build.mapError .formation) trees).mapError .formation
  return surveys ++ lumbers

/-- The world of the demonstration, its tasks handed in. -/
def sandbox : Except WorldError Sandbox := do
  let crew : GroupId := ⟨1⟩
  let s := (Sandbox.new config).addGroup crew
  let s ← Sandbox.settled (s.spawnActor ⟨1⟩ crew ⟨0, 0, 0⟩)
  let s ← Sandbox.settled (s.spawnActor ⟨2⟩ crew ⟨2, 0, 0⟩)
  let s ← trees.foldlM (fun s tree => Sandbox.settled (s.setTerrain tree .tree)) s
  let s ← Sandbox.settled (s.setTerrain ⟨0, 5, 0⟩ .workshop)
  (← jobs).foldlM (fun s job => Sandbox.settled (s.addTask crew job)) s

end TaskScript.Demo
