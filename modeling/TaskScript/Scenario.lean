import TaskScript.Config
import TaskScript.Script
import TaskScript.Terrain

/-!
# Scenarios

A scenario is everything that is needed to set up a sandbox run: the world, its actors, their tasks,
and how long to run.

## Contents
- `TerrainPatch`, `ActorSpec`, `TaskSpec`: the entries of a scenario.
- `Scenario`.
-/

namespace TaskScript

/-- What fills one cube at the start. -/
structure TerrainPatch where
  cube : Cube
  terrain : Terrain
deriving DecidableEq, Repr

/-- An actor at the start. -/
structure ActorSpec where
  id : ActorId
  group : GroupId
  position : Cube
  carrying : Option Item
deriving DecidableEq, Repr

/-- A task to be done. -/
structure TaskSpec where
  name : String
  /-- The groups that share the task.  The first one creates it. -/
  groups : List GroupId
  priority : Int64
  /-- The cubes to do it at, for a program that reads the selected cube. -/
  targets : List Cube
  program : Script
deriving Repr

/-- The description of a sandbox run. -/
structure Scenario where
  config : Config := {}
  terrain : List TerrainPatch := []
  logs : List Cube := []
  boulders : List Cube := []
  groups : List GroupId := []
  actors : List ActorSpec := []
  tasks : List TaskSpec := []
  /-- The seconds of a tick. -/
  dt : Float := 0.1
  ticks : UInt64 := 50
deriving Repr

end TaskScript
