import TaskScript.Document.Script
import TaskScript.Json.Reader
import TaskScript.Scenario

/-!
# Documents of scenarios

How scenarios and their entries are written and read.  Most fields of a scenario may be left out; a
setting then has its usual value, and a list is empty.

## Contents
- `toJson` and `ofJson?` for `Extent`, `Timings`, `Config`, `TerrainPatch`, `ActorSpec`, `TaskSpec`
  and `Scenario`.
- `Scenario.parse?`: reads the text of a scenario.
-/

namespace TaskScript

/-- The document of an extent: its three sizes. -/
def Extent.toJson (e : Extent) : Json :=
  .arr [.int e.x.toNat, .int e.y.toNat, .int e.z.toNat]

/-- Reads an extent. -/
def Extent.ofJson? : Json → Option Extent
  | .arr [x, y, z] => return ⟨← x.toUInt32?, ← y.toUInt32?, ← z.toUInt32?⟩
  | _ => none

/-- Reads the value of a field that has a usual value when it is left out. -/
def Json.orElse {α : Type} (usual : α) (read : Json → Option α) : Option Json → Option α
  | none => some usual
  | some j => read j

namespace Timings

/-- The document of timings. -/
def toJson (t : Timings) : Json :=
  .obj [("move_seconds_per_cube", .float t.moveSecondsPerCube), ("work_seconds", .float t.workSeconds),
    ("attack_seconds", .float t.attackSeconds)]

/-- Reads timings. -/
def ofJson? (j : Json) : Option Timings := do
  let usual : Timings := {}
  let [move, work, attack] ← j.record?
    [{ name := "move_seconds_per_cube", presence := .defaulted },
      { name := "work_seconds", presence := .defaulted },
      { name := "attack_seconds", presence := .defaulted }] | none
  return {
    moveSecondsPerCube := ← Json.orElse usual.moveSecondsPerCube Json.toFloat? move
    workSeconds := ← Json.orElse usual.workSeconds Json.toFloat? work
    attackSeconds := ← Json.orElse usual.attackSeconds Json.toFloat? attack }

end Timings

namespace Config

/-- The document of a configuration. -/
def toJson (c : Config) : Json :=
  .obj [("schema_version", .str c.schemaVersion), ("world_size", c.worldSize.toJson),
    ("max_steps_per_tick", .int c.maxStepsPerTick.toNat), ("timings", c.timings.toJson)]

/-- Reads a configuration. -/
def ofJson? (j : Json) : Option Config := do
  let usual : Config := {}
  let [version, size, steps, timings] ← j.record?
    [{ name := "schema_version", presence := .defaulted },
      { name := "world_size", presence := .defaulted },
      { name := "max_steps_per_tick", presence := .defaulted },
      { name := "timings", presence := .defaulted }] | none
  return {
    schemaVersion := ← Json.orElse usual.schemaVersion Json.toString? version
    worldSize := ← Json.orElse usual.worldSize Extent.ofJson? size
    maxStepsPerTick := ← Json.orElse usual.maxStepsPerTick Json.toUInt32? steps
    timings := ← Json.orElse usual.timings Timings.ofJson? timings }

end Config

namespace TerrainPatch

/-- The document of a terrain patch. -/
def toJson (p : TerrainPatch) : Json :=
  .obj [("cube", p.cube.toJson), ("terrain", p.terrain.toJson)]

/-- Reads a terrain patch. -/
def ofJson? (j : Json) : Option TerrainPatch := do
  let [cube, terrain] ← j.record? [{ name := "cube" }, { name := "terrain" }] | none
  return { cube := ← Cube.ofJson? (← cube), terrain := ← Terrain.ofJson? (← terrain) }

end TerrainPatch

/-- The document of something that may be missing: `null` stands for nothing. -/
def Json.ofOption {α : Type} (write : α → Json) : Option α → Json
  | none => .null
  | some a => write a

namespace ActorSpec

/-- The document of an actor. -/
def toJson (a : ActorSpec) : Json :=
  .obj [("id", a.id.toJson), ("group", a.group.toJson), ("position", a.position.toJson),
    ("carrying", Json.ofOption Item.toJson a.carrying)]

/-- Reads an actor. -/
def ofJson? (j : Json) : Option ActorSpec := do
  let [id, group, position, carrying] ← j.record?
    [{ name := "id" }, { name := "group" }, { name := "position" },
      { name := "carrying", presence := .defaulted }] | none
  return {
    id := ← ActorId.ofJson? (← id)
    group := ← GroupId.ofJson? (← group)
    position := ← Cube.ofJson? (← position)
    carrying := ← (carrying.getD .null).toOption? Item.ofJson? }

end ActorSpec

namespace TaskSpec

/-- The document of a task. -/
def toJson (t : TaskSpec) : Json :=
  .obj [("name", .str t.name), ("groups", .arr (t.groups.map GroupId.toJson)),
    ("priority", .int t.priority.toInt), ("targets", .arr (t.targets.map Cube.toJson)),
    ("program", t.program.toJson)]

/-- Reads a task. -/
def ofJson? (j : Json) : Option TaskSpec := do
  let [name, groups, priority, targets, program] ← j.record?
    [{ name := "name" }, { name := "groups" }, { name := "priority", presence := .defaulted },
      { name := "targets", presence := .defaulted }, { name := "program" }] | none
  return {
    name := ← (← name).toString?
    groups := ← (← groups).toList? GroupId.ofJson?
    priority := ← Json.orElse 0 Json.toInt64? priority
    targets := ← Json.orElse [] (Json.toList? Cube.ofJson?) targets
    program := ← Script.ofJson? (← program) }

end TaskSpec

namespace Scenario

/-- The document of a scenario. -/
def toJson (s : Scenario) : Json :=
  .obj [("config", s.config.toJson), ("terrain", .arr (s.terrain.map TerrainPatch.toJson)),
    ("logs", .arr (s.logs.map Cube.toJson)), ("boulders", .arr (s.boulders.map Cube.toJson)),
    ("groups", .arr (s.groups.map GroupId.toJson)), ("actors", .arr (s.actors.map ActorSpec.toJson)),
    ("tasks", .arr (s.tasks.map TaskSpec.toJson)), ("dt", .float s.dt),
    ("ticks", .int s.ticks.toNat)]

/-- The fields of a scenario, all of which may be left out. -/
def fields : List Json.Field :=
  ["config", "terrain", "logs", "boulders", "groups", "actors", "tasks", "dt", "ticks"].map
    fun name => { name, presence := .defaulted }

/-- Reads a scenario. -/
def ofJson? (j : Json) : Option Scenario := do
  let usual : Scenario := {}
  let [config, terrain, logs, boulders, groups, actors, tasks, dt, ticks] ← j.record? fields | none
  return {
    config := ← Json.orElse usual.config Config.ofJson? config
    terrain := ← Json.orElse usual.terrain (Json.toList? TerrainPatch.ofJson?) terrain
    logs := ← Json.orElse usual.logs (Json.toList? Cube.ofJson?) logs
    boulders := ← Json.orElse usual.boulders (Json.toList? Cube.ofJson?) boulders
    groups := ← Json.orElse usual.groups (Json.toList? GroupId.ofJson?) groups
    actors := ← Json.orElse usual.actors (Json.toList? ActorSpec.ofJson?) actors
    tasks := ← Json.orElse usual.tasks (Json.toList? TaskSpec.ofJson?) tasks
    dt := ← Json.orElse usual.dt Json.toFloat? dt
    ticks := ← Json.orElse usual.ticks Json.toUInt64? ticks }

/-- Reads the text of a scenario. -/
def parse? (text : String) : Option Scenario :=
  (Json.parse? text).bind ofJson?

end Scenario

end TaskScript
