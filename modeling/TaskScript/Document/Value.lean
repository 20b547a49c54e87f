import TaskScript.Json.Basic
import TaskScript.Task.Basic
import TaskScript.Terrain

/-!
# Documents of values

How cubes, identifiers, script values and task states are written as JSON, and what is read back.

A tagged document, such as that of a value, names its kind in one field and holds its content in
another.  It may also be an array of the two.

## Contents
- `Cube.toJson`, `Cube.ofJson?`; the same for `ActorId`, `GroupId`, `TaskId`, `Terrain`, `Item`.
- `Json.tagged?`: the tag and the content of a tagged document.
- `Value.toJson`, `Value.ofJson?`, `TaskStatus.toJson`, `TaskStatus.ofJson?`.
-/

namespace TaskScript

/-! ## Cubes and identifiers -/

namespace Cube

/-- The document of a cube: its coordinates by name. -/
def toJson (c : Cube) : Json :=
  .obj [("x", .int c.x.toInt), ("y", .int c.y.toInt), ("z", .int c.z.toInt)]

/-- Reads a cube, given as an object or as an array. -/
def ofJson? (j : Json) : Option Cube := do
  let [x, y, z] ← j.record? [{ name := "x" }, { name := "y" }, { name := "z" }] | none
  return ⟨← (← x).toInt32?, ← (← y).toInt32?, ← (← z).toInt32?⟩

end Cube

/-- The document of a 64-bit number. -/
def Json.ofUInt64 (n : UInt64) : Json :=
  .int n.toNat

/-- The document of an actor: its number. -/
def ActorId.toJson (a : ActorId) : Json := .ofUInt64 a.val

/-- Reads an actor. -/
def ActorId.ofJson? (j : Json) : Option ActorId := j.toUInt64?.map ActorId.mk

/-- The document of a group: its number. -/
def GroupId.toJson (g : GroupId) : Json := .ofUInt64 g.val

/-- Reads a group. -/
def GroupId.ofJson? (j : Json) : Option GroupId := j.toUInt64?.map GroupId.mk

/-- The document of a task: its number. -/
def TaskId.toJson (t : TaskId) : Json := .ofUInt64 t.val

/-- Reads a task. -/
def TaskId.ofJson? (j : Json) : Option TaskId := j.toUInt64?.map TaskId.mk

/-! ## Plain choices -/

/-- The choice named by a document.  A choice without content is a string, or an object of its name
and `null`. -/
def Json.plainChoice? : Json → Option String
  | .str name => some name
  | .obj [(name, .null)] => some name
  | _ => none

/-- The document of a terrain: its name. -/
def Terrain.toJson (t : Terrain) : Json := .str t.label

/-- Reads a terrain. -/
def Terrain.ofJson? (j : Json) : Option Terrain := do
  match ← j.plainChoice? with
  | "air" => some .air
  | "rock" => some .rock
  | "tree" => some .tree
  | "workshop" => some .workshop
  | _ => none

/-- The document of an item: its name. -/
def Item.toJson (i : Item) : Json := .str i.label

/-- Reads an item. -/
def Item.ofJson? (j : Json) : Option Item := do
  match ← j.plainChoice? with
  | "log" => some .log
  | "boulder" => some .boulder
  | _ => none

/-! ## Tagged documents -/

/-- The tag of a tagged document, and its content if there is one.  In an object the tag is a plain
choice, and the two come in any order, among members of other names; a content that comes before its
tag is read in full before it is known what it is for.  In an array there are exactly the two, and
the tag is a string. -/
def Json.tagged? (tagName contentName : String) : Json → Option (String × Option Json)
  | .obj members =>
    match members.filter fun m => m.1 == tagName || m.1 == contentName with
    | [(name, tag)] => if name == tagName then tag.plainChoice?.map (·, none) else none
    | [(first, j), (second, k)] =>
      if first == second then none
      else if first == tagName then j.plainChoice?.map (·, some k)
      else if j.isReadable then k.plainChoice?.map (·, some j)
      else none
    | _ => none
  | .arr [.str tag, content] => some (tag, some content)
  | _ => none

namespace Value

/-- The document of a value: its kind and its content. -/
def toJson (v : Value) : Json :=
  .obj [("kind", .str v.kind.label), ("value", match v with
    | .boolean b => .bool b
    | .position c => c.toJson
    | .actor a => a.toJson)]

/-- Reads a value. -/
def ofJson? (j : Json) : Option Value := do
  match ← j.tagged? "kind" "value" with
  | ("boolean", some content) => return .boolean (← content.toBool?)
  | ("position", some content) => return .position (← Cube.ofJson? content)
  | ("actor", some content) => return .actor (← ActorId.ofJson? content)
  | _ => none

end Value

namespace TaskStatus

/-- The document of a task state: its name, and the actor if one is doing the task. -/
def toJson : TaskStatus → Json
  | .unassigned => .obj [("state", .str "unassigned")]
  | .assignedTo actor => .obj [("state", .str "assigned_to"), ("actor", actor.toJson)]
  | .completed => .obj [("state", .str "completed")]

/-- Reads a task state.  A state without an actor may have `null` for one. -/
def ofJson? (j : Json) : Option TaskStatus := do
  match ← j.tagged? "state" "actor" with
  | ("unassigned", none) | ("unassigned", some .null) => some .unassigned
  | ("assigned_to", some content) => return .assignedTo (← ActorId.ofJson? content)
  | ("completed", none) | ("completed", some .null) => some .completed
  | _ => none

end TaskStatus

end TaskScript
