import Mathlib.Data.List.Permutation
import TaskScript.Document.Scenario
import TaskScript.Proofs.Json.Canonical

/-!
# `Proofs.Document.Values`: numbers, identifiers, cubes and script values are read back

Numbers are written as they are and read within the range of their type, so a number of the type is not refused.
A cube is a record of three of them, in any order of its members. A script value is a tagged document, and its content
may come before its tag.

## Contents
- `Json.toInt32?_toInt`, `Json.toInt64?_toInt`, `Json.toUInt64?_ofUInt64`: numbers are in the range of their type.
- `ofJson?_toJson` for the identifiers.
- `Always.tagged`, `ReadsAs.ofOption`: tagged documents, and those that may be missing.
- `readsAs` for `Cube`, `ActorId`, `GroupId`, `TaskId`, `Terrain`, `Item` and `Value`: **values are read back**.
- `Value.isCanonical_toJson`: a value is written in canonical form.
-/

namespace TaskScript

open Json

/-! ## Numbers and identifiers -/

/-- **A number of a type is in the range of the type**, and is read as it was written. Documents hold numbers
without bounds, so reading is where a number that is too large is refused. -/
theorem Json.toInt32?_toInt (x : Int32) : (Json.int x.toInt).toInt32? = some x := by
  have hrange : (-2147483648 : Int) ≤ x.toInt ∧ x.toInt ≤ 2147483647 :=
    ⟨x.le_toInt, Int.lt_add_one_iff.mp x.toInt_lt⟩
  rw [toInt32?, toIntWithin?, if_pos hrange, Option.map_some, Int32.ofInt_toInt]

theorem Json.toInt64?_toInt (x : Int64) : (Json.int x.toInt).toInt64? = some x := by
  have hrange : (-9223372036854775808 : Int) ≤ x.toInt ∧ x.toInt ≤ 9223372036854775807 :=
    ⟨x.le_toInt, Int.lt_add_one_iff.mp x.toInt_lt⟩
  rw [toInt64?, toIntWithin?, if_pos hrange, Option.map_some, Int64.ofInt_toInt]

/-- The largest identifiers are beyond what signed numbers hold. They are written without a sign and read in their
own range. -/
theorem Json.toUInt64?_ofUInt64 (n : UInt64) : (Json.ofUInt64 n).toUInt64? = some n := by
  have hlt := n.toNat_lt
  have hrange : (0 : Int) ≤ n.toNat ∧ (n.toNat : Int) ≤ 18446744073709551615 := by omega
  rw [ofUInt64, toUInt64?, toIntWithin?, if_pos hrange, Option.map_some, Int.toNat_natCast]
  exact congrArg some n.ofNat_toNat

/-- An identifier is written as its number, with no sign of what it names. The field that it stands in says which
of the three readers is asked. -/
theorem ActorId.ofJson?_toJson (a : ActorId) : ActorId.ofJson? a.toJson = some a := by
  rw [ofJson?, toJson, Json.toUInt64?_ofUInt64]
  rfl

theorem GroupId.ofJson?_toJson (g : GroupId) : GroupId.ofJson? g.toJson = some g := by
  rw [ofJson?, toJson, Json.toUInt64?_ofUInt64]
  rfl

theorem TaskId.ofJson?_toJson (t : TaskId) : TaskId.ofJson? t.toJson = some t := by
  rw [ofJson?, toJson, Json.toUInt64?_ofUInt64]
  rfl

/-- A number has no members that could be rearranged, so it is read back in every arrangement of the document
around it. -/
theorem ActorId.readsAs (a : ActorId) : a.toJson.ReadsAs ofJson? a :=
  .scalar rfl a.ofJson?_toJson

theorem GroupId.readsAs (g : GroupId) : g.toJson.ReadsAs ofJson? g :=
  .scalar rfl g.ofJson?_toJson

theorem TaskId.readsAs (t : TaskId) : t.toJson.ReadsAs ofJson? t :=
  .scalar rfl t.ofJson?_toJson

/-! ## Cubes, terrains and items -/

/-- **Cubes are read back**, with the coordinates in any order. -/
theorem Cube.readsAs (c : Cube) : c.toJson.ReadsAs ofJson? c := by
  have coordinate (n : Int32) : (Json.int n.toInt).ReadsAs toInt32? n := .scalar rfl (toInt32?_toInt n)
  refine (Always.record (by simp)
    (.cons (coordinate c.x) (.cons (coordinate c.y) (.cons (coordinate c.z) .nil)))).mono ?_
  rintro j ⟨_, ⟨x, _, rfl, hx, y, _, rfl, hy, z, _, rfl, hz, rfl⟩, hrecord⟩
  simp [ofJson?, hrecord, Field.lookup?, hx, hy, hz]

/-- Terrains and items are written as plain names, each its own, so they are read back case by case. -/
theorem Terrain.readsAs (t : Terrain) : t.toJson.ReadsAs ofJson? t :=
  .scalar rfl (by cases t <;> rfl)

theorem Item.readsAs (i : Item) : i.toJson.ReadsAs ofJson? i :=
  .scalar rfl (by cases i <;> rfl)

/-! ## Tagged documents, and those that may be missing -/

/-- A tag and its content, in any order. -/
theorem Json.Always.tagged {content : Json} {P : Json → Prop} {tagName contentName tag : String}
    (hne : tagName ≠ contentName) (h : content.Always P) :
    (Json.obj [(tagName, .str tag), (contentName, content)]).Always fun j =>
      ∃ content', P content' ∧ j.tagged? tagName contentName = some (tag, some content') := by
  have htag : (Json.str tag).Always (· = .str tag) := .scalar rfl rfl
  refine .obj (by simp [hne]) (.cons htag (.cons h.readable .nil)) ?_
  rintro _ shuffled - ⟨_, _, rfl, rfl, content', _, rfl, ⟨hcontent, hreadable⟩, rfl⟩ hperm
  refine ⟨content', hcontent, ?_⟩
  rcases List.perm_pair.mp hperm.symm with rfl | rfl
  · simp [tagged?, plainChoice?, hne]
  · simp [tagged?, plainChoice?, hne.symm, hreadable]

/-- A document that may be missing. -/
theorem Json.ReadsAs.ofOption {α : Type} {write : α → Json} {read : Json → Option α} (hnull : read .null = none)
    (h : ∀ a, (write a).ReadsAs read a) (o : Option α) :
    (Json.ofOption write o).ReadsAs (toOption? read) o := by
  cases o with
  | none => exact .scalar rfl rfl
  | some a => exact (h a).mono fun _ hj => toOption?_eq hnull hj

/-! ## Script values -/

/-- **Values are read back**, with the kind before the content or after it. -/
theorem Value.readsAs (v : Value) : v.toJson.ReadsAs ofJson? v := by
  have hne : "kind" ≠ "value" := by decide
  cases v with
  | boolean b =>
    refine (Always.tagged hne (.scalar (P := fun j => j.toBool? = some b) rfl rfl)).mono ?_
    rintro j ⟨content, hcontent, htagged⟩
    simp [ofJson?, htagged, kind, ValueKind.label, hcontent]
  | position c =>
    refine (Always.tagged hne c.readsAs).mono ?_
    rintro j ⟨content, hcontent, htagged⟩
    simp [ofJson?, htagged, kind, ValueKind.label, hcontent]
  | actor a =>
    refine (Always.tagged hne a.readsAs).mono ?_
    rintro j ⟨content, hcontent, htagged⟩
    simp [ofJson?, htagged, kind, ValueKind.label, hcontent]

/-- The coordinates of a cube are written in alphabetical order, which is the canonical one. -/
theorem Cube.isCanonical_toJson (c : Cube) : c.toJson.IsCanonical := by
  have hkeys : ["x", "y", "z"].Pairwise (· < ·) := by decide
  have number (n : Int) : (Json.int n).IsCanonical := isCanonical_of_isScalar rfl
  exact .obj (.of_keys hkeys) (by simp [number])

/-- The kind of a value is written before its content, as the order of keys has it. So a value in the details of an
event is the same document after the details were put in canonical form. -/
theorem Value.isCanonical_toJson (v : Value) : v.toJson.IsCanonical := by
  refine .pair (isCanonical_of_isScalar rfl) ?_ (by decide)
  cases v with
  | boolean b => exact isCanonical_of_isScalar rfl
  | position c => exact c.isCanonical_toJson
  | actor a => exact isCanonical_of_isScalar rfl

end TaskScript
