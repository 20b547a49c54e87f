import TaskScript.Document.Scenario
import TaskScript.Proofs.Document.Scripts

/-!
# `Proofs.Document.RoundTrip`: documents survive a round trip

What is written down of a script, a task, an actor or a terrain patch is read back as the same value: off the
document as it is written, off the document sorted by key, and off every other arrangement of it.

## Contents
- `readsAs` for `TerrainPatch`, `ActorSpec` and `TaskSpec`: the entries of a scenario are read back.
- `Json.RoundTrips`, `documents_round_trip`: **documents survive a round trip**, and what they look like.
-/

namespace TaskScript

open Json

/-! ## The entries of a scenario -/

theorem TerrainPatch.readsAs (p : TerrainPatch) : p.toJson.ReadsAs ofJson? p := by
  refine (Always.record (by simp) (.cons p.cube.readsAs (.cons p.terrain.readsAs .nil))).mono ?_
  rintro j ⟨_, ⟨c, _, rfl, hc, t, _, rfl, ht, rfl⟩, hrecord⟩
  simp [ofJson?, hrecord, Field.lookup?, hc, ht]

/-- An actor that carries nothing is written with `null` for its load, and may be read without the member. -/
theorem ActorSpec.readsAs (a : ActorSpec) : a.toJson.ReadsAs ofJson? a := by
  refine (Always.record (by simp) (.cons a.id.readsAs (.cons a.group.readsAs
    (.cons a.position.readsAs (.cons (ReadsAs.ofOption rfl Item.readsAs a.carrying) .nil))))).mono ?_
  rintro j ⟨_, ⟨i, _, rfl, hi, g, _, rfl, hg, p, _, rfl, hp, c, _, rfl, hc, rfl⟩, hrecord⟩
  simp [ofJson?, hrecord, Field.lookup?, hi, hg, hp, hc]

/-- A task is read back with its script, which is a whole document of its own inside the member `program`. -/
theorem TaskSpec.readsAs (t : TaskSpec) : t.toJson.ReadsAs ofJson? t := by
  have hname : (Json.str t.name).ReadsAs toString? t.name := .scalar rfl rfl
  have hgroups := ReadsAs.list fun g (_ : g ∈ t.groups) => g.readsAs
  have hpriority : (Json.int t.priority.toInt).ReadsAs toInt64? t.priority := .scalar rfl (toInt64?_toInt _)
  have htargets := ReadsAs.list fun c (_ : c ∈ t.targets) => c.readsAs
  refine (Always.record (by simp) (.cons hname (.cons hgroups (.cons hpriority
    (.cons htargets (.cons t.program.readsAs .nil)))))).mono ?_
  rintro j ⟨_, ⟨n, _, rfl, hn, g, _, rfl, hg, p, _, rfl, hp, c, _, rfl, hc, s, _, rfl, hs, rfl⟩, hrecord⟩
  simp [ofJson?, hrecord, Field.lookup?, orElse, hn, hg, hp, hc, hs]

/-! ## Round trips -/

/-- **Documents survive a round trip**: what is written is read back, off the document as it is written, off the
document with its members sorted by key, and off every other arrangement of it. -/
structure Json.RoundTrips {α : Type} (write : α → Json) (read : Json → Option α) : Prop where
  written : ∀ a, read (write a) = some a
  sorted : ∀ a, read (write a).canonical = some a
  rearranged : ∀ a j, (write a).Rearranged j → read j = some a

/-- Sorting the members by key is one of the arrangements, so all three ways of reading follow from one. -/
theorem Json.RoundTrips.of_readsAs {α : Type} {write : α → Json} {read : Json → Option α}
    (h : ∀ a, (write a).ReadsAs read a) : RoundTrips write read where
  written a := (h a).self
  sorted a := (h a).canonical
  rearranged a := (h a).holds

/-- **Documents survive a round trip.** Scripts, tasks, actors and terrain patches are read back as what was
written.

A statement is tagged by its member `op`, and has a member `otherwise` only if it is a conditional with another
branch. An expression for a cube or an actor is written as a string exactly if it has no content. A conjunction or
disjunction is written as an array of two. -/
theorem documents_round_trip :
    RoundTrips Script.toJson Script.ofJson? ∧
    RoundTrips TaskSpec.toJson TaskSpec.ofJson? ∧
    RoundTrips ActorSpec.toJson ActorSpec.ofJson? ∧
    RoundTrips TerrainPatch.toJson TerrainPatch.ofJson? ∧
    (∀ s : Script, ∃ form ∈ Script.forms, ∃ members, s.toJson = .obj (("op", .str form) :: members) ∧
      "op" ∉ members.map Prod.fst ∧
      ("otherwise" ∈ members.map Prod.fst ↔ ∃ condition thenBranch otherwise,
        s = .ifThen condition thenBranch (some otherwise))) ∧
    (∀ (p : PositionExpr) (name : String), p.toJson = .str name ↔ PositionExpr.plain? name = some p) ∧
    (∀ (a : ActorExpr) (name : String), a.toJson = .str name ↔ ActorExpr.plain? name = some a) ∧
    (∀ left right : BoolExpr,
      (left.and right).toJson = .single "and" (.arr [left.toJson, right.toJson]) ∧
      (left.or right).toJson = .single "or" (.arr [left.toJson, right.toJson])) :=
  ⟨.of_readsAs Script.readsAs, .of_readsAs TaskSpec.readsAs, .of_readsAs ActorSpec.readsAs,
    .of_readsAs TerrainPatch.readsAs, Script.exists_form, PositionExpr.toJson_eq_str, ActorExpr.toJson_eq_str,
    fun _ _ => ⟨rfl, rfl⟩⟩

/-- A move that is made only from solid ground. -/
def guardedMove : Script :=
  .ifThen (.bool (.isSolid .here)) (.leaf (.action (.moveTo (.literal ⟨1, 2, 3⟩)))) none

/-- The theorem applies, for instance to a conditional whose members come in the opposite order, its tag last. -/
theorem guardedMove_read_back_to_front :
    Script.ofJson? (.obj
      [("then", .obj [("op", .str "move_to"), ("target", .single "literal" (Cube.toJson ⟨1, 2, 3⟩))]),
        ("condition", .single "bool" (.single "is_solid" (.str "here"))), ("op", .str "if")]) = some guardedMove :=
  documents_round_trip.1.rearranged guardedMove _
    (guardedMove.readsAs.proper.rearranged_of_perm (List.reverse_perm _).symm)

end TaskScript
