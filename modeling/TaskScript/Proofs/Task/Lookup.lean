import TaskScript.Task.Basic

/-!
# `Proofs.Task.Lookup`: what is found after a change

Tables that are keyed by identifiers, and the task board on top of one, say what they hold by `[key]?`. Here
is what that gives after each change of a table. Equality of keys is decided, and not the order of the table,
so that no later proof sees the order.

## Contents
- `lookup_insert`, `lookup_erase`, `lookup_modify`: **tables**.
- `of_lookup_insert`, `of_lookup_erase`, `of_lookup_modify`: what holds of every entry of a table.
- `Board.getElem?_insert`, `Board.getElem?_modify`, `Board.getElem?_erase`: **the board**.
- `Board.Named`: tasks lie under their own names.
- `idleBoard`: a small board to try things on.
-/

namespace TaskScript

open Std

/-! ## Tables -/

section

variable {α β : Type} [Ord α] [TransOrd α] [LawfulEqOrd α] [DecidableEq α]

/-- An inserted entry is found under its key, and hides what was there. -/
theorem lookup_insert (m : ExtTreeMap α β) (k a : α) (v : β) :
    (m.insert k v)[a]? = if k = a then some v else m[a]? := by
  rw [ExtTreeMap.getElem?_insert]
  simp only [Std.compare_eq_iff_eq]

theorem lookup_erase (m : ExtTreeMap α β) (k a : α) :
    (m.erase k)[a]? = if k = a then none else m[a]? := by
  rw [ExtTreeMap.getElem?_erase]
  simp only [Std.compare_eq_iff_eq]

/-- A change reaches the entry under its key if there is one, and makes none if there is not. -/
theorem lookup_modify (m : ExtTreeMap α β) (k a : α) (change : β → β) :
    (m.modify k change)[a]? = if k = a then m[a]?.map change else m[a]? := by
  rw [ExtTreeMap.getElem?_modify]
  by_cases h : k = a
  · rw [if_pos (Std.compare_eq_iff_eq.mpr h), if_pos h, h]
  · rw [if_neg fun heq => h (Std.compare_eq_iff_eq.mp heq), if_neg h]

/-- Two changes of one entry are one change. Tables with equal lookups are equal, so this is an equation of tables. -/
theorem modify_modify (m : ExtTreeMap α β) (k : α) (change change' : β → β) :
    (m.modify k change).modify k change' = m.modify k (change' ∘ change) := by
  refine ExtTreeMap.ext_getElem? fun a => ?_
  rw [lookup_modify, lookup_modify, lookup_modify]
  split
  · rw [Option.map_map]
  · rfl

theorem lookup_insert_self (m : ExtTreeMap α β) (k : α) (v : β) : (m.insert k v)[k]? = some v := by
  rw [lookup_insert, if_pos rfl]

theorem lookup_insert_of_ne (m : ExtTreeMap α β) {k a : α} (v : β) (h : k ≠ a) :
    (m.insert k v)[a]? = m[a]? := by
  rw [lookup_insert, if_neg h]

/-! ### What holds of every entry -/

variable {P : β → Prop} {m : ExtTreeMap α β} (h : ∀ (a : α) (v : β), m[a]? = some v → P v)

include h

/-- What holds of all entries, and of the one that is inserted, holds of all entries afterwards. With the next two, this
carries a property of tasks or actors through every change of a table. -/
theorem of_lookup_insert {k a : α} {v v' : β} (hv : P v) (ha : (m.insert k v)[a]? = some v') : P v' := by
  rw [lookup_insert] at ha
  split at ha
  · cases ha
    exact hv
  · exact h a v' ha

theorem of_lookup_erase {k a : α} {v : β} (ha : (m.erase k)[a]? = some v) : P v := by
  rw [lookup_erase] at ha
  split at ha
  · cases ha
  · exact h a v ha

/-- A property of all entries is kept by a change that keeps it, wherever the change is made. -/
theorem of_lookup_modify {k a : α} {change : β → β} {v : β} (hchange : ∀ x, P x → P (change x))
    (ha : (m.modify k change)[a]? = some v) : P v := by
  rw [lookup_modify] at ha
  split at ha
  · obtain ⟨x, hx, rfl⟩ := Option.map_eq_some_iff.mp ha
    exact hchange x (h a x hx)
  · exact h a v ha

end

/-! ## The board -/

namespace Board

variable (b : Board)

/-- Whether a task is on the board is read off its lookup, the only view of a board that proofs use. -/
theorem contains_eq_isSome (id : TaskId) : b.contains id = b[id]?.isSome :=
  ExtTreeMap.contains_eq_isSome_getElem?

theorem getElem?_empty (id : TaskId) : ({} : Board)[id]? = none :=
  ExtTreeMap.getElem?_empty

/-- A task that is put on the board lies there under its own name. -/
theorem getElem?_insert (t : Task) (id : TaskId) : (b.insert t)[id]? = if t.id = id then some t else b[id]? :=
  lookup_insert b.tasks t.id id t

theorem getElem?_erase (id id' : TaskId) : (b.erase id)[id']? = if id = id' then none else b[id']? :=
  lookup_erase b.tasks id id'

/-- A change under a name is one of the task there, and of no other. -/
theorem getElem?_modify (id id' : TaskId) (change : Task → Task) :
    (b.modify id change)[id']? = if id = id' then b[id']?.map change else b[id']? :=
  lookup_modify b.tasks id id' change

/-- A change of a task takes no task off the board. -/
theorem isSome_modify (id id' : TaskId) (change : Task → Task) :
    (b.modify id change)[id']?.isSome = b[id']?.isSome := by
  rw [getElem?_modify]
  split
  · rw [Option.isSome_map]
  · rfl

/-- Every task lies under its own name. -/
def Named (b : Board) : Prop :=
  ∀ (t : TaskId) (task : Task), b[t]? = some task → task.id = t

theorem Named.empty : Named {} := by
  intro t task htask
  rw [getElem?_empty] at htask
  cases htask

variable {b : Board}

/-- To put a task on the board keeps names right, since the board takes the name from the task. -/
theorem Named.insert (h : b.Named) (task : Task) : (b.insert task).Named := by
  intro t task' htask
  rw [getElem?_insert] at htask
  split at htask
  · cases htask
    assumption
  · exact h _ _ htask

theorem Named.erase (h : b.Named) (id : TaskId) : (b.erase id).Named := by
  intro t task htask
  rw [getElem?_erase] at htask
  split at htask
  · cases htask
  · exact h _ _ htask

/-- A change of a task keeps names right if it does not rename the task. No operation does. -/
theorem Named.modify (h : b.Named) (id : TaskId) {change : Task → Task} (hid : ∀ x, (change x).id = x.id) :
    (b.modify id change).Named := by
  intro t task htask
  rw [getElem?_modify] at htask
  split at htask
  · obtain ⟨x, hx, rfl⟩ := Option.map_eq_some_iff.mp htask
    rw [hid]
    exact h _ _ hx
  · exact h _ _ htask

end Board

/-! ### A small board -/

/-- A task with nothing to do. -/
def idleTask (id : TaskId) (priority : Int64) : Task where
  id
  name := "idle"
  priority
  program := { nodes := #[{ parent := none, statement := .leaf .noOp }], root := 0 }
  selected := none

/-- A board with one urgent task, and two that are less urgent. -/
def idleBoard : Board :=
  ((({} : Board).insert (idleTask ⟨1⟩ 5)).insert (idleTask ⟨2⟩ 9)).insert (idleTask ⟨3⟩ 5)

theorem named_idleBoard : idleBoard.Named :=
  ((Board.Named.empty.insert (idleTask ⟨1⟩ 5)).insert (idleTask ⟨2⟩ 9)).insert (idleTask ⟨3⟩ 5)

end TaskScript
