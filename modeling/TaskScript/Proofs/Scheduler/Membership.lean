import TaskScript.Proofs.Task.Lookup
import TaskScript.Scheduler

/-!
# `Proofs.Scheduler.Membership`: what a change of membership does

A scheduler is seen through the list of its members, `Scheduler.taskIds`. Each of the three changes of
membership has a structure that tells all that an accepted one does to the members and to the board, and a
lemma that tells why it is refused.

## Contents
- `insertEntry_perm`: a new slot leaves the others as they were.
- `Added`, `Removed`, `Replaced`: **accepted changes**.
- `add_error`, `remove_error`, `replace_error`: refused ones.
- `openTasks_eq`, `mem_openTasks_iff`: what there is to do.
- `assigned_of_assign`: who is given away.
-/

namespace TaskScript.Scheduler

variable {s s' : Scheduler} {b b' : Board} {t : TaskId}

/-- Members are looked for slot by slot; the list of names is what the slots hold. -/
theorem contains_iff : s.contains t = true ↔ t ∈ s.taskIds := by
  rw [contains, taskIds, List.any_eq_true, List.mem_map]
  simp only [beq_iff_eq]

theorem contains_eq_false_iff : s.contains t = false ↔ t ∉ s.taskIds := by
  rw [← contains_iff, Bool.not_eq_true]

/-- Putting a slot in leaves the others as they were. -/
theorem insertEntry_perm (entry : Entry) (entries : List Entry) :
    (insertEntry entry entries).Perm (entry :: entries) := by
  induction entries with
  | nil => exact List.Perm.refl _
  | cons e rest ih =>
    unfold insertEntry
    split
    · exact List.Perm.refl _
    · exact (ih.cons e).trans (List.Perm.swap ..)

/-! ## Adding a member -/

/-- What an accepted addition does. -/
structure Added (s : Scheduler) (b : Board) (t : TaskId) (s' : Scheduler) (b' : Board) : Prop where
  fresh : t ∉ s.taskIds
  onBoard : b[t]?.isSome
  group : s'.group = s.group
  members : s'.taskIds.Perm (t :: s.taskIds)
  board : b' = b.modify t (·.join s.group)

/-- An addition that is accepted was no member and is on the board, where the group is noted for it. -/
theorem added_of_add (h : s.add b t = .ok (s', b')) : Added s b t s' b' := by
  unfold add at h
  split at h
  · cases h
  · rename_i hmem
    split at h
    · cases h
    · rename_i task htask
      cases h
      refine ⟨fun hmem' => hmem (contains_iff.mpr hmem'), by rw [htask]; rfl, rfl, ?_, rfl⟩
      exact (insertEntry_perm _ _).map _

/-- Nobody else comes or goes. -/
theorem Added.mem_iff (h : Added s b t s' b') (x : TaskId) : x ∈ s'.taskIds ↔ t = x ∨ x ∈ s.taskIds := by
  rw [h.members.mem_iff, List.mem_cons, eq_comm]

theorem Added.nodup (h : Added s b t s' b') (hnodup : s.taskIds.Nodup) : s'.taskIds.Nodup :=
  h.members.nodup_iff.mpr (List.nodup_cons.mpr ⟨h.fresh, hnodup⟩)

/-- An addition is refused to members, and to what is not on the board. -/
theorem add_error {e : SchedulingError} (h : s.add b t = .error e) : t ∈ s.taskIds ∨ b[t]? = none := by
  unfold add at h
  split at h
  · exact .inl (contains_iff.mp ‹_›)
  · split at h
    · exact .inr ‹_›
    · cases h

/-! ## Removing a member -/

/-- What an accepted removal does. -/
structure Removed (s : Scheduler) (b : Board) (t : TaskId) (s' : Scheduler) (b' : Board) : Prop where
  member : t ∈ s.taskIds
  group : s'.group = s.group
  members : s'.taskIds = s.taskIds.erase t
  board : b' = b.modify t (·.leave s.group)

/-- A removal that is accepted takes a member's slot away, and the note of the group off the board. -/
theorem removed_of_remove (h : s.remove b t = .ok (s', b')) : Removed s b t s' b' := by
  unfold remove at h
  split at h
  · rename_i hmem
    cases h
    refine ⟨contains_iff.mp hmem, rfl, ?_, rfl⟩
    rw [taskIds, taskIds, List.erase_eq_eraseP', List.eraseP_map]
    rfl
  · cases h

/-- One slot is taken away, which is all that a member has if no task is listed twice. -/
theorem Removed.mem_iff (h : Removed s b t s' b') (hnodup : s.taskIds.Nodup) (x : TaskId) :
    x ∈ s'.taskIds ↔ t ≠ x ∧ x ∈ s.taskIds := by
  rw [h.members, hnodup.mem_erase_iff, ne_comm]

theorem Removed.nodup (h : Removed s b t s' b') (hnodup : s.taskIds.Nodup) : s'.taskIds.Nodup := by
  rw [h.members]
  exact hnodup.erase t

/-- A removal is refused to those that are not members. -/
theorem remove_error {e : SchedulingError} (h : s.remove b t = .error e) : t ∉ s.taskIds := by
  unfold remove at h
  split at h
  · cases h
  · rename_i hmem
    exact fun hmem' => hmem (contains_iff.mpr hmem')

/-! ## Replacing a member -/

/-- What an accepted replacement does. -/
structure Replaced (s : Scheduler) (b : Board) (t r : TaskId) (s' : Scheduler) (b' : Board) : Prop where
  member : t ∈ s.taskIds
  fresh : r ∉ s.taskIds
  onBoard : b[r]?.isSome
  group : s'.group = s.group
  members : s'.taskIds = s.taskIds.map fun x => if x = t then r else x
  board : b' = (b.modify t (·.leave s.group)).modify r (·.join s.group)

/-- A replacement that is accepted puts another task into the slot of a member, with the slot where it was. -/
theorem replaced_of_replace {r : TaskId} (h : s.replace b t r = .ok (s', b')) : Replaced s b t r s' b' := by
  unfold replace at h
  split at h
  · cases h
  · rename_i hmem
    split at h
    · cases h
    · rename_i hfresh
      split at h
      · cases h
      · rename_i hboard
        cases h
        refine ⟨?_, fun hr => hfresh (contains_iff.mpr hr), ?_, rfl, ?_, rfl⟩
        · exact contains_iff.mp (by simpa using hmem)
        · rw [← Board.contains_eq_isSome]
          simpa using hboard
        · rw [taskIds, taskIds, List.map_map, List.map_map]
          refine List.map_congr_left fun e _ => ?_
          dsimp only [Function.comp]
          split <;> rfl

theorem Replaced.ne {r : TaskId} (h : Replaced s b t r s' b') : t ≠ r := by
  rintro rfl
  exact h.fresh h.member

theorem Replaced.mem_iff {r : TaskId} (h : Replaced s b t r s' b') (x : TaskId) :
    x ∈ s'.taskIds ↔ r = x ∨ t ≠ x ∧ x ∈ s.taskIds := by
  rw [h.members, List.mem_map]
  constructor
  · rintro ⟨y, hy, rfl⟩
    by_cases hyt : y = t
    · exact .inl (if_pos hyt).symm
    · rw [if_neg hyt]
      exact .inr ⟨fun heq => hyt heq.symm, hy⟩
  · rintro (rfl | ⟨hne, hx⟩)
    · exact ⟨t, h.member, if_pos rfl⟩
    · exact ⟨x, hx, if_neg hne.symm⟩

theorem Replaced.nodup {r : TaskId} (h : Replaced s b t r s' b') (hnodup : s.taskIds.Nodup) :
    s'.taskIds.Nodup := by
  rw [h.members, List.Nodup, List.pairwise_map]
  refine hnodup.imp_of_mem fun {x y} hx hy hxy => ?_
  -- the new member is none of the old ones, so no two slots are given the same name
  have hxr : x ≠ r := fun heq => h.fresh (heq ▸ hx)
  have hyr : y ≠ r := fun heq => h.fresh (heq ▸ hy)
  split <;> split
  · exact absurd (‹x = t›.trans ‹y = t›.symm) hxy
  · exact hyr.symm
  · exact hxr
  · exact hxy

/-- A replacement is refused to those that are not members, by those that are, and by what is not on the
board. -/
theorem replace_error {r : TaskId} {e : SchedulingError} (h : s.replace b t r = .error e) :
    t ∉ s.taskIds ∨ r ∈ s.taskIds ∨ b[r]? = none := by
  unfold replace at h
  split at h
  · rename_i hmem
    exact .inl (contains_eq_false_iff.mp (by simpa using hmem))
  · split at h
    · exact .inr (.inl (contains_iff.mp ‹_›))
    · split at h
      · rename_i hboard
        refine .inr (.inr (Option.not_isSome_iff_eq_none.mp ?_))
        rw [← Board.contains_eq_isSome]
        simpa using hboard
      · cases h

/-! ## What there is to do -/

/-- What there is to do is found by going through the members. -/
theorem openTasks_eq (s : Scheduler) (b : Board) :
    s.openTasks b = (s.taskIds.filterMap fun t => b[t]?).filter (·.status != .completed) := by
  rw [openTasks, taskIds, List.filterMap_map]
  rfl

/-- What there is to do for a group is what its members are, but for those that are completed. -/
theorem mem_openTasks_iff (hnamed : b.Named) {task : Task} :
    task ∈ s.openTasks b ↔ task.id ∈ s.taskIds ∧ b[task.id]? = some task ∧ task.status ≠ .completed := by
  rw [openTasks_eq, List.mem_filter, List.mem_filterMap, bne_iff_ne]
  constructor
  · rintro ⟨⟨t, hmember, htask⟩, hopen⟩
    rw [hnamed t task htask]
    exact ⟨hmember, htask, hopen⟩
  · rintro ⟨hmember, htask, hopen⟩
    exact ⟨⟨task.id, hmember, htask⟩, hopen⟩

theorem nodup_openTasks (hnodup : s.taskIds.Nodup) (hnamed : b.Named) : (s.openTasks b).Nodup := by
  rw [openTasks_eq]
  apply List.Pairwise.filter
  rw [List.pairwise_filterMap]
  apply hnodup.imp
  rintro x y hne t ht u hu rfl
  exact hne ((hnamed x t ht).symm.trans (hnamed y t hu))

/-! ## Giving a member away -/

/-- Only a member that nobody has is given away. -/
theorem assigned_of_assign (hnamed : b.Named) {actor : ActorId} {eligible : Task → Bool}
    (h : s.assign b actor eligible = some (t, b')) :
    ∃ task, b[t]? = some task ∧ task.status = .unassigned ∧ t ∈ s.taskIds ∧
      b' = b.modify t (·.assignTo actor) := by
  unfold assign at h
  split at h
  · cases h
  · rename_i task hfind
    cases h
    have hopen := List.mem_of_find?_eq_some hfind
    have hfree := List.find?_some hfind
    obtain ⟨e, he, htask⟩ := List.mem_filterMap.mp (List.mem_filter.mp hopen).1
    have hid : task.id = e.task := hnamed _ _ htask
    rw [Bool.and_eq_true, beq_iff_eq] at hfree
    rw [hid]
    exact ⟨task, htask, hfree.1, List.mem_map_of_mem he, rfl⟩

end TaskScript.Scheduler
