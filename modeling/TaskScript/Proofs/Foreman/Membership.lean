import TaskScript.Proofs.Foreman.Moves

/-!
# `Proofs.Foreman.Membership`: who is in a group, said twice

That a task is scheduled in a group is kept in two places: in the slots of the group's scheduler, and in the
groups of the task on the board. `Foreman.Mirrored` says that the two agree, and `Move.mirrored` that every
move keeps them in agreement. A move may leave a task without a group; which one is the parameter of
`Foreman.HeldBut`.

## Contents
- `Board.InGroup` after each change of a board.
- `Mirrored`, `Mirrored.congr`, `Mirrored.withMembership`.
- `Move.mirrored`: **every move keeps them in agreement**.
- `HeldBut`: every task but one is in a group.
-/

namespace TaskScript

open Std

theorem Task.mem_join {t : Task} {g g' : GroupId} : g' ∈ (t.join g).groups ↔ g = g' ∨ g' ∈ t.groups := by
  rw [join, ExtTreeSet.mem_insert, Std.compare_eq_iff_eq]

theorem Task.mem_leave {t : Task} {g g' : GroupId} : g' ∈ (t.leave g).groups ↔ g ≠ g' ∧ g' ∈ t.groups := by
  rw [leave, ExtTreeSet.mem_erase, Ne, Std.compare_eq_iff_eq]

namespace Board

variable {b : Board}

/-- By the board, a task is scheduled in a group. -/
def InGroup (b : Board) (t : TaskId) (g : GroupId) : Prop :=
  ∃ task, b[t]? = some task ∧ g ∈ task.groups

theorem inGroup_insert {job : Job} (h : b.contains job.id = false) (t : TaskId) (g : GroupId) :
    (b.insert { job with }).InGroup t g ↔ b.InGroup t g := by
  rw [contains_eq_isSome, Option.isSome_eq_false_iff, Option.isNone_iff_eq_none] at h
  rw [InGroup, InGroup, getElem?_insert]
  by_cases ht : job.id = t
  · rw [if_pos ht, ← ht, h]
    constructor
    · rintro ⟨task, htask, hg⟩
      cases htask
      exact absurd hg ExtTreeSet.not_mem_empty
    · rintro ⟨task, htask, -⟩
      cases htask
  · rw [if_neg ht]

/-- A change that keeps the groups keeps every membership. -/
theorem inGroup_modify_of_groups {change : Task → Task} (h : ∀ x, (change x).groups = x.groups)
    (id t : TaskId) (g : GroupId) : (b.modify id change).InGroup t g ↔ b.InGroup t g := by
  rw [InGroup, InGroup, getElem?_modify]
  split
  · constructor
    · rintro ⟨task, htask, hg⟩
      obtain ⟨x, hx, rfl⟩ := Option.map_eq_some_iff.mp htask
      exact ⟨x, hx, h x ▸ hg⟩
    · rintro ⟨x, hx, hg⟩
      exact ⟨change x, by rw [hx]; rfl, (h x).symm ▸ hg⟩
  · exact Iff.rfl

theorem inGroup_join {id : TaskId} (h : b[id]?.isSome) (g : GroupId) (t : TaskId) (g' : GroupId) :
    (b.modify id (·.join g)).InGroup t g' ↔ id = t ∧ g = g' ∨ b.InGroup t g' := by
  obtain ⟨x, hx⟩ := Option.isSome_iff_exists.mp h
  rw [InGroup, InGroup, getElem?_modify]
  by_cases ht : id = t
  · subst ht
    rw [if_pos rfl, hx]
    constructor
    · rintro ⟨task, htask, hg⟩
      cases htask
      exact (Task.mem_join.mp hg).imp (fun hg => ⟨rfl, hg⟩) (fun hg => ⟨x, rfl, hg⟩)
    · intro hor
      refine ⟨x.join g, rfl, Task.mem_join.mpr ?_⟩
      rcases hor with ⟨-, hg⟩ | ⟨task, htask, hg⟩
      · exact .inl hg
      · cases htask
        exact .inr hg
  · rw [if_neg ht]
    constructor
    · exact .inr
    · rintro (⟨heq, -⟩ | hin)
      · exact absurd heq ht
      · exact hin

theorem inGroup_leave (id : TaskId) (g : GroupId) (t : TaskId) (g' : GroupId) :
    (b.modify id (·.leave g)).InGroup t g' ↔ ¬(id = t ∧ g = g') ∧ b.InGroup t g' := by
  rw [InGroup, InGroup, getElem?_modify]
  by_cases ht : id = t
  · subst ht
    rw [if_pos rfl]
    constructor
    · rintro ⟨task, htask, hg⟩
      obtain ⟨x, hx, rfl⟩ := Option.map_eq_some_iff.mp htask
      obtain ⟨hne, hg⟩ := Task.mem_leave.mp hg
      exact ⟨fun heq => hne heq.2, x, hx, hg⟩
    · rintro ⟨hne, x, hx, hg⟩
      refine ⟨x.leave g, by rw [hx]; rfl, Task.mem_leave.mpr ⟨fun heq => hne ⟨rfl, heq⟩, hg⟩⟩
  · rw [if_neg ht]
    exact ⟨fun hin => ⟨fun heq => ht heq.1, hin⟩, fun hin => hin.2⟩

/-- Only a task in no group can go unnoticed. -/
theorem inGroup_erase {id : TaskId} {task : Task} (h : b[id]? = some task) (hempty : task.groups.isEmpty = true)
    (t : TaskId) (g : GroupId) : (b.erase id).InGroup t g ↔ b.InGroup t g := by
  rw [InGroup, InGroup, getElem?_erase]
  by_cases ht : id = t
  · rw [if_pos ht, ← ht, h]
    constructor
    · rintro ⟨x, hx, -⟩
      cases hx
    · rintro ⟨x, hx, hg⟩
      cases hx
      rw [ExtTreeSet.isEmpty_iff.mp hempty] at hg
      exact absurd hg ExtTreeSet.not_mem_empty
  · rw [if_neg ht]

end Board

namespace Foreman

variable {f f' : Foreman}

/-- **The schedulers and the board agree.** -/
structure Mirrored (f : Foreman) : Prop where
  named : f.board.Named
  own : ∀ {g : GroupId} {s : Scheduler}, f.schedulers[g]? = some s → s.group = g
  member_iff : ∀ {g : GroupId} {s : Scheduler},
    f.schedulers[g]? = some s → ∀ t, t ∈ s.taskIds ↔ f.board.InGroup t g
  registered : ∀ {t : TaskId} {g : GroupId}, f.board.InGroup t g → f.schedulers[g]?.isSome
  nodup : ∀ {g : GroupId} {s : Scheduler}, f.schedulers[g]? = some s → s.taskIds.Nodup

theorem Mirrored.congr (h : f.Mirrored) (hschedulers : f'.schedulers = f.schedulers)
    (hnamed : f'.board.Named) (hin : ∀ t g, f'.board.InGroup t g ↔ f.board.InGroup t g) : f'.Mirrored where
  named := hnamed
  own hs := h.own (hschedulers ▸ hs)
  member_iff hs t := (h.member_iff (hschedulers ▸ hs) t).trans (hin t _).symm
  registered ht := hschedulers ▸ h.registered ((hin _ _).mp ht)
  nodup hs := h.nodup (hschedulers ▸ hs)

/-- A change of membership in one group, made in both places. -/
theorem Mirrored.withMembership (h : f.Mirrored) {g : GroupId} {changed : Scheduler × Board}
    (hnamed : changed.2.Named) (hown : changed.1.group = g) (hnodup : changed.1.taskIds.Nodup)
    (hin : ∀ t, t ∈ changed.1.taskIds ↔ changed.2.InGroup t g)
    (hout : ∀ t g', g ≠ g' → (changed.2.InGroup t g' ↔ f.board.InGroup t g')) :
    (f.withMembership g changed).Mirrored := by
  have hlookup : ∀ {g' : GroupId} {s : Scheduler}, (f.withMembership g changed).schedulers[g']? = some s →
      g = g' ∧ changed.1 = s ∨ g ≠ g' ∧ f.schedulers[g']? = some s := by
    intro g' s hs
    rw [Foreman.withMembership, lookup_insert] at hs
    split at hs
    · exact .inl ⟨‹_›, Option.some.inj hs⟩
    · exact .inr ⟨‹_›, hs⟩
  refine ⟨hnamed, ?_, ?_, ?_, ?_⟩
  · intro g' s hs
    rcases hlookup hs with ⟨rfl, rfl⟩ | ⟨-, hs⟩
    · exact hown
    · exact h.own hs
  · intro g' s hs t
    rcases hlookup hs with ⟨rfl, rfl⟩ | ⟨hne, hs⟩
    · exact hin t
    · exact (h.member_iff hs t).trans (hout t g' hne).symm
  · intro t g' ht
    rw [Foreman.withMembership, lookup_insert]
    split
    · rfl
    · exact h.registered ((hout t g' ‹_›).mp ht)
  · intro g' s hs
    rcases hlookup hs with ⟨rfl, rfl⟩ | ⟨-, hs⟩
    · exact hnodup
    · exact h.nodup hs

/-! ## Moves -/

theorem Mirrored.withTask (h : f.Mirrored) {job : Job} (hfresh : f.board.contains job.id = false) :
    (f.withTask job).Mirrored :=
  h.congr rfl (h.named.insert _) (Board.inGroup_insert hfresh)

/-- What an actor does with its task is nothing to the groups. -/
theorem Mirrored.withChange (h : f.Mirrored) {t : TaskId} {change : Task → Task}
    (hboard : f'.board = f.board.modify t change) (hschedulers : f'.schedulers = f.schedulers)
    (hid : ∀ x, (change x).id = x.id) (hgroups : ∀ x, (change x).groups = x.groups) : f'.Mirrored := by
  refine h.congr hschedulers ?_ fun t' g => ?_
  · rw [hboard]
    exact h.named.modify t hid
  · rw [hboard]
    exact Board.inGroup_modify_of_groups hgroups t t' g

theorem Mirrored.giveUp (h : f.Mirrored) (actor : ActorId) (run : Run) : (f.giveUp actor run).Mirrored :=
  h.withChange rfl rfl (fun _ => rfl) (fun _ => rfl)

theorem Mirrored.stopped (h : f.Mirrored) (who : Option ActorId) : (f.stopped who).Mirrored := by
  rcases stopped_cases f who with hwho | ⟨actor, run, -, hwho⟩ <;> rw [hwho]
  · exact h
  · exact h.giveUp actor run

/-- Nothing can be in a group that has no scheduler yet. -/
theorem Mirrored.register (h : f.Mirrored) {g : GroupId} (hnew : f.schedulers.contains g = false) :
    Mirrored { f with schedulers := f.schedulers.insert g { group := g } } := by
  have hnone : f.schedulers[g]? = none := ExtTreeMap.getElem?_eq_none_of_contains_eq_false hnew
  show (f.withMembership g ({ group := g }, f.board)).Mirrored
  refine h.withMembership h.named rfl List.nodup_nil (fun t => ?_) fun _ _ _ => Iff.rfl
  constructor
  · intro hmem
    cases hmem
  · intro hin
    have hsome := h.registered hin
    rw [hnone] at hsome
    cases hsome

theorem Mirrored.schedule (h : f.Mirrored) {g : GroupId} {s : Scheduler} {t : TaskId}
    {changed : Scheduler × Board} (hs : f.schedulers[g]? = some s)
    (hadd : Scheduler.Added s f.board t changed.1 changed.2) : (f.withMembership g changed).Mirrored := by
  have hboard := hadd.board
  rw [h.own hs] at hboard
  refine h.withMembership ?_ (hadd.group.trans (h.own hs)) (hadd.nodup (h.nodup hs)) ?_ ?_
  · rw [hboard]
    exact h.named.modify t fun _ => rfl
  · intro t'
    rw [hboard, Board.inGroup_join hadd.onBoard, hadd.mem_iff, h.member_iff hs]
    simp only [and_true]
  · intro t' g' hne
    rw [hboard, Board.inGroup_join hadd.onBoard]
    simp only [hne, and_false, false_or]

theorem Mirrored.leave (h : f.Mirrored) {g : GroupId} {s : Scheduler} {t : TaskId}
    {changed : Scheduler × Board} (hs : f.schedulers[g]? = some s)
    (hremove : Scheduler.Removed s f.board t changed.1 changed.2) : (f.withMembership g changed).Mirrored := by
  have hboard := hremove.board
  rw [h.own hs] at hboard
  refine h.withMembership ?_ (hremove.group.trans (h.own hs)) (hremove.nodup (h.nodup hs)) ?_ ?_
  · rw [hboard]
    exact h.named.modify t fun _ => rfl
  · intro t'
    rw [hboard, Board.inGroup_leave, hremove.mem_iff (h.nodup hs), h.member_iff hs]
    simp only [and_true, ne_eq]
  · intro t' g' hne
    rw [hboard, Board.inGroup_leave]
    simp only [hne, and_false, not_false_eq_true, true_and]

theorem Mirrored.replace (h : f.Mirrored) {g : GroupId} {s : Scheduler} {t r : TaskId}
    {changed : Scheduler × Board} (hs : f.schedulers[g]? = some s)
    (hreplace : Scheduler.Replaced s f.board t r changed.1 changed.2) :
    (f.withMembership g changed).Mirrored := by
  have hboard := hreplace.board
  have hon : (f.board.modify t (·.leave g))[r]?.isSome := by
    rw [Board.getElem?_modify, if_neg hreplace.ne]
    exact hreplace.onBoard
  rw [h.own hs] at hboard
  refine h.withMembership ?_ (hreplace.group.trans (h.own hs)) (hreplace.nodup (h.nodup hs)) ?_ ?_
  · rw [hboard]
    have hleft : (f.board.modify t (·.leave g)).Named := h.named.modify t fun _ => rfl
    exact hleft.modify r fun _ => rfl
  · intro t'
    rw [hboard, Board.inGroup_join hon, Board.inGroup_leave, hreplace.mem_iff, h.member_iff hs]
    simp only [and_true, ne_eq]
  · intro t' g' hne
    rw [hboard, Board.inGroup_join hon, Board.inGroup_leave]
    simp only [hne, and_false, false_or, not_false_eq_true, true_and]

/-- Recording an event is nothing to the groups. -/
theorem Mirrored.record (h : f.Mirrored) (type : EventType) (task : TaskId) (actor : Option ActorId)
    (details : Option Json) : (f.record type task actor details).Mirrored :=
  h.congr rfl h.named fun _ _ => Iff.rfl

/-- **Every move keeps the schedulers and the board in agreement.** -/
theorem Move.mirrored {notes : List Note} (hmove : Move f notes f') (h : f.Mirrored) : f'.Mirrored := by
  cases hmove with
  | clock => exact h.congr rfl h.named fun _ _ => Iff.rfl
  | register hnew => exact h.register hnew
  | handIn hfresh => exact h.withTask hfresh
  | schedule hs hadd =>
    exact (h.schedule hs (Scheduler.added_of_add hadd)).record _ _ _ _
  | leave hs hremove =>
    exact (h.leave hs (Scheduler.removed_of_remove hremove)).record _ _ _ _
  | @replace g s t job changed f₁ hs hfresh hf₁ hreplace =>
    have hwith : f₁.Mirrored := by
      rw [hf₁]
      refine (h.stopped _).withTask ?_
      rw [contains_stopped, hfresh]
    have hs₁ : f₁.schedulers[g]? = some s := by
      rw [hf₁, Foreman.withTask, schedulers_stopped]
      exact hs
    exact (hwith.replace hs₁ (Scheduler.replaced_of_replace hreplace)).record _ _ _ _
  | drop htask hempty _ => exact h.congr rfl (h.named.erase _) (Board.inGroup_erase htask hempty)
  | assign _ _ hassign _ =>
    obtain ⟨task', -, -, -, hboard⟩ := Scheduler.assigned_of_assign h.named hassign
    exact h.withChange hboard rfl (fun _ => rfl) (fun _ => rfl)
  | print _ => exact h.record _ _ _ _
  | goOn _ => exact h.congr rfl h.named fun _ _ => Iff.rfl
  | giveUp _ _ => exact h.withChange rfl rfl (fun _ => rfl) (fun _ => rfl)
  | finish _ => exact h.withChange rfl rfl (fun _ => rfl) (fun _ => rfl)

/-! ## Tasks in no group -/

/-- **Every task of the board is in a group**, with one exception or none. -/
def HeldBut (f : Foreman) (exception : Option TaskId) : Prop :=
  ∀ t, f.board[t]?.isSome → some t ≠ exception → ∃ g, f.board.InGroup t g

variable {exception : Option TaskId}

theorem HeldBut.congr (h : f.HeldBut exception) (hsome : ∀ t : TaskId, f'.board[t]?.isSome = f.board[t]?.isSome)
    (hin : ∀ t g, f'.board.InGroup t g ↔ f.board.InGroup t g) : f'.HeldBut exception := by
  intro t ht hne
  obtain ⟨g, hg⟩ := h t (hsome t ▸ ht) hne
  exact ⟨g, (hin t g).mpr hg⟩

/-- A change of a task that keeps its groups. -/
theorem HeldBut.withChange (h : f.HeldBut exception) {t : TaskId} {change : Task → Task}
    (hboard : f'.board = f.board.modify t change) (hgroups : ∀ x, (change x).groups = x.groups) :
    f'.HeldBut exception := by
  refine h.congr (fun t' => ?_) fun t' g => ?_
  · rw [hboard, Board.isSome_modify]
  · rw [hboard]
    exact Board.inGroup_modify_of_groups hgroups t t' g

theorem HeldBut.giveUp (h : f.HeldBut exception) (actor : ActorId) (run : Run) :
    (f.giveUp actor run).HeldBut exception :=
  h.withChange rfl fun _ => rfl

theorem HeldBut.stopped (h : f.HeldBut exception) (who : Option ActorId) : (f.stopped who).HeldBut exception := by
  rcases stopped_cases f who with hwho | ⟨actor, run, -, hwho⟩ <;> rw [hwho]
  · exact h
  · exact h.giveUp actor run

/-- A new task is in no group. -/
theorem HeldBut.withTask (h : f.HeldBut none) {job : Job} (hfresh : f.board.contains job.id = false) :
    (f.withTask job).HeldBut (some job.id) := by
  intro t ht hne
  have hin := Board.inGroup_insert hfresh t
  rw [Foreman.withTask, Board.getElem?_insert, if_neg fun heq => hne (congrArg some heq.symm)] at ht
  obtain ⟨g, hg⟩ := h t ht (Option.some_ne_none t)
  exact ⟨g, (hin g).mpr hg⟩

theorem HeldBut.schedule (h : f.HeldBut exception) {g : GroupId} {s : Scheduler} {t : TaskId}
    {changed : Scheduler × Board} (hadd : Scheduler.Added s f.board t changed.1 changed.2)
    (hexception : exception = none ∨ exception = some t) : (f.withMembership g changed).HeldBut none := by
  intro t' ht' _
  rw [Foreman.withMembership, hadd.board, Board.isSome_modify] at ht'
  simp only [Foreman.withMembership, hadd.board, Board.inGroup_join hadd.onBoard]
  by_cases heq : t = t'
  · exact ⟨s.group, .inl ⟨heq, rfl⟩⟩
  · have hne : some t' ≠ exception := by
      rcases hexception with rfl | rfl
      · exact Option.some_ne_none t'
      · exact fun hsome => heq (Option.some.inj hsome).symm
    obtain ⟨g', hg'⟩ := h t' ht' hne
    exact ⟨g', .inr hg'⟩

theorem HeldBut.leave (h : f.HeldBut none) {g : GroupId} {s : Scheduler} {t : TaskId}
    {changed : Scheduler × Board} (hremove : Scheduler.Removed s f.board t changed.1 changed.2) :
    (f.withMembership g changed).HeldBut (some t) := by
  intro t' ht' hne
  rw [Foreman.withMembership, hremove.board, Board.isSome_modify] at ht'
  simp only [Foreman.withMembership, hremove.board, Board.inGroup_leave]
  obtain ⟨g', hg'⟩ := h t' ht' (Option.some_ne_none t')
  exact ⟨g', fun heq => hne (congrArg some heq.1.symm), hg'⟩

/-- The replacement gets the slot, so the exception is passed on to the one that had it. -/
theorem HeldBut.replace {g : GroupId} {s : Scheduler} {t r : TaskId} {changed : Scheduler × Board}
    (h : f.HeldBut (some r)) (hreplace : Scheduler.Replaced s f.board t r changed.1 changed.2) :
    (f.withMembership g changed).HeldBut (some t) := by
  have hon : (f.board.modify t (·.leave s.group))[r]?.isSome := by
    rw [Board.isSome_modify]
    exact hreplace.onBoard
  intro t' ht' hne
  rw [Foreman.withMembership, hreplace.board, Board.isSome_modify, Board.isSome_modify] at ht'
  simp only [Foreman.withMembership, hreplace.board, Board.inGroup_join hon, Board.inGroup_leave]
  by_cases heq : r = t'
  · exact ⟨s.group, .inl ⟨heq, rfl⟩⟩
  · obtain ⟨g', hg'⟩ := h t' ht' fun hsome => heq (Option.some.inj hsome).symm
    exact ⟨g', .inr ⟨fun hboth => hne (congrArg some hboth.1.symm), hg'⟩⟩

/-- A task that still has groups is no exception. -/
theorem HeldBut.keep {t : TaskId} (h : f.HeldBut (some t))
    (hgroups : ∀ task, f.board[t]? = some task → task.groups.isEmpty = false) : f.HeldBut none := by
  intro t' ht' _
  by_cases heq : t = t'
  · subst heq
    obtain ⟨task, htask⟩ := Option.isSome_iff_exists.mp ht'
    have hne := ExtTreeSet.isEmpty_eq_false_iff.mp (hgroups task htask)
    rw [ExtTreeSet.eq_empty_iff_forall_not_mem, Classical.not_forall] at hne
    obtain ⟨g, hg⟩ := hne
    exact ⟨g, task, htask, Classical.not_not.mp hg⟩
  · exact h t' ht' fun hsome => heq (Option.some.inj hsome).symm

/-- The exception is dropped. -/
theorem HeldBut.drop {t : TaskId} {task : Task} (h : f.HeldBut (some t)) (htask : f.board[t]? = some task)
    (hempty : task.groups.isEmpty = true) : HeldBut { f with board := f.board.erase t } none := by
  intro t' ht' _
  have hin := Board.inGroup_erase htask hempty t'
  rw [Board.getElem?_erase] at ht'
  split at ht'
  · cases ht'
  · obtain ⟨g, hg⟩ := h t' ht' fun hsome => ‹t ≠ t'› (Option.some.inj hsome).symm
    exact ⟨g, (hin g).mpr hg⟩

end Foreman

end TaskScript
