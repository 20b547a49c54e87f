import TaskScript.Proofs.Scheduler.Membership

/-!
# `Proofs.Scheduler.Assignment`: no task is given away twice

A scheduler gives away the first of its members that waits for someone like the actor that asks
(`assigned_of_assign_eq_some`). A task that has been given away waits for nobody any more, and that is seen by every
scheduler, since there is one board for all of them. So in a row of requests, to whichever schedulers, every task is
given away once at most (`handsOut_handOut`).

## Contents
- `Board.Awaits`, `assign_eq`, `assign_eq_none_iff`: **the first member that waits**.
- `Assigned`, `assigned_of_assign_eq_some`: what giving a task away does.
- `AssignmentCall`, `handOut`, `handsOut_handOut`: **rows of requests**.
- `assigned_first_and_once`: **assignment is correct and exclusive**.
-/

namespace TaskScript

/-! ## The first member that waits -/

/-- Whether a task waits for an actor: it is on the board, nobody has it, and the actor may have it. -/
def Board.awaits (b : Board) (eligible : Task → Bool) (t : TaskId) : Bool :=
  b[t]?.any fun task => task.status == .unassigned && eligible task

theorem Board.awaits_iff {b : Board} {eligible : Task → Bool} {t : TaskId} :
    b.awaits eligible t = true ↔
      ∃ task, b[t]? = some task ∧ task.status = .unassigned ∧ eligible task = true := by
  unfold awaits
  simp only [Option.any_eq_true, Bool.and_eq_true, beq_iff_eq]

namespace Scheduler

variable {s : Scheduler} {b b' : Board} {t : TaskId} {actor : ActorId} {eligible : Task → Bool}

/-- What is given away is the first member that waits: a completed task waits for nobody. -/
theorem find?_openTasks (s : Scheduler) (b : Board) (eligible : Task → Bool) :
    (s.openTasks b).find? (fun t => t.status == .unassigned && eligible t) =
      (s.taskIds.find? (b.awaits eligible)).bind fun t => b[t]? := by
  rw [openTasks_eq, List.find?_filter, List.find?_filterMap]
  congr 2
  funext t
  unfold Board.awaits
  congr 1
  funext task
  by_cases hfree : task.status = .unassigned
  · simp [hfree]
  · simp [hfree]

theorem assign_eq (hnamed : b.Named) (s : Scheduler) (actor : ActorId) (eligible : Task → Bool) :
    s.assign b actor eligible =
      (s.taskIds.find? (b.awaits eligible)).map fun t => (t, b.modify t (·.assignTo actor)) := by
  unfold assign
  rw [find?_openTasks]
  cases hfind : s.taskIds.find? (b.awaits eligible) with
  | none => rfl
  | some t =>
    obtain ⟨task, htask, -⟩ := Board.awaits_iff.mp (List.find?_some hfind)
    simp only [Option.bind_some, htask, Option.map_some, hnamed t task htask]

/-- Nothing is given away exactly if no member waits. -/
theorem assign_eq_none_iff (hnamed : b.Named) :
    s.assign b actor eligible = none ↔ ∀ t ∈ s.taskIds, ¬b.awaits eligible t = true := by
  rw [assign_eq hnamed, Option.map_eq_none_iff, List.find?_eq_none]

/-- **What giving a task away does.** It is the first member that waits, its status says who has it, and nothing else
on the board is changed. -/
structure Assigned (s : Scheduler) (b : Board) (actor : ActorId) (eligible : Task → Bool) (t : TaskId) (b' : Board) :
    Prop where
  first : ∃ ahead behind, s.taskIds = ahead ++ t :: behind ∧ ∀ u ∈ ahead, ¬b.awaits eligible u = true
  awaits : b.awaits eligible t = true
  status : b'[t]? = b[t]?.map fun task => { task with status := .assignedTo actor }
  others : ∀ u, u ≠ t → b'[u]? = b[u]?

theorem assigned_of_assign_eq_some (hnamed : b.Named) (h : s.assign b actor eligible = some (t, b')) :
    s.Assigned b actor eligible t b' := by
  rw [assign_eq hnamed, Option.map_eq_some_iff] at h
  obtain ⟨t', hfind, hresult⟩ := h
  cases hresult
  obtain ⟨hawaits, ahead, behind, hmembers, hahead⟩ := List.find?_eq_some_iff_append.mp hfind
  constructor
  · refine ⟨ahead, behind, hmembers, ?_⟩
    intro u hu
    rw [Bool.not_eq_true, ← Bool.not_eq_true']
    exact hahead u hu
  · exact hawaits
  · rw [Board.getElem?_modify, if_pos rfl]
    rfl
  · intro u hne
    rw [Board.getElem?_modify, if_neg hne.symm]

end Scheduler

/-! ## Rows of requests -/

/-- A request for a task: which scheduler is asked, for whom, and what the actor may have. -/
structure AssignmentCall where
  scheduler : Scheduler
  actor : ActorId
  eligible : Task → Bool

/-- What is given away to whom by a row of requests, and the board that they leave. -/
def handOut : List AssignmentCall → Board → List (TaskId × ActorId) × Board
  | [], b => ([], b)
  | call :: rest, b =>
    match call.scheduler.assign b call.actor call.eligible with
    | none => handOut rest b
    | some (t, b') =>
      let (given, b'') := handOut rest b'
      ((t, call.actor) :: given, b'')

/-- **What is given away between two boards**: no task twice, each to the one that has it in the end, and nothing else
is changed. -/
structure Board.HandsOut (b : Board) (given : List (TaskId × ActorId)) (b' : Board) : Prop where
  once : (given.map (·.1)).Nodup
  free : ∀ t actor, (t, actor) ∈ given → ∃ task, b[t]? = some task ∧ task.status = .unassigned ∧
    b'[t]? = some { task with status := .assignedTo actor }
  others : ∀ t, t ∉ given.map (·.1) → b'[t]? = b[t]?

namespace Board.HandsOut

variable {b b' b'' : Board} {given : List (TaskId × ActorId)}

theorem refl (b : Board) : b.HandsOut [] b := by
  refine ⟨List.nodup_nil, ?_, fun _ _ => rfl⟩
  intro t actor hmem
  cases hmem

/-- **One request, and then all others**: what was given away first is not free any more. -/
theorem cons {s : Scheduler} {actor : ActorId} {eligible : Task → Bool} {t : TaskId}
    (hfirst : s.Assigned b actor eligible t b') (hrest : b'.HandsOut given b'') :
    b.HandsOut ((t, actor) :: given) b'' := by
  obtain ⟨task, htask, hfree, -⟩ := awaits_iff.mp hfirst.awaits
  have htaken : b'[t]? = some { task with status := .assignedTo actor } := by
    rw [hfirst.status, htask]
    rfl
  -- the later requests find it taken, and they only give away what is free
  have hnew : t ∉ given.map (·.1) := by
    intro hmem
    obtain ⟨⟨u, actor'⟩, hgiven, rfl⟩ := List.mem_map.mp hmem
    obtain ⟨task', htask', hfree', -⟩ := hrest.free u actor' hgiven
    rw [htaken] at htask'
    cases htask'
    cases hfree'
  constructor
  · rw [List.map_cons, List.nodup_cons]
    exact ⟨hnew, hrest.once⟩
  · intro u actor' hmem
    rcases List.mem_cons.mp hmem with heq | hgiven
    · cases heq
      exact ⟨task, htask, hfree, (hrest.others t hnew).trans htaken⟩
    · have hne : u ≠ t := by
        rintro rfl
        exact hnew (List.mem_map_of_mem hgiven)
      obtain ⟨task', htask', hrest'⟩ := hrest.free u actor' hgiven
      rw [hfirst.others u hne] at htask'
      exact ⟨task', htask', hrest'⟩
  · intro u hu
    rw [List.map_cons, List.mem_cons, not_or] at hu
    exact (hrest.others u hu.2).trans (hfirst.others u hu.1)

end Board.HandsOut

/-- **A row of requests** gives no task away twice. -/
theorem handsOut_handOut (calls : List AssignmentCall) {b : Board} (hnamed : b.Named) :
    b.HandsOut (handOut calls b).1 (handOut calls b).2 := by
  induction calls generalizing b with
  | nil => exact .refl b
  | cons call rest ih =>
    unfold handOut
    split
    · exact ih hnamed
    · rename_i t b' hassign
      have hassigned := Scheduler.assigned_of_assign_eq_some hnamed hassign
      have hnamed' : b'.Named := by
        obtain ⟨-, -, -, -, rfl⟩ := Scheduler.assigned_of_assign hnamed hassign
        exact hnamed.modify t fun _ => rfl
      exact .cons hassigned (ih hnamed')

/-- **Assignment is correct and exclusive.** What a scheduler gives away is the first of its members that is on the
board, is nobody's and is eligible. Only the status of that task is changed, and if there is none, nothing is given
away. In any row of requests, by any actors and to any schedulers of one board, no task is given away twice: each was
nobody's before, and belongs in the end to the one that it was given to. -/
theorem assigned_first_and_once {b : Board} (hnamed : b.Named) :
    (∀ (s : Scheduler) (actor : ActorId) (eligible : Task → Bool),
      (s.assign b actor eligible = none ↔ ∀ t ∈ s.taskIds, ¬b.awaits eligible t = true) ∧
      ∀ t b', s.assign b actor eligible = some (t, b') → s.Assigned b actor eligible t b') ∧
    ∀ calls : List AssignmentCall, b.HandsOut (handOut calls b).1 (handOut calls b).2 := by
  constructor
  · intro s actor eligible
    exact ⟨Scheduler.assign_eq_none_iff hnamed, fun t b' => Scheduler.assigned_of_assign_eq_some hnamed⟩
  · intro calls
    exact handsOut_handOut calls hnamed

/-- Two schedulers share the urgent task. The second one also lists a task that is not on the board. Each is asked
twice, in turn. -/
def idleCalls : List AssignmentCall :=
  let first : Scheduler := { group := ⟨1⟩, entries := [⟨⟨2⟩, 9, 0⟩, ⟨⟨1⟩, 5, 1⟩] }
  let second : Scheduler := { group := ⟨2⟩, entries := [⟨⟨2⟩, 9, 0⟩, ⟨⟨4⟩, 7, 1⟩, ⟨⟨3⟩, 5, 2⟩] }
  [⟨first, ⟨1⟩, fun _ => true⟩, ⟨second, ⟨2⟩, fun _ => true⟩, ⟨first, ⟨3⟩, fun _ => true⟩, ⟨second, ⟨4⟩, fun _ => true⟩]

/-- Three of the four get a task, and no two the same. -/
theorem idle_tasks_handed_out_once :
    idleBoard.Named ∧ (handOut idleCalls idleBoard).1 = [(⟨2⟩, ⟨1⟩), (⟨3⟩, ⟨2⟩), (⟨1⟩, ⟨3⟩)] ∧
      idleBoard.HandsOut [(⟨2⟩, ⟨1⟩), (⟨3⟩, ⟨2⟩), (⟨1⟩, ⟨3⟩)] (handOut idleCalls idleBoard).2 := by
  have hgiven : (handOut idleCalls idleBoard).1 = [(⟨2⟩, ⟨1⟩), (⟨3⟩, ⟨2⟩), (⟨1⟩, ⟨3⟩)] := by decide +kernel
  obtain ⟨-, hcalls⟩ := assigned_first_and_once named_idleBoard
  have hidle := hcalls idleCalls
  rw [hgiven] at hidle
  exact ⟨named_idleBoard, hgiven, hidle⟩

end TaskScript
