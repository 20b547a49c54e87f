import TaskScript.Proofs.Foreman.Operations

/-!
# `Proofs.Foreman.Reachable`: what holds of every foreman

A foreman starts with nothing and is changed by operations only, in any order and with any arguments, and its
events may be collected in between. What every move preserves holds of every foreman that can be reached in
this way.

## Contents
- `Operation`, `perform`, `performs`: every operation is a row of moves.
- `Reachable`: every foreman there can be.
- `currentTask?_iff_assigned`: **a task is done by the actor that has it**.
- `schedulers_mirror_board`: **schedulers and the board agree**.
-/

namespace TaskScript.Foreman

open Std

variable {f f' : Foreman}

/-- A call of the foreman, apart from collecting events. -/
inductive Operation where
  | beginTick (tick : UInt64)
  | registerGroup (group : GroupId)
  | addTask (group : GroupId) (job : Job)
  | scheduleExisting (group : GroupId) (task : TaskId)
  | removeTask (group : GroupId) (task : TaskId)
  | replaceTask (group : GroupId) (member : TaskId) (replacement : Job)
  | assignIdle (actor : ActorId) (group : GroupId)
  | runActor (around : Surroundings) (actor : ActorId) (dt : Float)
  | settleActor (around : Surroundings) (actor : ActorId)
  | interrupt (actor : ActorId)

/-- The foreman after an operation, whatever its answer. -/
def perform (f : Foreman) : Operation → Except Overflow Foreman
  | .beginTick tick => .ok (f.beginTick tick)
  | .registerGroup group => .ok (f.registerGroup group).1
  | .addTask group job => .ok (f.addTask group job).1
  | .scheduleExisting group task => .ok (f.scheduleExisting group task).1
  | .removeTask group task => .ok (f.removeTask group task).1
  | .replaceTask group member replacement => .ok (f.replaceTask group member replacement).1
  | .assignIdle actor group => .ok (f.assignIdle actor group).1
  | .runActor around actor dt => (f.runActor around actor dt).map (·.foreman)
  | .settleActor around actor => (f.settleActor around actor).map (·.foreman)
  | .interrupt actor => .ok (f.interrupt actor).1

/-- The jobs that an operation takes in. -/
def accepted (f : Foreman) : Operation → List Job
  | .addTask group job => acceptedIf job (f.addTask group job).2
  | .replaceTask group member replacement => acceptedIf replacement (f.replaceTask group member replacement).2
  | _ => []

theorem performs_registerGroup (hheld : f.HeldBut none) (g : GroupId) :
    Performs f [] (f.registerGroup g).1 := by
  unfold registerGroup
  split
  · exact performs_self hheld
  · rename_i hnew
    exact ⟨[], .single (.register (Bool.not_eq_true _ |>.mp hnew)), hheld⟩

theorem performs_turn (hheld : f.HeldBut none) {around : Surroundings} {actor : ActorId} {dt : Float}
    (hop : (f.runActor around actor dt).map (·.foreman) = .ok f') : Performs f [] f' := by
  cases hshift : f.runActor around actor dt with
  | error o =>
    rw [hshift] at hop
    cases hop
  | ok shift =>
    rw [hshift] at hop
    cases hop
    exact performs_runActor hheld hshift

/-- **Every operation is a row of moves**, and leaves every task in a group. -/
theorem performs (h : f.Sound) (hheld : f.HeldBut none) {op : Operation} (hop : f.perform op = .ok f') :
    Performs f (f.accepted op) f' := by
  cases op with
  | beginTick tick =>
    cases hop
    exact ⟨[], .single .clock, hheld⟩
  | registerGroup g =>
    cases hop
    exact performs_registerGroup hheld g
  | addTask g job =>
    cases hop
    exact performs_addTask h hheld g job
  | scheduleExisting g t =>
    cases hop
    exact performs_scheduleExisting hheld g t
  | removeTask g t =>
    cases hop
    exact performs_removeTask h hheld g t
  | replaceTask g t job =>
    cases hop
    exact performs_replaceTask h hheld g t job
  | assignIdle actor g =>
    cases hop
    exact performs_assignIdle h hheld actor g
  | runActor around actor dt => exact performs_turn hheld hop
  | settleActor around actor => exact performs_turn hheld hop
  | interrupt actor =>
    cases hop
    exact performs_interrupt hheld actor

/-- **The foremen that there can be**: a new one, one after an operation, and one whose events were
collected. -/
inductive Reachable (maxSteps : UInt32) : Foreman → Prop
  | new : Reachable maxSteps { maxSteps }
  | perform {f f' : Foreman} (op : Operation) :
      Reachable maxSteps f → f.perform op = .ok f' → Reachable maxSteps f'
  | drain {f : Foreman} : Reachable maxSteps f → Reachable maxSteps f.drainEvents.1

variable {maxSteps : UInt32}

theorem board_new (t : TaskId) : ({ maxSteps } : Foreman).board[t]? = none :=
  ExtTreeMap.getElem?_empty

theorem schedulers_new (g : GroupId) : ({ maxSteps } : Foreman).schedulers[g]? = none :=
  ExtTreeMap.getElem?_empty

theorem currentTask?_new (actor : ActorId) : ({ maxSteps } : Foreman).currentTask? actor = none := by
  rw [currentTask?, show ({ maxSteps } : Foreman).running[actor]? = none from ExtTreeMap.getElem?_empty]
  rfl

/-- A new foreman has nothing to disagree about. -/
theorem sound_new : Sound { maxSteps } where
  mirrored := {
    named := fun t task htask => by
      rw [board_new] at htask
      cases htask
    own := fun hs => by
      rw [schedulers_new] at hs
      cases hs
    member_iff := fun hs => by
      rw [schedulers_new] at hs
      cases hs
    registered := fun ⟨task, htask, _⟩ => by
      rw [board_new] at htask
      cases htask
    nodup := fun hs => by
      rw [schedulers_new] at hs
      cases hs }
  owned actor t := by
    rw [currentTask?_new, Board.assignee?, board_new]
    constructor <;> intro hnone <;> cases hnone

theorem heldBut_new : HeldBut { maxSteps } none := by
  intro t ht
  rw [board_new] at ht
  cases ht

/-- What every move preserves holds of every foreman that there can be, and between operations no task is
without a group. -/
theorem Reachable.sound_held (h : Reachable maxSteps f) : f.Sound ∧ f.HeldBut none := by
  induction h with
  | new => exact ⟨sound_new, heldBut_new⟩
  | perform op _ hop ih =>
    obtain ⟨events, hmoves, hheld⟩ := performs ih.1 ih.2 hop
    exact ⟨hmoves.sound ih.1, hheld⟩
  | @drain f _ ih =>
    -- nothing that is said of a foreman is about its events
    obtain ⟨⟨hmirrored, howned⟩, hheld⟩ := ih
    have hmirrored' : f.drainEvents.1.Mirrored := hmirrored.congr rfl hmirrored.named fun _ _ => Iff.rfl
    exact ⟨⟨hmirrored', howned⟩, hheld⟩

/-! ## What holds of every foreman -/

/-- **A task is done by the actor that has it**: an actor is doing a task exactly if the task is on the board
and assigned to that actor, so no two actors are doing one task. -/
theorem currentTask?_iff_assigned (h : Reachable maxSteps f) :
    (∀ (actor : ActorId) (t : TaskId), f.currentTask? actor = some t ↔
        ∃ task, f.board[t]? = some task ∧ task.status = .assignedTo actor) ∧
      ∀ (actor actor' : ActorId) (t : TaskId),
        f.currentTask? actor = some t → f.currentTask? actor' = some t → actor = actor' := by
  have howned := h.sound_held.1.owned
  constructor
  · -- by the board, a task has an assignee exactly if it is assigned
    intro actor t
    rw [howned actor t]
    constructor
    · intro hassignee
      obtain ⟨task, htask, hstatus⟩ := Option.bind_eq_some_iff.mp hassignee
      refine ⟨task, htask, ?_⟩
      cases hcase : task.status with
      | assignedTo actor' =>
        rw [hcase] at hstatus
        cases hstatus
        rfl
      | unassigned =>
        rw [hcase] at hstatus
        cases hstatus
      | completed =>
        rw [hcase] at hstatus
        cases hstatus
    · rintro ⟨task, htask, hstatus⟩
      rw [Board.assignee?, htask, Option.bind_some, hstatus]
      rfl
  · intro actor actor' t hactor hactor'
    have hboth := (howned actor t).mp hactor
    exact Option.some.inj (hboth.symm.trans ((howned actor' t).mp hactor'))

/-- A job that takes no time. -/
def dig : Job where
  id := ⟨1⟩
  name := "dig"
  priority := 0
  program := ⟨#[⟨none, .leaf .noOp⟩], 0⟩
  selected := none

/-- Two groups share a task, and an actor of the first one is doing it. -/
def sharedDig : Foreman :=
  let f : Foreman := (registerGroup { maxSteps := 8 } ⟨1⟩).1
  let f := (f.registerGroup ⟨2⟩).1
  let f := (f.addTask ⟨1⟩ dig).1
  let f := (f.scheduleExisting ⟨2⟩ ⟨1⟩).1
  let f := (f.assignIdle ⟨7⟩ ⟨1⟩).1
  (f.assignIdle ⟨8⟩ ⟨2⟩).1

theorem reachable_sharedDig : Reachable 8 sharedDig := by
  have hnew : Reachable 8 { maxSteps := 8 } := .new
  have hgroups := (hnew.perform (.registerGroup ⟨1⟩) rfl).perform (.registerGroup ⟨2⟩) rfl
  have hshared := (hgroups.perform (.addTask ⟨1⟩ dig) rfl).perform (.scheduleExisting ⟨2⟩ ⟨1⟩) rfl
  exact (hshared.perform (.assignIdle ⟨7⟩ ⟨1⟩) rfl).perform (.assignIdle ⟨8⟩ ⟨2⟩) rfl

theorem sharedDig_has_one_performer :
    Reachable 8 sharedDig ∧ sharedDig.currentTask? ⟨7⟩ = some ⟨1⟩ ∧ sharedDig.currentTask? ⟨8⟩ = none ∧
      ∃ task, sharedDig.board[(⟨1⟩ : TaskId)]? = some task ∧ task.status = .assignedTo ⟨7⟩ := by
  have hdigs : sharedDig.currentTask? ⟨7⟩ = some ⟨1⟩ := by decide
  have hidle : sharedDig.currentTask? ⟨8⟩ = none := by decide
  exact ⟨reachable_sharedDig, hdigs, hidle, ((currentTask?_iff_assigned reachable_sharedDig).1 _ _).mp hdigs⟩

/-- **Schedulers and the board agree.** The members of a registered group are the tasks of the board that
name the group among theirs; every group that a task names is registered; every task of the board is a member
of some group; and no scheduler has a task twice. -/
theorem schedulers_mirror_board (h : Reachable maxSteps f) :
    (∀ (g : GroupId) (s : Scheduler), f.schedulers[g]? = some s →
        ∀ t, s.contains t = true ↔ ∃ task, f.board[t]? = some task ∧ g ∈ task.groups) ∧
      (∀ (t : TaskId) (task : Task), f.board[t]? = some task →
        ∀ g ∈ task.groups, f.schedulers.contains g = true) ∧
      (∀ (t : TaskId) (task : Task), f.board[t]? = some task →
        ∃ (g : GroupId) (s : Scheduler), f.schedulers[g]? = some s ∧ s.contains t = true) ∧
      ∀ (g : GroupId) (s : Scheduler), f.schedulers[g]? = some s → s.taskIds.Nodup := by
  obtain ⟨⟨hmirrored, -⟩, hheld⟩ := h.sound_held
  refine ⟨?_, ?_, ?_, fun g s hs => hmirrored.nodup hs⟩
  · intro g s hs t
    rw [Scheduler.contains_iff]
    exact hmirrored.member_iff hs t
  · intro t task htask g hg
    rw [ExtTreeMap.contains_eq_isSome_getElem?]
    exact hmirrored.registered ⟨task, htask, hg⟩
  · intro t task htask
    -- between operations no task is without a group, and the group is registered
    obtain ⟨g, hin⟩ := hheld t (htask ▸ rfl) (Option.some_ne_none t)
    obtain ⟨s, hs⟩ := Option.isSome_iff_exists.mp (hmirrored.registered hin)
    exact ⟨g, s, hs, Scheduler.contains_iff.mpr ((hmirrored.member_iff hs t).mpr hin)⟩

theorem sharedDig_is_in_second_group :
    Reachable 8 sharedDig ∧ ∃ s, sharedDig.schedulers[(⟨2⟩ : GroupId)]? = some s ∧ s.contains ⟨1⟩ = true ∧
      ∃ task, sharedDig.board[(⟨1⟩ : TaskId)]? = some task ∧ (⟨2⟩ : GroupId) ∈ task.groups := by
  obtain ⟨s, hs, hmember⟩ : ∃ s, sharedDig.schedulers[(⟨2⟩ : GroupId)]? = some s ∧ s.contains ⟨1⟩ = true :=
    ⟨_, rfl, by decide⟩
  have hmirror := schedulers_mirror_board reachable_sharedDig
  exact ⟨reachable_sharedDig, s, hs, hmember, (hmirror.1 ⟨2⟩ s hs ⟨1⟩).mp hmember⟩

end TaskScript.Foreman
