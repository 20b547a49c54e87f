import TaskScript.Proofs.Document.Values
import TaskScript.Proofs.Foreman.Operations

/-!
# `Proofs.Foreman.Ledger`: what the events tell

Who reads the events of a foreman in order can keep a ledger of who is scheduled where and who is doing
what. `Move.replay` says that this ledger is right: what a move changes is what its events tell.

## Contents
- `Ledger`, `Ledger.apply`, `Ledger.replay`: **reading events**.
- `Foreman.ledger`: what there is to know about a foreman.
- `Move.replay`, `Moves.replay`: **a move changes what its events tell**.
-/

namespace TaskScript

open Std

/-! ## Reading events -/

namespace TaskEvent

/-- A member of the details of an event. -/
def detail? (e : TaskEvent) (key : String) : Option Json :=
  match e.details with
  | some (.obj members) => (Json.Field.lookup? { name := key } members).join
  | _ => none

/-- The group that an event names in its details. -/
def group? (e : TaskEvent) : Option GroupId :=
  (e.detail? "group").bind GroupId.ofJson?

/-- The replacement that an event names in its details. -/
def replacement? (e : TaskEvent) : Option TaskId :=
  (e.detail? "replacement").bind TaskId.ofJson?

end TaskEvent

/-- Who is scheduled where, and who is doing what. -/
@[ext]
structure Ledger where
  members : GroupId → TaskId → Bool
  doing : ActorId → Option TaskId

namespace Ledger

/-- Nobody is scheduled and nothing is done. -/
def empty : Ledger where
  members _ _ := false
  doing _ := none

def put (l : Ledger) (g : GroupId) (t : TaskId) : Ledger :=
  { l with members := fun g' t' => decide (g = g' ∧ t = t') || l.members g' t' }

def take (l : Ledger) (g : GroupId) (t : TaskId) : Ledger :=
  { l with members := fun g' t' => !decide (g = g' ∧ t = t') && l.members g' t' }

def start (l : Ledger) (actor : ActorId) (t : TaskId) : Ledger :=
  { l with doing := fun a => if actor = a then some t else l.doing a }

def stop (l : Ledger) (actor : ActorId) : Ledger :=
  { l with doing := fun a => if actor = a then none else l.doing a }

/-- The actor stops, if there is one. -/
def stopIf (l : Ledger) : Option ActorId → Ledger
  | some actor => l.stop actor
  | none => l

/-- **What an event tells.** An event that lacks what it should name tells nothing. -/
def apply (l : Ledger) (e : TaskEvent) : Ledger :=
  match e.type with
  | .scheduled =>
    match e.group? with
    | some g => l.put g e.task
    | none => l
  | .removed =>
    match e.group? with
    | some g => l.take g e.task
    | none => l
  | .replaced =>
    match e.group?, e.replacement? with
    | some g, some r => ((l.take g e.task).put g r).stopIf e.actor
    | _, _ => l
  | .assigned =>
    match e.actor with
    | some actor => l.start actor e.task
    | none => l
  | .completed | .failed | .interrupted => l.stopIf e.actor
  | .printed => l

/-- What a row of events tells, one after the other. -/
def replay (l : Ledger) (events : List TaskEvent) : Ledger :=
  events.foldl apply l

/-- To put a task into a group leaves all other members where they are. -/
theorem members_put {l : Ledger} {g g' : GroupId} {t t' : TaskId} :
    (l.put g t).members g' t' = true ↔ g = g' ∧ t = t' ∨ l.members g' t' = true := by
  rw [put, Bool.or_eq_true, decide_eq_true_eq]

/-- Only the one membership is taken back: the task may still be shared by other groups. -/
theorem members_take {l : Ledger} {g g' : GroupId} {t t' : TaskId} :
    (l.take g t).members g' t' = true ↔ ¬(g = g' ∧ t = t') ∧ l.members g' t' = true := by
  rw [take, Bool.and_eq_true, Bool.not_eq_true', decide_eq_false_iff_not]

/-- Events can be read in portions, so a ledger that was kept up to some event goes on from there. -/
theorem replay_append (l : Ledger) (events events' : List TaskEvent) :
    l.replay (events ++ events') = (l.replay events).replay events' :=
  List.foldl_append

end Ledger

/-! ## The details that a foreman writes -/

open Foreman (groupDetails replacedDetails)

/-- The group is found in the details that are written for `scheduled` and `removed`. Details are a document, so
this is where the writing and the reading of group names meet. -/
theorem TaskEvent.group?_of_group {e : TaskEvent} {g : GroupId} (h : e.details = some (groupDetails g)) :
    e.group? = some g := by
  rw [group?, detail?, h]
  exact g.ofJson?_toJson

theorem TaskEvent.group?_of_replaced {e : TaskEvent} {g : GroupId} {r : TaskId}
    (h : e.details = some (replacedDetails g r)) : e.group? = some g := by
  rw [group?, detail?, h]
  exact g.ofJson?_toJson

/-- The details of a replacement name the group as the others do, and beside it the task that came in place of
another. -/
theorem TaskEvent.replacement?_of_replaced {e : TaskEvent} {g : GroupId} {r : TaskId}
    (h : e.details = some (replacedDetails g r)) : e.replacement? = some r := by
  rw [replacement?, detail?, h]
  exact r.ofJson?_toJson

namespace Ledger

variable {l : Ledger} {e : TaskEvent} {g : GroupId}

theorem apply_scheduled (htype : e.type = .scheduled) (hdetails : e.details = some (groupDetails g)) :
    l.apply e = l.put g e.task := by
  rw [apply, htype, TaskEvent.group?_of_group hdetails]

theorem apply_removed (htype : e.type = .removed) (hdetails : e.details = some (groupDetails g)) :
    l.apply e = l.take g e.task := by
  rw [apply, htype, TaskEvent.group?_of_group hdetails]

/-- A replacement tells three things at once: who left the group, who came, and which actor was stopped for it. -/
theorem apply_replaced {r : TaskId} (htype : e.type = .replaced)
    (hdetails : e.details = some (replacedDetails g r)) :
    l.apply e = ((l.take g e.task).put g r).stopIf e.actor := by
  rw [apply, htype, TaskEvent.group?_of_replaced hdetails, TaskEvent.replacement?_of_replaced hdetails]

/-- However a run has ended, its event tells that the actor is doing nothing. -/
theorem apply_ended (htype : e.type = .completed ∨ e.type = .failed ∨ e.type = .interrupted) :
    l.apply e = l.stopIf e.actor := by
  rw [apply]
  rcases htype with h | h | h <;> rw [h]

end Ledger

/-- The event that was recorded, if one was. -/
def Note.event? : Note → Option TaskEvent
  | .recorded event => some event
  | .handedIn _ => none

/-- The events among some notes. -/
def recordedIn (notes : List Note) : List TaskEvent :=
  notes.filterMap Note.event?

theorem recordedIn_handedIn (job : Job) (notes : List Note) :
    recordedIn (.handedIn job :: notes) = recordedIn notes := rfl

theorem recordedIn_append (notes notes' : List Note) :
    recordedIn (notes ++ notes') = recordedIn notes ++ recordedIn notes' :=
  List.filterMap_append

/-- Among the notes of an operation are its events. -/
theorem recordedIn_operation (jobs : List Job) (events : List TaskEvent) :
    recordedIn (jobs.map .handedIn ++ events.map .recorded) = events := by
  have hjobs : recordedIn (jobs.map .handedIn) = [] := by
    rw [recordedIn, List.filterMap_map, List.filterMap_eq_nil_iff]
    intro job _
    rfl
  have hevents : recordedIn (events.map .recorded) = events := by
    rw [recordedIn, List.filterMap_map]
    exact List.filterMap_some
  rw [recordedIn_append, hjobs, hevents, List.nil_append]

namespace Foreman

variable {f f' : Foreman}

/-! ## The ledger of a foreman -/

/-- **What there is to know about a foreman.** -/
def ledger (f : Foreman) : Ledger where
  members g t :=
    match f.schedulers[g]? with
    | some s => s.contains t
    | none => false
  doing := f.currentTask?

/-- The members of a group are those that its scheduler lists. -/
theorem members_of_lookup {g : GroupId} {s : Scheduler} (hs : f.schedulers[g]? = some s) (t : TaskId) :
    f.ledger.members g t = true ↔ t ∈ s.taskIds := by
  unfold ledger
  dsimp only
  rw [hs]
  exact Scheduler.contains_iff

theorem members_of_none {g : GroupId} (hs : f.schedulers[g]? = none) (t : TaskId) :
    f.ledger.members g t = false := by
  unfold ledger
  dsimp only
  rw [hs]

/-- **One group at a time.** To change the scheduler of a group is to change the members of this group in the
ledger; the board, which is changed with it, is no matter for the ledger. -/
theorem ledger_withMembership {g : GroupId} {changed : Scheduler × Board} {l : Ledger}
    (hgroup : ∀ t, t ∈ changed.1.taskIds ↔ l.members g t = true)
    (hothers : ∀ g' t, g ≠ g' → (f.ledger.members g' t = true ↔ l.members g' t = true))
    (hdoing : f.currentTask? = l.doing) : (f.withMembership g changed).ledger = l := by
  apply Ledger.ext
  · funext g' t
    rw [Bool.eq_iff_iff]
    by_cases hg : g = g'
    · rw [← hg, ← hgroup]
      exact members_of_lookup (lookup_insert_self ..) t
    · rw [← hothers g' t hg]
      unfold ledger withMembership
      dsimp only
      rw [lookup_insert_of_ne _ _ hg]
  · exact hdoing

/-! ## Moves -/

theorem ledger_schedule {g : GroupId} {s : Scheduler} {t : TaskId} {changed : Scheduler × Board}
    (hs : f.schedulers[g]? = some s) (hadd : Scheduler.Added s f.board t changed.1 changed.2) :
    (f.withMembership g changed).ledger = f.ledger.put g t := by
  refine ledger_withMembership (fun t' => ?_) (fun g' t' hg => ?_) rfl
  · rw [Ledger.members_put, members_of_lookup hs, hadd.mem_iff, eq_self, true_and]
  · rw [Ledger.members_put, eq_false hg, false_and, false_or]

/-- A scheduler lists no task twice, so a task is out of the group when one entry is taken out. -/
theorem ledger_leave {g : GroupId} {s : Scheduler} {t : TaskId} {changed : Scheduler × Board}
    (hs : f.schedulers[g]? = some s) (hnodup : s.taskIds.Nodup)
    (hremove : Scheduler.Removed s f.board t changed.1 changed.2) :
    (f.withMembership g changed).ledger = f.ledger.take g t := by
  refine ledger_withMembership (fun t' => ?_) (fun g' t' hg => ?_) rfl
  · rw [Ledger.members_take, members_of_lookup hs, hremove.mem_iff hnodup, eq_self, true_and]
  · rw [Ledger.members_take, eq_false hg, false_and, not_false_eq_true, true_and]

/-- The original leaves the group and the replacement enters it. The slot that it takes over is not in the ledger,
which knows no order. -/
theorem ledger_replace {g : GroupId} {s : Scheduler} {t r : TaskId} {changed : Scheduler × Board} {b : Board}
    (hs : f.schedulers[g]? = some s) (hreplace : Scheduler.Replaced s b t r changed.1 changed.2) :
    (f.withMembership g changed).ledger = (f.ledger.take g t).put g r := by
  refine ledger_withMembership (fun t' => ?_) (fun g' t' hg => ?_) rfl
  · rw [Ledger.members_put, Ledger.members_take, members_of_lookup hs, hreplace.mem_iff, eq_self, true_and,
      true_and]
  · rw [Ledger.members_put, Ledger.members_take, eq_false hg, false_and, false_or, false_and,
      not_false_eq_true, true_and]

/-- Whatever becomes of the board, an actor that is no longer running anything has stopped in the ledger. -/
theorem ledger_stop {actor : ActorId} (hschedulers : f'.schedulers = f.schedulers)
    (hrunning : f'.running = f.running.erase actor) : f'.ledger = f.ledger.stop actor := by
  apply Ledger.ext
  · rw [ledger, hschedulers]
    rfl
  · funext a
    exact currentTask?_of_erase hrunning a

theorem ledger_giveUp (actor : ActorId) (run : Run) : (f.giveUp actor run).ledger = f.ledger.stop actor :=
  ledger_stop rfl rfl

theorem ledger_finish (actor : ActorId) (run : Run) : (f.finish actor run).ledger = f.ledger.stop actor :=
  ledger_stop rfl rfl

/-- An actor that starts a run is doing the task of the run. -/
theorem ledger_withRun (actor : ActorId) (run : Run) (board : Board) :
    (f.withRun actor run board).ledger = f.ledger.start actor run.task := by
  apply Ledger.ext
  · rfl
  · funext a
    exact currentTask?_of_insert rfl a

/-- If anybody is at a task, to stop the performer is one stop in the ledger, and else nothing. -/
theorem ledger_stopped {t : TaskId} : (f.stopped (f.performer? t)).ledger = f.ledger.stopIf (f.performer? t) := by
  cases hperf : f.performer? t with
  | none => rfl
  | some actor =>
    obtain ⟨run, hrun, -⟩ := currentTask?_eq_some_iff.mp (currentTask?_of_performer? hperf)
    rw [stopped_some hrun]
    exact ledger_giveUp actor run

theorem ledger_record (type : EventType) (t : TaskId) (actor : Option ActorId) (details : Option Json) :
    (f.record type t actor details).ledger = f.ledger := rfl

theorem replay_recorded (l : Ledger) (e : TaskEvent) : l.replay (recordedIn [.recorded e]) = l.apply e := rfl

/-- A group that is new has no members. -/
theorem ledger_register {g : GroupId} (hnew : f.schedulers.contains g = false) :
    ledger { f with schedulers := f.schedulers.insert g { group := g } } = f.ledger := by
  rw [ExtTreeMap.contains_eq_isSome_getElem?, Option.isSome_eq_false_iff, Option.isNone_iff_eq_none] at hnew
  show (f.withMembership g ({ group := g }, f.board)).ledger = f.ledger
  refine ledger_withMembership (fun t => ?_) (fun _ _ _ => Iff.rfl) rfl
  rw [members_of_none hnew]
  constructor <;> intro hmem <;> cases hmem

/-- An execution that goes on is no matter for the ledger, which knows only whose task it is. -/
theorem ledger_goOn {actor : ActorId} {run : Run} (hrun : f.running[actor]? = some run)
    (execution : Execution) :
    ledger { f with running := f.running.insert actor { run with execution } } = f.ledger := by
  apply Ledger.ext
  · rfl
  · funext a
    refine (currentTask?_of_insert rfl a).trans ?_
    split
    · rename_i ha
      rw [← ha]
      exact (currentTask?_of_running hrun).symm
    · rfl

/-- **A move changes what its events tell.** -/
theorem Move.replay {notes : List Note} (hmove : Move f notes f') (h : f.Sound) :
    f.ledger.replay (recordedIn notes) = f'.ledger := by
  cases hmove with
  | clock => rfl
  | register hnew => exact (ledger_register hnew).symm
  | handIn _ => rfl
  | schedule hs hadd =>
    rw [replay_recorded, ledger_record, ledger_schedule hs (Scheduler.added_of_add hadd)]
    exact Ledger.apply_scheduled rfl rfl
  | leave hs hremove =>
    rw [replay_recorded, ledger_record,
      ledger_leave hs (h.mirrored.nodup hs) (Scheduler.removed_of_remove hremove)]
    exact Ledger.apply_removed rfl rfl
  | @replace g s t job changed f₁ hs _ hf₁ hreplace =>
    have hs₁ : f₁.schedulers[g]? = some s := by
      rw [hf₁, withTask, schedulers_stopped]
      exact hs
    have hstopped : f₁.ledger = f.ledger.stopIf (f.performer? t) := by
      rw [hf₁]
      exact ledger_stopped
    rw [recordedIn_handedIn, replay_recorded, ledger_record,
      ledger_replace hs₁ (Scheduler.replaced_of_replace hreplace), hstopped]
    refine (Ledger.apply_replaced rfl rfl).trans ?_
    -- stopping the performer and changing the members do not get in each other's way
    cases f.performer? t <;> rfl
  | drop _ _ _ => rfl
  | assign _ _ _ _ =>
    rw [replay_recorded, ledger_record, ledger_withRun]
    rfl
  | print _ => rfl
  | goOn hrun => exact (ledger_goOn hrun _).symm
  | giveUp _ htype =>
    rw [replay_recorded, ledger_record, ledger_giveUp, Ledger.apply_ended (.inr htype.symm)]
    rfl
  | finish _ =>
    rw [replay_recorded, ledger_record, ledger_finish, Ledger.apply_ended (.inl rfl)]
    rfl

/-- **Many moves change what all their events tell**, one after the other. Each move finds the foreman sound,
because the one before has left it so. -/
theorem Moves.replay {notes : List Note} (hmoves : Moves f notes f') (h : f.Sound) :
    f.ledger.replay (recordedIn notes) = f'.ledger := by
  induction hmoves with
  | nil => rfl
  | cons hmove _ ih => rw [recordedIn_append, Ledger.replay_append, hmove.replay h, ih (hmove.sound h)]

end Foreman

end TaskScript
