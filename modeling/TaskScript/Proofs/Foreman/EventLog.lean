import TaskScript.Proofs.Foreman.Ledger
import TaskScript.Proofs.Foreman.Reachable

/-!
# `Proofs.Foreman.EventLog`: the events tell the whole story

A foreman keeps a log of events, from which they are collected now and then. The log is complete: from the
events alone, those collected and those not, the ledger of the foreman can be made out. And it can be read
without the board: every event has the name that its task was handed in with, also when the task is long off
the board.

## Contents
- `latest`, `Legible`: the names in a diary.
- `Known`, `Move.known`: **every event names its task**.
- `History`: a foreman, with its diary and the events that were collected from it.
- `replay_history`: **the log is a complete record**.
-/

namespace TaskScript

open Std

/-! ## The names in a diary -/

/-- The job that was handed in, if it has the name. -/
def Note.job? (t : TaskId) : Note → Option Job
  | .handedIn job => if job.id = t then some job else none
  | .recorded _ => none

/-- The last job of a name that was handed in. -/
def latest (diary : List Note) (t : TaskId) : Option Job :=
  diary.reverse.findSome? (Note.job? t)

theorem latest_append_note (diary : List Note) (note : Note) (t : TaskId) :
    latest (diary ++ [note]) t = (note.job? t).or (latest diary t) := by
  rw [latest, List.reverse_append, List.reverse_singleton, List.singleton_append, List.findSome?_cons]
  cases note.job? t <;> rfl

theorem latest_handedIn (diary : List Note) (job : Job) (t : TaskId) :
    latest (diary ++ [.handedIn job]) t = if job.id = t then some job else latest diary t := by
  rw [latest_append_note, Note.job?]
  split <;> rfl

theorem latest_recorded (diary : List Note) (e : TaskEvent) (t : TaskId) :
    latest (diary ++ [.recorded e]) t = latest diary t :=
  latest_append_note diary (.recorded e) t

/-- **Every event of a diary has the name that its task was handed in with.** -/
def Legible (diary : List Note) : Prop :=
  ∀ before e after, diary = before ++ .recorded e :: after →
    ∃ job, latest before e.task = some job ∧ e.taskName = job.name

theorem legible_nil : Legible [] := by
  intro before e after heq
  cases before <;> cases heq

theorem Legible.handedIn {diary : List Note} (h : Legible diary) (job : Job) :
    Legible (diary ++ [.handedIn job]) := by
  intro before e after heq
  -- the note at the end is no event, so the event is one of the diary before
  rcases List.eq_nil_or_concat after with rfl | ⟨rest, last, rfl⟩
  · have hlast := (List.append_inj' heq rfl).2
    cases hlast
  · rw [List.concat_eq_append, ← List.cons_append, ← List.append_assoc] at heq
    exact h before e rest (List.append_inj' heq rfl).1

theorem Legible.recorded {diary : List Note} (h : Legible diary) {e : TaskEvent} {job : Job}
    (hlatest : latest diary e.task = some job) (hname : e.taskName = job.name) :
    Legible (diary ++ [.recorded e]) := by
  intro before e' after heq
  -- the event is the new one, or one of the diary before
  rcases List.eq_nil_or_concat after with rfl | ⟨rest, last, rfl⟩
  · obtain ⟨rfl, hlast⟩ := List.append_inj' heq rfl
    cases hlast
    exact ⟨job, hlatest, hname⟩
  · rw [List.concat_eq_append, ← List.cons_append, ← List.append_assoc] at heq
    exact h before e' rest (List.append_inj' heq rfl).1

namespace Foreman

variable {f f' : Foreman} {diary : List Note}

/-- The diary knows every task of the board, and can be read so far. -/
structure Known (diary : List Note) (f : Foreman) : Prop where
  legible : Legible diary
  latest : ∀ (t : TaskId) (task : Task), f.board[t]? = some task → latest diary t = some task.toJob

theorem known_new {maxSteps : UInt32} : Known [] { maxSteps } where
  legible := legible_nil
  latest t task htask := by
    rw [board_new] at htask
    cases htask

/-- A change of the board that brings in no new job. -/
theorem Known.congr (h : Known diary f)
    (hboard : ∀ (t : TaskId) (task : Task), f'.board[t]? = some task →
      ∃ x, f.board[t]? = some x ∧ x.toJob = task.toJob) : Known diary f' where
  legible := h.legible
  latest t task htask := by
    obtain ⟨x, hx, hjob⟩ := hboard t task htask
    rw [h.latest t x hx, hjob]

/-- A change of a task that keeps its job. -/
theorem Known.withChange (h : Known diary f) {t : TaskId} {change : Task → Task}
    (hboard : f'.board = f.board.modify t change) (hjob : ∀ x, (change x).toJob = x.toJob) :
    Known diary f' := by
  refine h.congr fun t' task htask => ?_
  rw [hboard, Board.getElem?_modify] at htask
  split at htask
  · obtain ⟨x, hx, rfl⟩ := Option.map_eq_some_iff.mp htask
    exact ⟨x, hx, (hjob x).symm⟩
  · exact ⟨task, htask, rfl⟩

theorem Known.withTask (h : Known diary f) (job : Job) : Known (diary ++ [.handedIn job]) (f.withTask job) where
  legible := h.legible.handedIn job
  latest t task htask := by
    rw [Foreman.withTask, Board.getElem?_insert] at htask
    rw [latest_handedIn]
    split at htask
    · rename_i ht
      cases htask
      rw [if_pos ht]
    · rename_i ht
      rw [if_neg ht]
      exact h.latest t task htask

/-- An event of a task that is on the board has its name. -/
theorem Known.record (h : Known diary f) {t : TaskId} (hon : f.board[t]?.isSome) (type : EventType)
    (actor : Option ActorId) (details : Option Json) :
    Known (diary ++ [.recorded (f.event type t actor details)]) (f.record type t actor details) where
  legible := by
    obtain ⟨task, htask⟩ := Option.isSome_iff_exists.mp hon
    refine h.legible.recorded (h.latest t task htask) ?_
    show f.taskName t = task.name
    rw [taskName, htask]
  latest t' task htask := by
    rw [latest_recorded]
    exact h.latest t' task htask

/-! ## Moves -/

theorem Known.giveUp (h : Known diary f) (actor : ActorId) (run : Run) : Known diary (f.giveUp actor run) :=
  h.withChange rfl fun _ => rfl

theorem Known.stopped (h : Known diary f) (who : Option ActorId) : Known diary (f.stopped who) := by
  rcases stopped_cases f who with hwho | ⟨actor, run, -, hwho⟩ <;> rw [hwho]
  · exact h
  · exact h.giveUp actor run

/-- The actor of a member is stopped, a new job is handed in, and the two tasks change places. -/
theorem Known.replace (h : Known diary f) {g : GroupId} {s : Scheduler} {t : TaskId} {job : Job}
    {who : Option ActorId} {changed : Scheduler × Board}
    (hreplace : Scheduler.Replaced s ((f.stopped who).withTask job).board t job.id changed.1 changed.2) :
    Known (diary ++ [.handedIn job]) (((f.stopped who).withTask job).withMembership g changed) := by
  obtain ⟨f₁, hf₁⟩ : ∃ f₁, f₁ = (f.stopped who).withTask job := ⟨_, rfl⟩
  have hgiven : Known (diary ++ [.handedIn job]) f₁ := hf₁ ▸ (h.stopped who).withTask job
  rw [← hf₁] at hreplace ⊢
  have hleft : Known (diary ++ [.handedIn job]) { f₁ with board := f₁.board.modify t (·.leave s.group) } :=
    hgiven.withChange rfl fun _ => rfl
  exact hleft.withChange hreplace.board fun _ => rfl

/-- A member that is to be replaced stays on the board until then, whatever becomes of its actor. -/
theorem isSome_replaced {t : TaskId} (hon : f.board[t]?.isSome) {job : Job} {who : Option ActorId} :
    ((f.stopped who).withTask job).board[t]?.isSome := by
  rw [withTask, Board.getElem?_insert]
  split
  · rfl
  · rw [← Board.contains_eq_isSome, contains_stopped, Board.contains_eq_isSome]
    exact hon

/-- What an actor is doing is on the board. -/
theorem Owned.isSome_of_running (h : f.Owned) {actor : ActorId} {run : Run}
    (hrun : f.running[actor]? = some run) : f.board[run.task]?.isSome := by
  have hassignee := (h actor run.task).mp (currentTask?_of_running hrun)
  obtain ⟨task, htask, -⟩ := Option.bind_eq_some_iff.mp hassignee
  rw [htask]
  rfl

/-- **Every event names its task**: a move keeps the diary legible, and up to date with the board. -/
theorem Move.known {notes : List Note} (hmove : Move f notes f') (h : f.Sound) (hknown : Known diary f) :
    Known (diary ++ notes) f' := by
  cases hmove with
  | clock =>
    rw [List.append_nil]
    exact hknown.congr fun _ task htask => ⟨task, htask, rfl⟩
  | register _ =>
    rw [List.append_nil]
    exact hknown.congr fun _ task htask => ⟨task, htask, rfl⟩
  -- the job that is handed in is the latest of its name from here on
  | handIn _ => exact hknown.withTask _
  | @schedule g s t changed _ hadd =>
    have hadded := Scheduler.added_of_add hadd
    have hchanged : Known diary (f.withMembership g changed) := hknown.withChange hadded.board fun _ => rfl
    refine hchanged.record ?_ _ _ _
    rw [withMembership, hadded.board, Board.isSome_modify]
    exact hadded.onBoard
  | @leave g s t changed hs hremove =>
    have hremoved := Scheduler.removed_of_remove hremove
    have hchanged : Known diary (f.withMembership g changed) := hknown.withChange hremoved.board fun _ => rfl
    refine hchanged.record ?_ _ _ _
    rw [withMembership, hremoved.board, Board.isSome_modify]
    exact h.mirrored.isSome_of_mem hs hremoved.member
  | @replace g s t job changed f₁ hs _ hf₁ hreplace =>
    have hreplaced := Scheduler.replaced_of_replace hreplace
    have hchanged : Known (diary ++ [.handedIn job]) (f₁.withMembership g changed) :=
      hf₁ ▸ hknown.replace (hf₁ ▸ hreplaced)
    rw [List.append_cons]
    refine hchanged.record ?_ _ _ _
    rw [withMembership, hreplaced.board, Board.isSome_modify, Board.isSome_modify, hf₁]
    exact isSome_replaced (h.mirrored.isSome_of_mem hs hreplaced.member)
  -- a task that is dropped leaves its name in the diary, and the rest of the board as it was
  | @drop t task _ _ _ =>
    rw [List.append_nil]
    refine hknown.congr fun t' x hx => ?_
    rw [Board.getElem?_erase] at hx
    split at hx
    · cases hx
    · exact ⟨x, hx, rfl⟩
  | @assign g s t actor board task _ _ hassign htask =>
    obtain ⟨_, -, -, -, hboard⟩ := Scheduler.assigned_of_assign h.mirrored.named hassign
    have hgiven : Known diary (f.withRun actor ⟨t, .start task.toJob f.maxSteps⟩ board) :=
      hknown.withChange hboard fun _ => rfl
    refine hgiven.record ?_ _ _ _
    rw [withRun, htask]
    rfl
  | print hrun => exact hknown.record (h.owned.isSome_of_running hrun) _ _ _
  | goOn _ =>
    rw [List.append_nil]
    exact hknown.congr fun _ task htask => ⟨task, htask, rfl⟩
  | @giveUp actor run _ _ hrun _ =>
    refine (hknown.giveUp actor run).record ?_ _ _ _
    rw [Foreman.giveUp, Board.isSome_modify]
    exact h.owned.isSome_of_running hrun
  | @finish actor run hrun =>
    have hdone : Known diary (f.finish actor run) := hknown.withChange rfl fun _ => rfl
    refine hdone.record ?_ _ _ _
    rw [Foreman.finish, Board.isSome_modify]
    exact h.owned.isSome_of_running hrun

theorem Moves.known {notes : List Note} (hmoves : Moves f notes f') (h : f.Sound) (hknown : Known diary f) :
    Known (diary ++ notes) f' := by
  induction hmoves generalizing diary with
  | nil =>
    rw [List.append_nil]
    exact hknown
  | cons hmove _ ih =>
    rw [← List.append_assoc]
    exact ih (hmove.sound h) (hmove.known h hknown)

/-- A move adds its events to the end of the log. -/
theorem Move.events {notes : List Note} (hmove : Move f notes f') :
    f'.events.toList = f.events.toList ++ recordedIn notes := by
  cases hmove with
  | clock => exact (List.append_nil _).symm
  | register _ => exact (List.append_nil _).symm
  | handIn _ => exact (List.append_nil _).symm
  | drop _ _ _ => exact (List.append_nil _).symm
  | goOn _ => exact (List.append_nil _).symm
  | @replace g s t job changed f₁ _ _ hf₁ _ =>
    have hlog : f₁.events = f.events := by
      rw [hf₁]
      exact events_stopped _
    rw [← hlog]
    exact Array.toList_push
  | schedule _ _ => exact Array.toList_push
  | leave _ _ => exact Array.toList_push
  | assign _ _ _ _ => exact Array.toList_push
  | print _ => exact Array.toList_push
  | giveUp _ _ => exact Array.toList_push
  | finish _ => exact Array.toList_push

theorem Moves.events {notes : List Note} (hmoves : Moves f notes f') :
    f'.events.toList = f.events.toList ++ recordedIn notes := by
  induction hmoves with
  | nil => exact (List.append_nil _).symm
  | cons hmove _ ih => rw [ih, hmove.events, recordedIn_append, List.append_assoc]

/-! ## The whole story -/

/-- The events that were recorded on the way from `f` to `f'`. -/
def recordedSince (f f' : Foreman) : List TaskEvent :=
  f'.events.toList.drop f.events.size

/-- **A foreman with its history**: the diary of all that was handed in and recorded so far, and the events
that were collected. -/
inductive History (maxSteps : UInt32) : List Note → List TaskEvent → Foreman → Prop
  | new : History maxSteps [] [] { maxSteps }
  | perform {diary : List Note} {collected : List TaskEvent} {f f' : Foreman} (op : Operation) :
      History maxSteps diary collected f → f.perform op = .ok f' →
      History maxSteps (diary ++ ((f.accepted op).map .handedIn ++ (f.recordedSince f').map .recorded))
        collected f'
  | drain {diary : List Note} {collected : List TaskEvent} {f : Foreman} :
      History maxSteps diary collected f →
      History maxSteps diary (collected ++ f.drainEvents.2) f.drainEvents.1

variable {maxSteps : UInt32} {collected : List TaskEvent}

theorem History.reachable (h : History maxSteps diary collected f) : Reachable maxSteps f := by
  induction h with
  | new => exact .new
  | perform op _ hop ih => exact ih.perform op hop
  | drain _ ih => exact ih.drain

/-- The notes of an operation are its jobs and the events at the end of the log. -/
theorem moves_of_perform (h : Reachable maxSteps f) {op : Operation} (hop : f.perform op = .ok f') :
    Moves f ((f.accepted op).map .handedIn ++ (f.recordedSince f').map .recorded) f' := by
  obtain ⟨hsound, hheld⟩ := h.sound_held
  obtain ⟨events, hmoves, -⟩ := performs hsound hheld hop
  -- the log tells which events they are
  have hlog := hmoves.events
  rw [recordedIn_operation] at hlog
  have hsince : f.recordedSince f' = events := by
    rw [recordedSince, hlog]
    exact List.drop_left' Array.length_toList
  rwa [hsince]

theorem History.known (h : History maxSteps diary collected f) : Known diary f := by
  induction h with
  | new => exact known_new
  | perform op hbefore hop ih =>
    exact (moves_of_perform hbefore.reachable hop).known hbefore.reachable.sound_held.1 ih
  | drain _ ih => exact ih.congr fun _ task htask => ⟨task, htask, rfl⟩

/-- No event gets lost. -/
theorem History.recorded (h : History maxSteps diary collected f) :
    recordedIn diary = collected ++ f.events.toList := by
  induction h with
  | new => rfl
  | perform op hbefore hop ih =>
    have hmoves := moves_of_perform hbefore.reachable hop
    rw [recordedIn_append, ih, hmoves.events, List.append_assoc]
  | drain _ ih =>
    rw [ih]
    exact (List.append_nil _).symm

theorem ledger_new : ledger { maxSteps } = Ledger.empty := by
  apply Ledger.ext
  · funext g t
    exact members_of_none (schedulers_new g) t
  · funext actor
    show ({ maxSteps } : Foreman).currentTask? actor = none
    exact currentTask?_new actor

theorem History.replay (h : History maxSteps diary collected f) :
    Ledger.empty.replay (recordedIn diary) = f.ledger := by
  induction h with
  | new => exact ledger_new.symm
  | perform op hbefore hop ih =>
    have hmoves := moves_of_perform hbefore.reachable hop
    rw [recordedIn_append, Ledger.replay_append, ih]
    exact hmoves.replay hbefore.reachable.sound_held.1
  | drain _ ih => exact ih

/-- **The log is a complete record.** The events collected from a foreman and those still in its log are all
there ever were; read in order, they tell the members of every group and what every actor is doing; and each
has the name that its task was handed in with. -/
theorem replay_history (h : History maxSteps diary collected f) :
    recordedIn diary = collected ++ f.events.toList ∧
      Ledger.empty.replay (collected ++ f.events.toList) = f.ledger ∧
      ∀ before e after, diary = before ++ .recorded e :: after →
        ∃ job, latest before e.task = some job ∧ e.taskName = job.name := by
  refine ⟨h.recorded, ?_, h.known.legible⟩
  rw [← h.recorded]
  exact h.replay

theorem history_sharedDig : ∃ diary, History 8 diary [] sharedDig := by
  have hnew : History 8 [] [] { maxSteps := 8 } := .new
  have hgroups := (hnew.perform (.registerGroup ⟨1⟩) rfl).perform (.registerGroup ⟨2⟩) rfl
  have hshared := (hgroups.perform (.addTask ⟨1⟩ dig) rfl).perform (.scheduleExisting ⟨2⟩ ⟨1⟩) rfl
  exact ⟨_, (hshared.perform (.assignIdle ⟨7⟩ ⟨1⟩) rfl).perform (.assignIdle ⟨8⟩ ⟨2⟩) rfl⟩

theorem replay_sharedDig :
    ∃ diary, History 8 diary [] sharedDig ∧ Ledger.empty.replay sharedDig.events.toList = sharedDig.ledger ∧
      sharedDig.ledger.members ⟨2⟩ ⟨1⟩ = true ∧ sharedDig.ledger.doing ⟨7⟩ = some ⟨1⟩ := by
  obtain ⟨diary, h⟩ := history_sharedDig
  obtain ⟨-, hreplay, -⟩ := replay_history h
  exact ⟨diary, h, hreplay, by decide, by decide⟩

end Foreman

end TaskScript
