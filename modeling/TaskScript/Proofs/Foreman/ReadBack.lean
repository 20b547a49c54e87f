import TaskScript.Grid
import TaskScript.Proofs.Document.Events
import TaskScript.Proofs.Foreman.Clock
import TaskScript.Proofs.Foreman.EventLog

/-!
# `Proofs.Foreman.ReadBack`: recorded events are read back as they were

Not every event survives a document: details of `null` are lost, and others come back sorted. Those that a foreman
records survive, because of the details that it gives them. `Attached` lists them by type: a group, a group and a
replacement, the text of an error, a printed value, or none. All of them are in canonical form.

`Tells` goes with the operations: whatever is recorded on the way from one foreman to the next has details of the
list, and the prints among it show the values that the turn of the operation has put out, in order.

## Contents
- `Attached`, `TaskEvent.readsAs_of_attached`: **the details of every type**, and that they are read back.
- `Tells`, `tells_runActor`, `Effect.tells`, `tells_perform`: **what an operation tells**.
- `History.attached`, `recorded_events_read_back`: **recorded events are read back**.
-/

namespace TaskScript.Foreman

open Json

variable {f f' f'' : Foreman}

/-! ## Details -/

/-- The details of a print. -/
def printedDetails (value : Value) : Json :=
  .obj [("value", value.toJson)]

/-- The details of a failure. -/
def failedDetails (cause : EvaluationError) : Json :=
  .obj [("error", .str cause.message)]

/-- **The details that a foreman attaches** to the events of each type. -/
inductive Attached : EventType → Option Json → Prop
  | scheduled (g : GroupId) : Attached .scheduled (some (groupDetails g))
  | removed (g : GroupId) : Attached .removed (some (groupDetails g))
  | replaced (g : GroupId) (t : TaskId) : Attached .replaced (some (replacedDetails g t))
  | assigned (g : GroupId) : Attached .assigned (some (groupDetails g))
  | completed : Attached .completed none
  | interrupted : Attached .interrupted none
  | failed (cause : EvaluationError) : Attached .failed (some (failedDetails cause))
  | printed (value : Value) : Attached .printed (some (printedDetails value))

theorem isCanonical_groupDetails (g : GroupId) : (groupDetails g).IsCanonical :=
  .single (isCanonical_of_isScalar rfl) _

theorem isCanonical_replacedDetails (g : GroupId) (t : TaskId) : (replacedDetails g t).IsCanonical :=
  .pair (isCanonical_of_isScalar rfl) (isCanonical_of_isScalar rfl) (by decide)

theorem isCanonical_failedDetails (cause : EvaluationError) : (failedDetails cause).IsCanonical :=
  .single (isCanonical_of_isScalar rfl) _

theorem isCanonical_printedDetails (value : Value) : (printedDetails value).IsCanonical :=
  .single value.isCanonical_toJson _

/-- All details that are attached are in canonical form. -/
theorem Attached.isCanonical {type : EventType} {details : Option Json} (h : Attached type details) :
    ∀ d, details = some d → d ≠ .null ∧ d.IsCanonical := by
  rintro d rfl
  cases h with
  | scheduled g => exact ⟨Json.noConfusion, isCanonical_groupDetails g⟩
  | removed g => exact ⟨Json.noConfusion, isCanonical_groupDetails g⟩
  | replaced g t => exact ⟨Json.noConfusion, isCanonical_replacedDetails g t⟩
  | assigned g => exact ⟨Json.noConfusion, isCanonical_groupDetails g⟩
  | failed cause => exact ⟨Json.noConfusion, isCanonical_failedDetails cause⟩
  | printed value => exact ⟨Json.noConfusion, isCanonical_printedDetails value⟩

theorem Attached.readsAs {e : TaskEvent} (h : Attached e.type e.details) : e.toJson.ReadsAs TaskEvent.ofJson? e :=
  e.readsAs h.isCanonical

theorem Attached.of_printed {type : EventType} {details : Option Json} (h : Attached type details)
    (htype : type = .printed) : ∃ value, details = some (printedDetails value) := by
  subst htype
  cases h with
  | printed value => exact ⟨value, rfl⟩

/-! ## What is told -/

/-- The details of the prints among some events, in order. -/
def prints (events : List TaskEvent) : List (Option Json) :=
  (events.filter (·.type == .printed)).map (·.details)

/-- **What is told on the way from `f` to `f'`**: events with the details of their types are added to the log, and
the prints among them show `values`. -/
def Tells (f : Foreman) (values : List Value) (f' : Foreman) : Prop :=
  ∃ events, f'.events.toList = f.events.toList ++ events ∧ (∀ e ∈ events, Attached e.type e.details) ∧
    prints events = values.map fun value => some (printedDetails value)

theorem tells_nothing (h : f'.events = f.events) : Tells f [] f' :=
  ⟨[], by rw [h, List.append_nil], List.forall_mem_nil _, rfl⟩

theorem Tells.trans {values values' : List Value} (h : Tells f values f') (h' : Tells f' values' f'') :
    Tells f (values ++ values') f'' := by
  obtain ⟨events, hlog, hattached, hprints⟩ := h
  obtain ⟨events', hlog', hattached', hprints'⟩ := h'
  refine ⟨events ++ events', by rw [hlog', hlog, List.append_assoc],
    List.forall_mem_append.mpr ⟨hattached, hattached'⟩, ?_⟩
  rw [prints, List.filter_append, List.map_append, List.map_append]
  exact congrArg₂ (· ++ ·) hprints hprints'

/-- A change that is no matter for the log, and its event. -/
theorem tells_record (h : f'.events = f.events) {type : EventType} {details : Option Json}
    (hattached : Attached type details) (hsilent : type ≠ .printed) (t : TaskId) (actor : Option ActorId) :
    Tells f [] (f'.record type t actor details) := by
  refine ⟨[f'.event type t actor details], ?_, List.forall_mem_singleton.mpr hattached, ?_⟩
  · rw [← h]
    exact Array.toList_push
  · simp [prints, event, hsilent]

theorem tells_recordPrints (f : Foreman) (t : TaskId) (actor : ActorId) (values : List Value) :
    Tells f values (f.recordPrints t actor values) := by
  unfold recordPrints
  induction values generalizing f with
  | nil => exact tells_nothing rfl
  | cons value values ih =>
    have hfirst : Tells f [value] (f.record .printed t (some actor) (some (printedDetails value))) :=
      ⟨[f.event .printed t (some actor) (some (printedDetails value))], Array.toList_push,
        List.forall_mem_singleton.mpr (.printed value), rfl⟩
    exact hfirst.trans (ih _)

theorem tells_dropIfOrphaned (f : Foreman) (t : TaskId) : Tells f [] (f.dropIfOrphaned t).1 := by
  rcases dropIfOrphaned_cases f t with ⟨-, heq⟩ | ⟨_, -, -, -, heq⟩ | ⟨_, _, _, f₁, -, -, -, -, -, hf₁, heq⟩ <;> rw [heq]
  · exact tells_nothing rfl
  · exact tells_nothing rfl
  · have hinterrupted : Tells f [] f₁ := hf₁ ▸ tells_record rfl .interrupted (by decide) _ _
    exact hinterrupted.trans (tells_nothing rfl)

theorem Ends.tells {actor : ActorId} {run : Run} {report : Report} (h : Ends f actor run report f') :
    Tells f [] f' := by
  cases h with
  | goesOn => exact tells_nothing rfl
  | completes => apply tells_record rfl .completed (by decide)
  | fails => apply tells_record rfl (.failed _) (by decide)

/-! ## Operations -/

/-- What an actor puts out in a turn. -/
def output (f : Foreman) (around : Surroundings) (actor : ActorId) (dt : Float) : List Value :=
  match f.running[actor]? with
  | none => []
  | some run => (run.execution.turn around actor dt).output

/-- What is put out in the turn that an operation gives, if it gives one. -/
def outputOf (f : Foreman) (op : Operation) : List Value :=
  match op.turn? with
  | none => []
  | some (around, actor, dt) => f.output around actor dt

/-- A turn tells what the actor has put out. -/
theorem tells_runActor {around : Surroundings} {actor : ActorId} {dt : Float} {shift : Shift}
    (h : f.runActor around actor dt = .ok shift) : Tells f (f.output around actor dt) shift.foreman := by
  cases hrun : f.running[actor]? with
  | none =>
    cases shift_of_idle hrun h
    rw [output, hrun]
    exact tells_nothing rfl
  | some run =>
    have hturn := (f.tells_recordPrints run.task actor _).trans (ends_of_runActor hrun h).tells
    rw [List.append_nil] at hturn
    rwa [output, hrun]

/-- Apart from turns, operations print nothing. -/
theorem Effect.tells {op : Operation} (heffect : Effect f op f') (hop : op.turn? = none) : Tells f [] f' := by
  cases heffect with
  | nothing => exact tells_nothing rfl
  | clock => exact tells_nothing rfl
  | registers _ => exact tells_nothing rfl
  | @adds g job s changed _ _ _ => apply tells_record rfl (.scheduled g) (by decide)
  | @shares g t s changed _ _ => apply tells_record rfl (.scheduled g) (by decide)
  | @removes g s t changed f₁ _ _ hf₁ =>
    have hremoved : Tells f [] f₁ := hf₁ ▸ tells_record rfl (.removed g) (by decide) _ _
    exact hremoved.trans (tells_dropIfOrphaned f₁ t)
  | @replaces g s t job changed f₁ f₂ _ _ hf₁ _ hf₂ _ =>
    have hlog : (f₁.withMembership g changed).events = f.events := by
      rw [hf₁]
      exact events_stopped _
    have hreplaced : Tells f [] f₂ := hf₂ ▸ tells_record hlog (.replaced g job.id) (by decide) _ _
    exact hreplaced.trans (tells_dropIfOrphaned f₂ t)
  | @assigns g _ _ _ _ _ _ _ _ _ => apply tells_record rfl (.assigned g) (by decide)
  | turns hturn _ _ _ =>
    rw [hturn] at hop
    cases hop
  | interrupts _ => apply tells_record rfl .interrupted (by decide)

/-- **What an operation tells**: events with the details of their types, and what was put out in its turn. -/
theorem tells_perform (h : f.Sound) {op : Operation} (hop : f.perform op = .ok f') :
    Tells f (f.outputOf op) f' := by
  have hturn : ∀ {around : Surroundings} {actor : ActorId} {dt : Float},
      (f.runActor around actor dt).map (·.foreman) = .ok f' → Tells f (f.output around actor dt) f' := by
    intro around actor dt hop
    cases hshift : f.runActor around actor dt with
    | error o =>
      rw [hshift] at hop
      cases hop
    | ok shift =>
      rw [hshift] at hop
      cases hop
      exact tells_runActor hshift
  cases op with
  | runActor => exact hturn hop
  | settleActor => exact hturn hop
  | _ => exact (effect_perform h hop).tells rfl

/-! ## Every event -/

variable {maxSteps : UInt32} {diary : List Note} {collected : List TaskEvent}

/-- Every event that was ever recorded has details of its type. -/
theorem History.attached (h : History maxSteps diary collected f) :
    ∀ e ∈ collected ++ f.events.toList, Attached e.type e.details := by
  induction h with
  | new => exact List.forall_mem_nil _
  | perform op hbefore hop ih =>
    obtain ⟨events, hlog, hattached, -⟩ := tells_perform hbefore.reachable.sound_held.1 hop
    rw [hlog, ← List.append_assoc]
    exact List.forall_mem_append.mpr ⟨ih, hattached⟩
  | drain _ ih =>
    -- what is collected was in the log before
    show ∀ e ∈ (_ ++ _) ++ [], _
    rw [List.append_nil]
    exact ih

/-- **Recorded events are read back as they were**, off the document as it is written and off every other
arrangement of it, whatever was done to the foreman, and whether they are still in its log or were collected.

The details of a print are a value with its kind, which is read back too; and the prints that an operation records
show the values that were put out in its turn, all of them and in their order. -/
theorem recorded_events_read_back (h : History maxSteps diary collected f) :
    (∀ e ∈ collected ++ f.events.toList,
      TaskEvent.ofJson? e.toJson = some e ∧ ∀ j, e.toJson.Rearranged j → TaskEvent.ofJson? j = some e) ∧
    (∀ e ∈ collected ++ f.events.toList, e.type = .printed →
      ∃ (value : Value) (content : Json),
        e.details = some (.obj [("value", .obj [("kind", .str value.kind.label), ("value", content)])]) ∧
        value.toJson = .obj [("kind", .str value.kind.label), ("value", content)] ∧
        ∀ j, value.toJson.Rearranged j → Value.ofJson? j = some value) ∧
    ∀ (op : Operation) (f' : Foreman), f.perform op = .ok f' →
      ((f.recordedSince f').filter (·.type == .printed)).map (·.details) =
        (f.outputOf op).map fun value => some (.obj [("value", value.toJson)]) := by
  refine ⟨fun e he => ?_, fun e he htype => ?_, fun op f' hop => ?_⟩
  · have hread := (h.attached e he).readsAs
    exact ⟨hread.self, hread.holds⟩
  · obtain ⟨value, hdetails⟩ := (h.attached e he).of_printed htype
    exact ⟨value, _, hdetails, rfl, value.readsAs.holds⟩
  · obtain ⟨events, hlog, -, hprints⟩ := tells_perform h.reachable.sound_held.1 hop
    have hsince : f.recordedSince f' = events := by
      rw [recordedSince, hlog]
      exact List.drop_left' Array.length_toList
    rw [hsince]
    exact hprints

/-- A job that prints where it was put up. -/
def signpost : Job where
  id := ⟨18446744073709551615⟩
  name := "signpost"
  priority := 0
  program := ⟨#[⟨none, .leaf (.print (.position (.literal ⟨1, -2, 3⟩)))⟩], 0⟩
  selected := none

/-- An actor that has the signpost to put up. -/
def withSignpost : Foreman :=
  (((registerGroup { maxSteps := 8 } ⟨1⟩).1.addTask ⟨1⟩ signpost).1.assignIdle ⟨7⟩ ⟨1⟩).1

theorem history_withSignpost : ∃ diary, History 8 diary [] withSignpost := by
  have hnew : History 8 [] [] { maxSteps := 8 } := .new
  have hadded := (hnew.perform (.registerGroup ⟨1⟩) rfl).perform (.addTask ⟨1⟩ signpost) rfl
  exact ⟨_, hadded.perform (.assignIdle ⟨7⟩ ⟨1⟩) rfl⟩

theorem signpost_is_read_back :
    let around := Grid.surroundings { sizeX := 0, sizeY := 0, sizeZ := 0 }
    ∃ f' : Foreman, withSignpost.perform (.runActor around ⟨7⟩ 1.0) = .ok f' ∧
      ((withSignpost.recordedSince f').filter (·.type == .printed)).map (·.details) =
        [some (.obj [("value", (Value.position ⟨1, -2, 3⟩).toJson)])] ∧
      ∀ e ∈ f'.events.toList, TaskEvent.ofJson? e.toJson = some e := by
  intro around
  obtain ⟨diary, h⟩ := history_withSignpost
  obtain ⟨f', hop⟩ : ∃ f', withSignpost.perform (.runActor around ⟨7⟩ 1.0) = .ok f' := ⟨_, rfl⟩
  have hprints := (recorded_events_read_back h).2.2 _ f' hop
  have hread := (recorded_events_read_back (h.perform _ hop)).1
  exact ⟨f', hop, hprints, fun e he => (hread e he).1⟩

end TaskScript.Foreman
