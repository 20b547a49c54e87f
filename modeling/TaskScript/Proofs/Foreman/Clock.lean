import TaskScript.Proofs.Foreman.Effect
import TaskScript.Proofs.Id

/-!
# `Proofs.Foreman.Clock`: how events are stamped

An event is stamped with the tick of the foreman and with its number within the tick. The number starts over with
every tick, and every operation that records something counts it up. So all that an operation does to the clock
is told by the events that it records (`Records`), one by one or not at all, and only `beginTick` turns it.

`Stamped` says of all events that a foreman ever recorded that their stamps are in order. It holds before and
after every operation, as long as no tick comes twice.

## Contents
- `Records`, `Logs`, `Report.ending?`, `Ends.records`, `Effect.logs`: **what an operation records**.
- `inTick`, `Stamped`: **stamps in order**.
- `Stamped.records`, `Stamped.beginTick`: what keeps them in order.
- `Stamped.pairwise`, `Stamped.numbered_toNat`: what that means for readers.
-/

namespace TaskScript

/-- The event by which a task ends, if a turn has ended it. -/
def Report.ending? : Report → Option EventType
  | .completed _ => some .completed
  | .failed _ _ => some .failed
  | .idle => none
  | .running _ => none

namespace Foreman

variable {f f' f'' : Foreman}

/-! ## What is recorded -/

/-- **Events are recorded one after the other**, and nothing else is done to the clock. -/
inductive Records : Foreman → List TaskEvent → Foreman → Prop
  | quiet {f f' : Foreman} :
      f'.events = f.events → f'.tick = f.tick → f'.sequence = f.sequence → Records f [] f'
  | record (f : Foreman) (type : EventType) (task : TaskId) (actor : Option ActorId) (details : Option Json) :
      Records f [f.event type task actor details] (f.record type task actor details)
  | trans {f f₁ f' : Foreman} {events events' : List TaskEvent} :
      Records f events f₁ → Records f₁ events' f' → Records f (events ++ events') f'

theorem Records.tick {events : List TaskEvent} (h : Records f events f') : f'.tick = f.tick := by
  induction h with
  | quiet _ htick _ => exact htick
  | record => rfl
  | trans _ _ ih ih' => exact ih'.trans ih

/-- What is recorded is in the log. -/
theorem Records.log {events : List TaskEvent} (h : Records f events f') :
    f'.events.toList = f.events.toList ++ events := by
  induction h with
  | quiet hevents _ _ => rw [hevents, List.append_nil]
  | record => exact Array.toList_push
  | trans _ _ ih ih' => rw [ih', ih, List.append_assoc]

/-- Something is recorded, or nothing. -/
def Logs (f f' : Foreman) : Prop :=
  ∃ events, Records f events f'

theorem Logs.refl (f : Foreman) : Logs f f :=
  ⟨[], .quiet rfl rfl rfl⟩

theorem Logs.trans (h : Logs f f') (h' : Logs f' f'') : Logs f f'' := by
  obtain ⟨events, hrecords⟩ := h
  obtain ⟨events', hrecords'⟩ := h'
  exact ⟨events ++ events', hrecords.trans hrecords'⟩

/-- A change that is no matter for the clock, and its event. -/
theorem Logs.record (hevents : f'.events = f.events) (htick : f'.tick = f.tick) (hsequence : f'.sequence = f.sequence)
    (type : EventType) (task : TaskId) (actor : Option ActorId) (details : Option Json) :
    Logs f (f'.record type task actor details) :=
  ⟨_, (Records.quiet hevents htick hsequence).trans (.record f' type task actor details)⟩

theorem logs_dropIfOrphaned (f : Foreman) (t : TaskId) : Logs f (f.dropIfOrphaned t).1 := by
  have herase : ∀ g : Foreman, Logs g { g with board := g.board.erase t } := fun _ => ⟨[], .quiet rfl rfl rfl⟩
  rcases dropIfOrphaned_cases f t with ⟨-, heq⟩ | ⟨_, -, -, -, heq⟩ | ⟨_, _, _, f₁, -, -, -, -, -, hf₁, heq⟩ <;> rw [heq]
  · exact .refl f
  · exact herase f
  · have hinterrupted : Logs f f₁ := by
      rw [hf₁]
      apply Logs.record <;> rfl
    exact hinterrupted.trans (herase f₁)

/-- What is printed is recorded. -/
theorem records_recordPrints (f : Foreman) (t : TaskId) (actor : ActorId) (values : List Value) :
    ∃ prints, Records f prints (f.recordPrints t actor values) ∧
      ∀ e ∈ prints, e.actor = some actor ∧ e.type = .printed := by
  unfold recordPrints
  induction values generalizing f with
  | nil => exact ⟨[], .quiet rfl rfl rfl, fun e he => absurd he List.not_mem_nil⟩
  | cons value values ih =>
    obtain ⟨prints, hrecords, hprints⟩ := ih (f.record .printed t (some actor) (some (.obj [("value", value.toJson)])))
    refine ⟨_, (Records.record f _ _ _ _).trans hrecords, ?_⟩
    exact List.forall_mem_cons.mpr ⟨⟨rfl, rfl⟩, hprints⟩

/-- The end of a turn is recorded, if it is the end of the task. -/
theorem Ends.records {actor : ActorId} {run : Run} {report : Report} (h : Ends f actor run report f') :
    ∃ last, Records f last f' ∧ (∀ e ∈ last, e.actor = some actor) ∧ last.map (·.type) = report.ending?.toList := by
  have hone : ∀ {g : Foreman} (type : EventType) (details : Option Json), g.events = f.events → g.tick = f.tick →
      g.sequence = f.sequence → ∃ last, Records f last (g.record type run.task (some actor) details) ∧
        (∀ e ∈ last, e.actor = some actor) ∧ last.map (·.type) = [type] := by
    intro g type details hevents htick hsequence
    refine ⟨_, (Records.quiet hevents htick hsequence).trans (.record g type run.task (some actor) details), ?_, rfl⟩
    exact List.forall_mem_singleton.mpr rfl
  cases h with
  | goesOn => exact ⟨[], .quiet rfl rfl rfl, fun e he => absurd he List.not_mem_nil, rfl⟩
  | completes => exact hone .completed _ rfl rfl rfl
  | fails => exact hone .failed _ rfl rfl rfl

/-- **Whatever an operation records**, it records in the tick that it finds, unless it begins a new one. -/
theorem Effect.logs {op : Operation} (heffect : Effect f op f') (hop : ∀ tick, op ≠ .beginTick tick) :
    Logs f f' := by
  cases heffect with
  | nothing => exact .refl f
  | @clock tick => exact absurd rfl (hop tick)
  | registers _ => exact ⟨[], .quiet rfl rfl rfl⟩
  | adds _ _ _ => apply Logs.record <;> rfl
  | shares _ _ => apply Logs.record <;> rfl
  | @removes g s t changed f₁ _ _ hf₁ =>
    have hremoved : Logs f f₁ := by
      rw [hf₁]
      apply Logs.record <;> rfl
    exact hremoved.trans (logs_dropIfOrphaned f₁ t)
  | @replaces g s t job changed f₁ f₂ _ _ hf₁ _ hf₂ _ =>
    have hstopped : Records f [] f₁ := by
      rw [hf₁]
      rcases stopped_cases f (f.performer? t) with hwho | ⟨actor, run, -, hwho⟩ <;> rw [hwho]
      · exact .quiet rfl rfl rfl
      · exact .quiet rfl rfl rfl
    have hreplaced : Logs f₁ f₂ := by
      rw [hf₂]
      apply Logs.record <;> rfl
    exact (Logs.trans ⟨[], hstopped⟩ hreplaced).trans (logs_dropIfOrphaned f₂ t)
  | assigns _ _ _ _ => apply Logs.record <;> rfl
  | @turns _ around actor dt run shift _ _ _ hends =>
    obtain ⟨prints, hprints, -⟩ := f.records_recordPrints run.task actor (run.execution.turn around actor dt).output
    obtain ⟨last, hlast, -⟩ := hends.records
    exact ⟨prints ++ last, hprints.trans hlast⟩
  | interrupts _ => apply Logs.record <;> rfl

/-! ## Stamps in order -/

/-- The events of a tick. -/
def inTick (events : List TaskEvent) (tick : UInt64) : List TaskEvent :=
  events.filter (·.tick == tick)

/-- **The stamps of all events so far are in order**: the ticks come in their order up to that of the foreman, and
the events of each are numbered from zero on. The foreman has the number of the next one. -/
structure Stamped (events : List TaskEvent) (f : Foreman) : Prop where
  ordered : events.Pairwise fun e e' => e.tick ≤ e'.tick
  past : ∀ e ∈ events, e.tick ≤ f.tick
  numbered : ∀ tick, (inTick events tick).map (·.sequence) =
    (List.range (inTick events tick).length).map ordinal
  next : f.sequence = ordinal (inTick events f.tick).length

theorem stamped_new {maxSteps : UInt32} : Stamped [] { maxSteps } where
  ordered := .nil
  past _ he := absurd he List.not_mem_nil
  numbered _ := rfl
  next := rfl

variable {events events' : List TaskEvent}

theorem Stamped.congr (h : Stamped events f) (htick : f'.tick = f.tick) (hsequence : f'.sequence = f.sequence) :
    Stamped events f' where
  ordered := h.ordered
  past := htick ▸ h.past
  numbered := h.numbered
  next := by rw [hsequence, htick, h.next]

/-- An event gets the next number of its tick. -/
theorem Stamped.record (h : Stamped events f) (type : EventType) (task : TaskId) (actor : Option ActorId)
    (details : Option Json) :
    Stamped (events ++ [f.event type task actor details]) (f.record type task actor details) := by
  obtain ⟨e, he⟩ : ∃ e, e = f.event type task actor details := ⟨_, rfl⟩
  have hetick : e.tick = f.tick := by rw [he]; rfl
  have hesequence : e.sequence = f.sequence := by rw [he]; rfl
  rw [← he]
  have hsame : inTick (events ++ [e]) f.tick = inTick events f.tick ++ [e] := by
    simp [inTick, hetick]
  have hother : ∀ tick, f.tick ≠ tick → inTick (events ++ [e]) tick = inTick events tick := by
    intro tick hne
    simp [inTick, hetick, hne]
  refine ⟨?_, ?_, ?_, ?_⟩
  · refine List.pairwise_append.mpr ⟨h.ordered, List.pairwise_singleton _ _, fun a ha b hb => ?_⟩
    rw [List.mem_singleton.mp hb, hetick]
    exact h.past a ha
  · intro a ha
    rcases List.mem_append.mp ha with ha | ha
    · exact h.past a ha
    · rw [List.mem_singleton.mp ha, hetick]
      exact UInt64.le_refl _
  · intro tick
    by_cases htick : f.tick = tick
    · rw [← htick, hsame, List.map_append, h.numbered, List.length_append, List.length_singleton, List.range_succ,
        List.map_append, List.map_singleton, List.map_singleton, hesequence, h.next]
    · rw [hother tick htick]
      exact h.numbered tick
  · show successor f.sequence = ordinal (inTick (events ++ [e]) f.tick).length
    rw [hsame, List.length_append, List.length_singleton, ordinal, h.next]

theorem Stamped.records (h : Stamped events f) (hrecords : Records f events' f') : Stamped (events ++ events') f' := by
  induction hrecords generalizing events with
  | quiet _ htick hsequence =>
    rw [List.append_nil]
    exact h.congr htick hsequence
  | record => exact h.record _ _ _ _
  | trans _ _ ih ih' =>
    rw [← List.append_assoc]
    exact ih' (ih h)

/-- In a new tick the numbers start over. -/
theorem Stamped.beginTick (h : Stamped events f) {tick : UInt64} (hlater : f.tick < tick) :
    Stamped events (f.beginTick tick) where
  ordered := h.ordered
  past e he := UInt64.le_of_lt (UInt64.lt_of_le_of_lt (h.past e he) hlater)
  numbered := h.numbered
  next := by
    have hnone : inTick events tick = [] := by
      refine List.filter_eq_nil_iff.mpr fun e he htick => ?_
      rw [beq_iff_eq] at htick
      have hlt := UInt64.lt_of_le_of_lt (h.past e he) hlater
      rw [htick] at hlt
      exact UInt64.lt_irrefl tick hlt
    show 0 = ordinal (inTick events tick).length
    rw [hnone]
    rfl

/-! ## Reading the stamps -/

/-- The order of stamps: by tick, and within a tick by number. -/
def Earlier (e e' : TaskEvent) : Prop :=
  e.tick < e'.tick ∨ e.tick = e'.tick ∧ e.sequence < e'.sequence

variable (hfew : ∀ tick, (inTick events tick).length < 18446744073709551616)

include hfew

/-- The events of each tick have the numbers from zero on. -/
theorem Stamped.numbered_toNat (h : Stamped events f) (tick : UInt64) :
    (inTick events tick).map (·.sequence.toNat) = List.range (inTick events tick).length := by
  have hnumbered := congrArg (List.map UInt64.toNat) (h.numbered tick)
  rw [List.map_map, List.map_map] at hnumbered
  refine hnumbered.trans ?_
  refine (List.map_congr_left fun n hn => ?_).trans (List.map_id _)
  exact toNat_ordinal (Nat.lt_trans (List.mem_range.mp hn) (hfew tick))

/-- **Every event is earlier than those recorded after it.** -/
theorem Stamped.pairwise (h : Stamped events f) : events.Pairwise Earlier := by
  refine List.pairwise_iff_forall_sublist.mpr fun {e e'} hsub => ?_
  have hle := List.pairwise_iff_forall_sublist.mp h.ordered hsub
  by_cases htick : e.tick = e'.tick
  · refine .inr ⟨htick, ?_⟩
    -- both are events of one tick, where the numbers go up
    have hpair : [e.sequence, e'.sequence].Sublist ((inTick events e.tick).map (·.sequence)) := by
      have hfilter := (hsub.filter (·.tick == e.tick)).map (·.sequence)
      simpa [inTick, htick] using hfilter
    rw [h.numbered] at hpair
    have hup : ((List.range (inTick events e.tick).length).map ordinal).Pairwise (· < ·) := by
      refine List.pairwise_map.mpr (List.pairwise_lt_range.imp_of_mem fun {n m} _ hm hlt => ?_)
      exact ordinal_lt hlt (Nat.lt_trans (List.mem_range.mp hm) (hfew e.tick))
    exact List.pairwise_iff_forall_sublist.mp hup hpair
  · exact .inl (UInt64.lt_of_le_of_ne hle htick)

end Foreman

end TaskScript
