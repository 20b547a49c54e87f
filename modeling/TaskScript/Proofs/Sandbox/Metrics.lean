import Mathlib.Data.List.Nodup
import TaskScript.Proofs.Execution.Requests
import TaskScript.Proofs.Foreman.Clock
import TaskScript.Proofs.Sandbox.Coupling

/-!
# `Proofs.Sandbox.Metrics`: what is counted in a tick

A tick counts the actors that it visits and the tasks that its turns complete or fail, and the foreman records what
happens to tasks. The two accounts agree, and nothing happens twice to anybody: an actor is visited once; it gets a
task only if it has none; a second turn comes only if the first has left the task running, so one of them ends it at
most; and that second turn has no time, so it can ask the actor for nothing.

The metrics keep numbers only. To say what they are the numbers of, the tick is told again with the shifts of all
turns in a row (`tickShifts`); to forget the shifts gives the tick (`advanceTime_eq_tickShifts`).

## Contents
- `Report.ending?`, `Foreman.recordsOf_runActor`, `requests_of_runActor`: **turns**.
- `visitShifts`, `rowShifts`, `tickShifts`, `advanceTime_eq_tickShifts`: **the shifts of a tick**.
- `Tallied`, `tallied_of_visitShifts`, `tallied_of_rowShifts`: **nothing happens twice**.
- `metrics_tell_what_happened`: **the metrics of a tick**.
-/

namespace TaskScript

open Std

/-! ## Turns -/

theorem countP_ending? (shift : Shift) (type : EventType) :
    [shift].countP (·.report.ending? == some type) = shift.report.ending?.toList.countP (· == type) := by
  rw [List.countP_singleton]
  cases shift.report.ending? with
  | none => rfl
  | some t =>
    rw [Option.toList_some, List.countP_singleton]
    rfl

theorem Report.ending?_cases (report : Report) :
    report.ending? = none ∨ report.ending? = some .completed ∨ report.ending? = some .failed := by
  cases report with
  | idle => exact .inl rfl
  | running _ => exact .inl rfl
  | completed _ => exact .inr (.inl rfl)
  | failed _ _ => exact .inr (.inr rfl)

namespace Foreman

variable {f f' : Foreman} {around : Surroundings} {actor : ActorId} {dt : Float} {shift : Shift}

/-- **Events of an actor are recorded**, of these types and in this order, apart from what was printed. -/
def RecordsOf (f : Foreman) (actor : ActorId) (types : List EventType) (f' : Foreman) : Prop :=
  ∃ events, f'.events.toList = f.events.toList ++ events ∧ (∀ e ∈ events, e.actor = some actor) ∧
    (events.map (·.type)).filter (· != .printed) = types

theorem recordsOf_nil (h : f'.events = f.events) : RecordsOf f actor [] f' :=
  ⟨[], by rw [h, List.append_nil], List.forall_mem_nil _, rfl⟩

theorem RecordsOf.trans {f'' : Foreman} {types types' : List EventType} (h : RecordsOf f actor types f')
    (h' : RecordsOf f' actor types' f'') : RecordsOf f actor (types ++ types') f'' := by
  obtain ⟨events, hlog, hactor, htypes⟩ := h
  obtain ⟨events', hlog', hactor', htypes'⟩ := h'
  refine ⟨events ++ events', by rw [hlog', hlog, List.append_assoc], fun e he => ?_, ?_⟩
  · rcases List.mem_append.mp he with he | he
    · exact hactor e he
    · exact hactor' e he
  · rw [List.map_append, List.filter_append, htypes, htypes']

/-- **What a turn records**: apart from what was printed just the event that its report tells. -/
theorem recordsOf_runActor (h : f.runActor around actor dt = .ok shift) :
    RecordsOf f actor shift.report.ending?.toList shift.foreman := by
  cases hrun : f.running[actor]? with
  | none =>
    cases shift_of_idle hrun h
    exact recordsOf_nil rfl
  | some run =>
    obtain ⟨prints, hprinted, hprints⟩ :=
      f.records_recordPrints run.task actor (run.execution.turn around actor dt).output
    obtain ⟨last, hlast, hactor, htypes⟩ := (ends_of_runActor hrun h).records
    have hsilent : (prints.map (·.type)).filter (· != .printed) = [] := by
      refine List.filter_eq_nil_iff.mpr fun type htype => ?_
      obtain ⟨e, he, rfl⟩ := List.mem_map.mp htype
      rw [(hprints e he).2]
      decide
    have hended : (last.map (·.type)).filter (· != .printed) = shift.report.ending?.toList := by
      rw [htypes]
      cases shift.report <;> rfl
    have hquiet : RecordsOf f actor [] (f.recordPrints run.task actor _) :=
      ⟨prints, hprinted.log, fun e he => (hprints e he).1, hsilent⟩
    exact hquiet.trans ⟨last, hlast.log, hactor, hended⟩

/-- **What a turn asks for**: one activity of its actor at most, and nothing without time. -/
theorem requests_of_runActor (hstanding : ∀ run, f.running[actor]? = some run → run.execution.Standing)
    (h : f.runActor around actor dt = .ok shift) :
    shift.requests.length ≤ 1 ∧ (∀ r ∈ shift.requests, r.actor = actor) ∧
      (¬ 0.0 < dt → shift.requests = []) := by
  cases hrun : f.running[actor]? with
  | none =>
    cases shift_of_idle hrun h
    exact ⟨Nat.zero_le 1, fun r hr => absurd hr List.not_mem_nil, fun _ => rfl⟩
  | some run =>
    have hstands := hstanding run hrun
    rw [(gives_of_runActor hrun h).1]
    rcases hstands.requests_turn_cases around actor dt with hnone | ⟨r, hone, hactor⟩
    · rw [hnone]
      exact ⟨Nat.zero_le 1, List.forall_mem_nil _, fun _ => rfl⟩
    · refine ⟨hone ▸ Nat.le_refl 1, hone ▸ List.forall_mem_singleton.mpr hactor, ?_⟩
      exact hstands.requests_turn_of_no_time around actor

/-- An actor that has a task after its turn has not ended one in it. -/
theorem ending?_of_busy (h : f.runActor around actor dt = .ok shift)
    (hbusy : (shift.foreman.currentTask? actor).isSome = true) : shift.report.ending? = none := by
  cases hrun : f.running[actor]? with
  | none =>
    cases shift_of_idle hrun h
    rfl
  | some run =>
    have hidle : ∀ g : Foreman, g.running = f.running.erase actor → g.currentTask? actor = none := by
      intro g hg
      rw [currentTask?_of_erase hg, if_pos rfl]
    cases (gives_of_runActor hrun h).2 with
    | goesOn _ hreport _ =>
      rw [hreport]
      rfl
    | completes _ _ hrunning =>
      rw [hidle _ hrunning] at hbusy
      cases hbusy
    | fails _ _ hrunning =>
      rw [hidle _ hrunning] at hbusy
      cases hbusy

end Foreman

/-! ## What is counted -/

/-- What is counted in some visits. -/
def Metrics.tallied (m : Metrics) (visits : Nat) (shifts : List Shift) : Metrics :=
  { m with
    processedActors := m.processedActors + visits
    completedTasks := m.completedTasks + shifts.countP (·.report.ending? == some .completed)
    failedTasks := m.failedTasks + shifts.countP (·.report.ending? == some .failed) }

theorem Metrics.tallied_tallied (m : Metrics) (n n' : Nat) (shifts shifts' : List Shift) :
    (m.tallied n shifts).tallied n' shifts' = m.tallied (n + n') (shifts ++ shifts') := by
  simp only [Metrics.tallied, List.countP_append, Nat.add_assoc]

/-- An actor is assigned a task by the event. -/
def TaskEvent.assigns (actor : ActorId) (e : TaskEvent) : Bool :=
  e.actor == some actor && e.type == .assigned

/-- The task of an actor ends by the event. -/
def TaskEvent.ends (actor : ActorId) (e : TaskEvent) : Bool :=
  e.actor == some actor && (e.type == .completed || e.type == .failed)

/-- What happens to some items of one actor happens to that actor, and once if there is one such item. -/
theorem countP_le_count {α : Type} {xs : List α} {p : α → Bool} {actor b : ActorId}
    (hactor : ∀ x ∈ xs, p x = true → actor = b) (hone : xs.countP p ≤ 1) : xs.countP p ≤ [actor].count b := by
  by_cases hb : actor = b
  · subst hb
    rwa [List.count_singleton_self]
  · have hnone : xs.countP p = 0 := List.countP_eq_zero.mpr fun x hx hp => hb (hactor x hx hp)
    rw [hnone]
    exact Nat.zero_le _

namespace World

theorem mem_livingActors_iff {w : World} {actor : ActorId} : actor ∈ w.livingActors ↔ w.lives actor = true := by
  refine ⟨lives_of_mem_livingActors, fun hlives => ?_⟩
  obtain ⟨a, ha, halive⟩ := (Option.any_eq_true _ _).mp hlives
  refine List.mem_map.mpr ⟨(actor, a), List.mem_filter.mpr ⟨?_, halive⟩, rfl⟩
  exact ExtTreeMap.mem_toList_iff_getElem?_eq_some.mpr ha

theorem nodup_livingActors (w : World) : w.livingActors.Nodup := by
  refine List.pairwise_map.mpr (List.Pairwise.filter _ ?_)
  refine ExtTreeMap.distinct_keys_toList.imp fun {x y} hne heq => hne ?_
  exact Std.compare_eq_iff_eq.mpr heq

end World

namespace Sandbox

variable {s s' : Sandbox} {dt : Float} {actor : ActorId} {a : ActorState} {m : Metrics} {row : List ActorId}
  {events events' : List TaskEvent} {shifts shifts' : List Shift}

/-! ## The shifts of a tick -/

/-- A visit to an actor, with the shifts of its turns. -/
def visitShifts (dt : Float) (s : Sandbox) (actor : ActorId) : Except Overflow (Sandbox × List Shift) :=
  match s.world.actors[actor]? with
  | none => .ok (s, [])
  | some a => do
    let s := s.offered actor a
    let shift ← s.foreman.runActor s.world.surroundings actor dt
    let s := s.absorbed actor shift
    let (world, finished) ← s.world.advanceActivity actor dt
    let s := { s with world }
    if finished && (s.foreman.currentTask? actor).isSome then
      let last ← s.foreman.settleActor s.world.surroundings actor
      return (s.absorbed actor last, [shift, last])
    else return (s, [shift])

/-- Visits in a row, with the shifts of all turns. -/
def rowShifts (dt : Float) : List ActorId → Sandbox → Except Overflow (Sandbox × List Shift)
  | [], s => .ok (s, [])
  | actor :: rest, s => do
    let (s, shifts) ← visitShifts dt s actor
    let (s, more) ← rowShifts dt rest s
    return (s, shifts ++ more)

/-- **A tick, with the shifts of all turns.** -/
def tickShifts (s : Sandbox) (dt : Float) : Except Overflow (Sandbox × List Shift) :=
  rowShifts (tickTime dt) s.world.livingActors s.ticked

theorem absorb_eq (s : Sandbox) (actor : ActorId) (shift : Shift) (m : Metrics) :
    s.absorb actor shift m = (s.absorbed actor shift, m.tallied 0 [shift]) := by
  refine Prod.ext (s.absorb_fst actor shift m) ?_
  unfold absorb Metrics.tallied
  cases hreport : shift.report <;> simp [hreport, Report.ending?]

/-- To forget the shifts of a visit gives the visit. -/
theorem visitActor_eq_visitShifts (ha : s.world.actors[actor]? = some a) (m : Metrics) :
    visitActor dt (s, m) actor = (visitShifts dt s actor).map fun r => (r.1, m.tallied 1 r.2) := by
  unfold visitActor visitShifts
  simp only [ha]
  rw [← offered]
  cases (s.offered actor a).foreman.runActor (s.offered actor a).world.surroundings actor dt with
  | error e => rfl
  | ok shift =>
    simp only [bind, Except.bind, absorb_eq]
    cases ((s.offered actor a).absorbed actor shift).world.advanceActivity actor dt with
    | error e => rfl
    | ok result =>
      dsimp only
      split
      · split
        · rfl
        · rw [Metrics.tallied_tallied]
          rfl
      · rfl

theorem visited_of_visitShifts (ha : s.world.actors[actor]? = some a)
    (h : visitShifts dt s actor = .ok (s', shifts)) : Visited s dt actor a s' := by
  have hvisit : visitActor dt (s, { tick := s.tick }) actor = _ := visitActor_eq_visitShifts ha _
  rw [h] at hvisit
  exact visited_of_visitActor ha hvisit

/-- To forget the shifts of a row of visits to living actors gives the row. -/
theorem foldlM_visitActor_eq_rowShifts (hlives : ∀ b ∈ row, s.world.lives b = true) (m : Metrics) :
    row.foldlM (visitActor dt) (s, m) = (rowShifts dt row s).map fun r => (r.1, m.tallied row.length r.2) := by
  induction row generalizing s m with
  | nil => rfl
  | cons actor rest ih =>
    have hlive := hlives actor List.mem_cons_self
    obtain ⟨a, hliving⟩ := World.lives_iff.mp hlive
    have ha := (World.living?_eq_some_iff.mp hliving).1
    rw [List.foldlM_cons, visitActor_eq_visitShifts ha, rowShifts]
    cases hvisit : visitShifts dt s actor with
    | error e => rfl
    | ok result =>
      obtain ⟨s₁, shifts⟩ := result
      have hlives₁ : ∀ b ∈ rest, s₁.world.lives b = true := fun b hb =>
        ((visited_of_visitShifts ha hvisit).lives hlive b).trans (hlives b (List.mem_cons_of_mem _ hb))
      show rest.foldlM (visitActor dt) (s₁, m.tallied 1 shifts) = _
      rw [ih hlives₁]
      cases hrest : rowShifts dt rest s₁ with
      | error e => simp [bind, Except.bind, Except.map, hrest]
      | ok result =>
        simp only [bind, Except.bind, Except.map, hrest, Metrics.tallied_tallied, List.length_cons, Nat.add_comm 1]
        rfl

/-- **To forget the shifts of a tick gives the tick**, and its metrics are counted from them. -/
theorem advanceTime_eq_tickShifts (s : Sandbox) (dt : Float) :
    s.advanceTime dt = (s.tickShifts dt).map fun r =>
      (r.1, ({ tick := successor s.tick } : Metrics).tallied s.world.livingActors.length r.2) := by
  rw [advanceTime_eq, tickShifts]
  exact foldlM_visitActor_eq_rowShifts (s := s.ticked) (fun b hb => World.lives_of_mem_livingActors hb) _

/-! ## Nothing happens twice -/

/-- **What a row of visits records and asks for**: the events name actors of the row, each actor is assigned a task,
ends one, and is asked for an activity no more often than it is visited, and the events by which tasks end are those
that the shifts tell. -/
structure Tallied (row : List ActorId) (events : List TaskEvent) (shifts : List Shift) : Prop where
  named : ∀ e ∈ events, ∃ b ∈ row, e.actor = some b
  assigned : ∀ b, events.countP (·.assigns b) ≤ row.count b
  ended : ∀ b, events.countP (·.ends b) ≤ row.count b
  asked : ∀ r ∈ shifts.flatMap (·.requests), r.actor ∈ row
  asked_once : ∀ b, (shifts.flatMap (·.requests)).countP (·.actor == b) ≤ row.count b
  told : ∀ type, type = .completed ∨ type = .failed →
    events.countP (·.type == type) = shifts.countP (·.report.ending? == some type)

theorem tallied_nil : Tallied [] [] [] where
  named := List.forall_mem_nil _
  assigned _ := Nat.le_refl 0
  ended _ := Nat.le_refl 0
  asked := List.forall_mem_nil _
  asked_once _ := Nat.le_refl 0
  told _ _ := rfl

theorem Tallied.append {row' : List ActorId} (h : Tallied row events shifts) (h' : Tallied row' events' shifts') :
    Tallied (row ++ row') (events ++ events') (shifts ++ shifts') where
  named e he := by
    rcases List.mem_append.mp he with he | he
    · obtain ⟨b, hb, heq⟩ := h.named e he
      exact ⟨b, List.mem_append_left _ hb, heq⟩
    · obtain ⟨b, hb, heq⟩ := h'.named e he
      exact ⟨b, List.mem_append_right _ hb, heq⟩
  assigned b := by
    rw [List.countP_append, List.count_append]
    exact Nat.add_le_add (h.assigned b) (h'.assigned b)
  ended b := by
    rw [List.countP_append, List.count_append]
    exact Nat.add_le_add (h.ended b) (h'.ended b)
  asked r hr := by
    rw [List.flatMap_append] at hr
    rcases List.mem_append.mp hr with hr | hr
    · exact List.mem_append_left _ (h.asked r hr)
    · exact List.mem_append_right _ (h'.asked r hr)
  asked_once b := by
    rw [List.flatMap_append, List.countP_append, List.count_append]
    exact Nat.add_le_add (h.asked_once b) (h'.asked_once b)
  told type htype := by
    rw [List.countP_append, List.countP_append, h.told type htype, h'.told type htype]

/-- What is recorded and asked for in a visit to one actor. -/
theorem tallied_single {offer ending : Option EventType} (hactor : ∀ e ∈ events, e.actor = some actor)
    (htypes : (events.map (·.type)).filter (· != .printed) = offer.toList ++ ending.toList)
    (hoffer : offer = none ∨ offer = some .assigned)
    (hending : ending = none ∨ ending = some .completed ∨ ending = some .failed)
    (htold : ∀ type, shifts.countP (·.report.ending? == some type) = ending.toList.countP (· == type))
    (hasked : ∀ r ∈ shifts.flatMap (·.requests), r.actor = actor)
    (honce : (shifts.flatMap (·.requests)).length ≤ 1) : Tallied [actor] events shifts := by
  -- printed values aside, the events of the visit are those of the offer and of the ending
  have hcount : ∀ p : EventType → Bool, p .printed = false →
      events.countP (fun e => p e.type) = (offer.toList ++ ending.toList).countP p := by
    intro p hp
    have hprinted : (fun type => p type && type != .printed) = p := by
      funext type
      cases type <;> simp [hp]
    rw [← htypes, List.countP_filter, hprinted, List.countP_map]
    rfl
  have hof : ∀ (p : EventType → Bool) (b : ActorId), p .printed = false →
      (offer.toList ++ ending.toList).countP p ≤ 1 →
      events.countP (fun e => e.actor == some b && p e.type) ≤ [actor].count b := by
    intro p b hp hle
    refine countP_le_count (fun e he hpe => ?_) ?_
    · have hb := eq_of_beq (Bool.and_eq_true_iff.mp hpe).1
      exact Option.some.inj ((hactor e he).symm.trans hb)
    · refine Nat.le_trans (List.countP_mono_left fun e _ hpe => (Bool.and_eq_true_iff.mp hpe).2) ?_
      rw [hcount p hp]
      exact hle
  refine ⟨fun e he => ⟨actor, List.mem_singleton_self actor, hactor e he⟩, fun b => ?_, fun b => ?_,
    fun r hr => ?_, fun b => ?_, fun type htype => ?_⟩
  · refine hof (· == .assigned) b rfl ?_
    rcases hoffer with rfl | rfl <;> rcases hending with rfl | rfl | rfl <;> decide
  · refine hof (fun type => type == .completed || type == .failed) b rfl ?_
    rcases hoffer with rfl | rfl <;> rcases hending with rfl | rfl | rfl <;> decide
  · rw [hasked r hr]
    exact List.mem_singleton_self actor
  · refine countP_le_count (fun r hr hb => ?_) (Nat.le_trans List.countP_le_length honce)
    rw [← hasked r hr]
    exact eq_of_beq hb
  · have hne : type ≠ .printed ∧ type ≠ .assigned := by
      rcases htype with rfl | rfl <;> exact ⟨by decide, by decide⟩
    have hnone : offer.toList.countP (· == type) = 0 := by
      rcases hoffer with rfl | rfl
      · rfl
      · simp [hne.2.symm]
    rw [hcount (· == type) (by simp [hne.1.symm]), List.countP_append, hnone, Nat.zero_add, htold]

/-- An idle actor is assigned a task, or nothing is recorded. -/
theorem recordsOf_offered (ho : s.Orderly) (actor : ActorId) (a : ActorState) :
    ∃ offer : Option EventType, (offer = none ∨ offer = some .assigned) ∧
      Foreman.RecordsOf s.foreman actor offer.toList (s.offered actor a).foreman := by
  unfold offered
  split
  · rcases Foreman.assignIdle_cases ho.handed.sound actor a.group with
      hsame | ⟨_, t, board, task, -, -, -, -, heq⟩
    · exact ⟨none, .inl rfl, Foreman.recordsOf_nil (congrArg Foreman.events hsame)⟩
    · refine ⟨some .assigned, .inr rfl, ?_⟩
      rw [heq]
      exact ⟨_, Array.toList_push, List.forall_mem_singleton.mpr rfl, rfl⟩
  · exact ⟨none, .inl rfl, Foreman.recordsOf_nil rfl⟩

/-- The turns of a visit: one, and another if the first has left the actor with a task. -/
theorem turns_of_visitShifts (ha : s.world.actors[actor]? = some a) (h : visitShifts dt s actor = .ok (s', shifts)) :
    ∃ shift world finished,
      (s.offered actor a).foreman.runActor (s.offered actor a).world.surroundings actor dt = .ok shift ∧
      ((s.offered actor a).absorbed actor shift).world.advanceActivity actor dt = .ok (world, finished) ∧
      (s'.foreman = shift.foreman ∧ shifts = [shift] ∨
        ∃ last, (shift.foreman.currentTask? actor).isSome = true ∧
          shift.foreman.settleActor world.surroundings actor = .ok last ∧
          s'.foreman = last.foreman ∧ shifts = [shift, last]) := by
  unfold visitShifts at h
  simp only [ha] at h
  obtain ⟨shift, hturn, h⟩ := bind_eq_ok h
  obtain ⟨⟨world, finished⟩, hadvance, h⟩ := bind_eq_ok h
  refine ⟨shift, world, finished, hturn, hadvance, ?_⟩
  split at h
  · rename_i hbusy
    obtain ⟨last, hsettle, h⟩ := bind_eq_ok h
    cases h
    exact .inr ⟨last, (Bool.and_eq_true_iff.mp hbusy).2, hsettle, rfl, rfl⟩
  · cases h
    exact .inl ⟨rfl, rfl⟩

/-- **One visit.** If there are two turns, the first has not ended the task, and the second has no time. -/
theorem tallied_of_visitShifts (hc : Coupled s.world s.foreman) (ho : s.Orderly)
    (hliving : s.world.living? actor = some a) (h : visitShifts dt s actor = .ok (s', shifts)) :
    ∃ events, s'.foreman.events.toList = s.foreman.events.toList ++ events ∧ Tallied [actor] events shifts := by
  obtain ⟨offer, hoffer, hoffered⟩ := recordsOf_offered ho actor a
  obtain ⟨shift, world, finished, hturn, hadvance, hlast⟩ :=
    turns_of_visitShifts (World.living?_eq_some_iff.mp hliving).1 h
  have hrecorded := hoffered.trans (Foreman.recordsOf_runActor hturn)
  obtain ⟨honce, hasked, -⟩ := Foreman.requests_of_runActor ((hc.offered ho hliving) actor).standing hturn
  rcases hlast with ⟨hforeman, rfl⟩ | ⟨last, hbusy, hsettle, hforeman, rfl⟩
  · obtain ⟨events, hlog, hactor, htypes⟩ := hrecorded
    rw [← List.append_nil shift.requests] at honce hasked
    exact ⟨events, hforeman ▸ hlog, tallied_single hactor htypes hoffer shift.report.ending?_cases
      (countP_ending? shift) hasked honce⟩
  · have hready : s.readied dt actor a = .ok ((s.offered actor a).absorbed actor shift) := by
      rw [readied, hturn]
      rfl
    have hstanding := ((hc.readied ho hliving hready) actor).standing
    have hquiet := (Foreman.requests_of_runActor hstanding hsettle).2.2 (by decide)
    have hongoing := Foreman.ending?_of_busy hturn hbusy
    rw [hongoing, Option.toList_none, List.append_nil] at hrecorded
    obtain ⟨events, hlog, hactor, htypes⟩ := hrecorded.trans (Foreman.recordsOf_runActor hsettle)
    have hrequests : [shift, last].flatMap (·.requests) = shift.requests := by
      rw [List.flatMap_cons, List.flatMap_singleton, hquiet, List.append_nil]
    refine ⟨events, hforeman ▸ hlog, tallied_single hactor htypes hoffer last.report.ending?_cases (fun type => ?_)
      (hrequests ▸ hasked) (hrequests ▸ honce)⟩
    rw [List.countP_cons, hongoing, countP_ending?]
    rfl

/-- **A row of visits.** -/
theorem tallied_of_rowShifts (hc : Coupled s.world s.foreman) (ho : s.Orderly)
    (hlives : ∀ b ∈ row, s.world.lives b = true) (h : rowShifts dt row s = .ok (s', shifts)) :
    ∃ events, s'.foreman.events.toList = s.foreman.events.toList ++ events ∧ Tallied row events shifts := by
  induction row generalizing s shifts with
  | nil =>
    cases h
    exact ⟨[], (List.append_nil _).symm, tallied_nil⟩
  | cons actor rest ih =>
    obtain ⟨⟨s₁, first⟩, hvisit, h⟩ := bind_eq_ok h
    obtain ⟨⟨s₂, more⟩, hrest, h⟩ := bind_eq_ok h
    cases h
    have hlive := hlives actor List.mem_cons_self
    obtain ⟨a, hliving⟩ := World.lives_iff.mp hlive
    have hvisited := visited_of_visitShifts (World.living?_eq_some_iff.mp hliving).1 hvisit
    have hlives₁ : ∀ b ∈ rest, s₁.world.lives b = true := fun b hb =>
      (hvisited.lives hlive b).trans (hlives b (List.mem_cons_of_mem _ hb))
    obtain ⟨events, hlog, htallied⟩ := tallied_of_visitShifts hc ho hliving hvisit
    obtain ⟨events', hlog', htallied'⟩ := ih (hc.visited ho hliving hvisited) (ho.visited hvisited) hlives₁ hrest
    exact ⟨events ++ events', by rw [hlog', hlog, List.append_assoc], htallied.append htallied'⟩

/-! ## The metrics of a tick -/

/-- **The metrics of a tick tell what has happened in it**. As many actors are processed as there are that live; as
many tasks are completed, and have failed, as there are events in the tick that say so. In the tick no actor is
assigned a task twice, none is asked for an activity twice, and none has tasks that end twice. Nobody dies in it, and
of actors that do not live there is no event, nor are they asked for anything. -/
theorem metrics_tell_what_happened (h : Reachable s) (htick : s.advanceTime dt = .ok (s', m)) :
    ∃ events shifts, s'.foreman.events.toList = s.foreman.events.toList ++ events ∧
      s.tickShifts dt = .ok (s', shifts) ∧
      m.processedActors = s.world.livingActors.length ∧ s.world.livingActors.Nodup ∧
      (∀ actor, actor ∈ s.world.livingActors ↔ s.world.lives actor = true) ∧
      m.completedTasks = events.countP (·.type == .completed) ∧
      m.failedTasks = events.countP (·.type == .failed) ∧
      (∀ actor, events.countP (·.assigns actor) ≤ 1 ∧
        (shifts.flatMap (·.requests)).countP (·.actor == actor) ≤ 1 ∧ events.countP (·.ends actor) ≤ 1) ∧
      (∀ actor, s'.world.lives actor = s.world.lives actor) ∧
      (∀ e ∈ events, ∃ actor, e.actor = some actor ∧ s.world.lives actor = true) ∧
      ∀ r ∈ shifts.flatMap (·.requests), s.world.lives r.actor = true := by
  have heq := s.advanceTime_eq_tickShifts dt
  rw [htick] at heq
  cases hshifts : s.tickShifts dt with
  | error e =>
    rw [hshifts] at heq
    cases heq
  | ok result =>
    obtain ⟨s₁, shifts⟩ := result
    rw [hshifts] at heq
    cases heq
    obtain ⟨events, hlog, htallied⟩ := tallied_of_rowShifts (s := s.ticked) h.coupled h.orderly.ticked
      (fun b hb => World.lives_of_mem_livingActors hb) hshifts
    have hnodup := s.world.nodup_livingActors
    have hcount := List.nodup_iff_count_le_one.mp hnodup
    refine ⟨events, shifts, hlog, rfl, Nat.zero_add _, hnodup, fun _ => World.mem_livingActors_iff, ?_, ?_,
      fun actor => ⟨?_, ?_, ?_⟩, ?_, fun e he => ?_, fun r hr => ?_⟩
    · rw [htallied.told .completed (.inl rfl)]
      exact Nat.zero_add _
    · rw [htallied.told .failed (.inr rfl)]
      exact Nat.zero_add _
    · exact Nat.le_trans (htallied.assigned actor) (hcount actor)
    · exact Nat.le_trans (htallied.asked_once actor) (hcount actor)
    · exact Nat.le_trans (htallied.ended actor) (hcount actor)
    · refine keeps_of_advanceTime (P := fun s₁ => ∀ b, s₁.world.lives b = s.world.lives b) htick (fun _ => rfl) ?_
      intro s₁ s₂ actor a hliving hvisited hlives b
      exact (hvisited.lives (World.lives_iff.mpr ⟨a, hliving⟩) b).trans (hlives b)
    · obtain ⟨b, hb, hactor⟩ := htallied.named e he
      exact ⟨b, hactor, World.lives_of_mem_livingActors hb⟩
    · exact World.lives_of_mem_livingActors (htallied.asked r hr)

/-- In one tick of two seconds the actor of the camp gets its task, works, and completes the task. -/
theorem camp_metrics :
    Reachable camp ∧ ∃ m events, camp.advanceTime 2.0 = .ok (camp.after 2.0, m) ∧
      (camp.after 2.0).foreman.events.toList = camp.foreman.events.toList ++ events ∧
      m.processedActors = 1 ∧ m.completedTasks = events.countP (·.type == .completed) ∧
      events.countP (·.assigns ⟨1⟩) ≤ 1 ∧ events.countP (·.ends ⟨1⟩) ≤ 1 ∧
      (camp.after 2.0).foreman.events.toList.map (·.type) = [.scheduled, .assigned, .completed] := by
  obtain ⟨m, htick⟩ : ∃ m, camp.advanceTime 2.0 = .ok (camp.after 2.0, m) := advanceTime_after (by decide +kernel)
  obtain ⟨events, shifts, hlog, -, hprocessed, -, -, hcompleted, -, honce, -⟩ :=
    metrics_tell_what_happened reachable_camp htick
  obtain ⟨hassigned, -, hended⟩ := honce ⟨1⟩
  have hone : camp.world.livingActors.length = 1 := by decide
  exact ⟨reachable_camp, m, events, htick, hlog, hprocessed.trans hone, hcompleted, hassigned, hended,
    by decide +kernel⟩

end Sandbox

end TaskScript
