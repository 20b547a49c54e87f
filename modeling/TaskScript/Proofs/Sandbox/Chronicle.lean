import TaskScript.Proofs.Foreman.Clock
import TaskScript.Proofs.Sandbox.Operated

/-!
# `Proofs.Sandbox.Chronicle`: events in one order

The clock is kept twice, by the sandbox and by its foreman. A tick sets both to the next number and lets the
foreman number its events from zero on; commands record their events in the tick that came last, and collecting
events is no matter for the clock. So all events of a sandbox, collected or not, are in one order.

The numbers stop at the largest one, so this is said of sandboxes that have not used them up.

## Contents
- `Chronicle`: a sandbox, with its ticks counted and the events that were collected from it.
- `chronicle_ofScenario`: **scenarios**.
- `Dated`, `Chronicle.dated`: the two clocks agree, and the stamps are in order.
- `events_in_order`: **events are in one order**.
-/

namespace TaskScript

namespace Foreman

variable {f f' : Foreman} {events : List TaskEvent} {maxSteps : UInt32}

theorem Stamped.logs (h : Stamped (events ++ f.events.toList) f) (hlogs : Logs f f') :
    Stamped (events ++ f'.events.toList) f' := by
  obtain ⟨recorded, hrecords⟩ := hlogs
  rw [hrecords.log, ← List.append_assoc]
  exact h.records hrecords

theorem Operation.Routine.ne_beginTick {op : Operation} (h : op.Routine) (tick : UInt64) : op ≠ .beginTick tick := by
  rintro rfl
  exact h

theorem Operated.logs (h : Operated f f') (hreach : Reachable maxSteps f) : Logs f f' := by
  induction h with
  | refl => exact .refl _
  | step hroutine hop _ ih =>
    have hfirst := (effect_perform hreach.sound_held.1 hop).logs hroutine.ne_beginTick
    exact hfirst.trans (ih (hreach.perform _ hop))

/-- To register a group is no matter for the clock. -/
theorem logs_registerGroup (f : Foreman) (g : GroupId) : Logs f (f.registerGroup g).1 :=
  (effect_registerGroup f g).logs fun _ heq => Operation.noConfusion heq

end Foreman

namespace Sandbox

open Foreman (Earlier inTick Stamped)

/-- **A sandbox with its past**: how many ticks there were, and the events that were collected. -/
inductive Chronicle : Nat → List TaskEvent → Sandbox → Prop
  | new (config : Config) : Chronicle 0 [] (.new config)
  | perform {n collected s} (c : Command) : Chronicle n collected s → Chronicle n collected (s.perform c).1
  | advanceTime {n collected s s' dt m} :
      Chronicle n collected s → s.advanceTime dt = .ok (s', m) → Chronicle (n + 1) collected s'
  | nextTaskId {n collected s} : Chronicle n collected s → Chronicle n collected s.nextTaskId.1
  | drainEvents {n collected s} :
      Chronicle n collected s →
      Chronicle n (collected ++ s.foreman.drainEvents.2) { s with foreman := s.foreman.drainEvents.1 }

variable {n : Nat} {collected : List TaskEvent} {s s' : Sandbox}

/-- A scenario is set up before the first tick, by commands. So what is said of a sandbox with its past is said of every
scenario that is accepted, and of all that becomes of it. -/
theorem chronicle_ofScenario {scenario : Scenario} (h : ofScenario scenario = .ok s) : Chronicle 0 [] s :=
  keeps_ofScenario (P := Chronicle 0 []) (fun _ c _ hs => hs.perform c) (.new scenario.config) h

/-- **The two clocks agree, and the stamps of all events are in order.** -/
structure Dated (n : Nat) (collected : List TaskEvent) (s : Sandbox) : Prop where
  reachable : ∃ maxSteps, Foreman.Reachable maxSteps s.foreman
  clock : s.foreman.tick = s.tick
  count : s.tick = ordinal n
  stamped : Stamped (collected ++ s.foreman.events.toList) s.foreman

theorem dated_new (config : Config) : Dated 0 [] (new config) where
  reachable := ⟨_, .new⟩
  clock := rfl
  count := rfl
  stamped := Foreman.stamped_new

/-- What records events is no matter for the clocks. -/
theorem Dated.logs (h : Dated n collected s) {maxSteps : UInt32} (hreach : Foreman.Reachable maxSteps s'.foreman)
    (hlogs : Foreman.Logs s.foreman s'.foreman) (htick : s'.tick = s.tick) : Dated n collected s' where
  reachable := ⟨maxSteps, hreach⟩
  clock := by
    obtain ⟨recorded, hrecords⟩ := hlogs
    rw [hrecords.tick, h.clock, htick]
  count := htick ▸ h.count
  stamped := h.stamped.logs hlogs

theorem Dated.handles (h : Dated n collected s) (hhandles : Handles s s') : Dated n collected s' := by
  obtain ⟨maxSteps, hreach⟩ := h.reachable
  exact h.logs (hhandles.operated.reachable hreach) (hhandles.operated.logs hreach) hhandles.tick

theorem Dated.perform (h : Dated n collected s) (c : Command) : Dated n collected (s.perform c).1 := by
  rcases (effect_perform s c).handles with hhandles | ⟨g, heq⟩
  · exact h.handles hhandles
  · rw [heq]
    obtain ⟨maxSteps, hreach⟩ := h.reachable
    exact h.logs (hreach.perform (.registerGroup g) rfl) (s.foreman.logs_registerGroup g) rfl

/-- A tick turns both clocks, as long as there is a number left. -/
theorem Dated.ticked (h : Dated n collected s) (hleft : n + 1 < 18446744073709551616) :
    Dated (n + 1) collected s.ticked where
  reachable := by
    obtain ⟨maxSteps, hreach⟩ := h.reachable
    exact ⟨maxSteps, hreach.perform (.beginTick (successor s.tick)) rfl⟩
  clock := rfl
  count := by rw [Sandbox.ticked, h.count, ordinal]
  stamped := by
    refine h.stamped.beginTick ?_
    rw [h.clock, h.count]
    exact ordinal_lt n.lt_succ_self hleft

/-- Collecting events takes them from the log to those collected. -/
theorem Dated.drainEvents (h : Dated n collected s) :
    Dated n (collected ++ s.foreman.drainEvents.2) { s with foreman := s.foreman.drainEvents.1 } where
  reachable := by
    obtain ⟨maxSteps, hreach⟩ := h.reachable
    exact ⟨maxSteps, hreach.drain⟩
  clock := h.clock
  count := h.count
  stamped := by
    show Stamped (collected ++ s.foreman.events.toList ++ []) _
    rw [List.append_nil]
    exact h.stamped.congr rfl rfl

theorem Chronicle.dated (h : Chronicle n collected s) (hticks : n < 18446744073709551616) : Dated n collected s := by
  induction h with
  | new config => exact dated_new config
  | perform c _ ih => exact (ih hticks).perform c
  | advanceTime _ htick ih =>
    have hbefore := ih (by omega)
    exact (hbefore.ticked hticks).handles (handles_advanceTime htick)
  | nextTaskId _ ih => exact (ih hticks).handles ⟨.refl _, rfl, rfl⟩
  | drainEvents _ ih => exact (ih hticks).drainEvents

/-- **Events are in one order.** Of all events of a sandbox, collected or not, each has an earlier stamp than those
recorded after it, and the events of each tick, those before the first one among them, are numbered from zero on
without a gap. Fewer ticks than there are numbers, and fewer events in each, are enough for that. -/
theorem events_in_order (h : Chronicle n collected s) (hticks : n < UInt64.size - 1)
    (hfew : ∀ tick, (inTick (collected ++ s.foreman.events.toList) tick).length < UInt64.size) :
    (collected ++ s.foreman.events.toList).Pairwise Earlier ∧
      ∀ tick, (inTick (collected ++ s.foreman.events.toList) tick).map (·.sequence.toNat) =
        List.range (inTick (collected ++ s.foreman.events.toList) tick).length := by
  have hstamped := (h.dated (Nat.lt_of_lt_of_le hticks (Nat.sub_le _ _))).stamped
  exact ⟨hstamped.pairwise hfew, hstamped.numbered_toNat hfew⟩

/-- The scenario that describes the camp. -/
def campsite : Scenario where
  logs := [⟨0, 0, 0⟩]
  groups := [⟨1⟩]
  actors := [⟨⟨1⟩, ⟨1⟩, ⟨0, 0, 0⟩, some .log⟩]
  tasks := [⟨"work", [⟨1⟩], 0, [], .leaf (.action (.work .here))⟩]

theorem chronicle_camp : Chronicle 0 [] camp :=
  chronicle_ofScenario (show ofScenario campsite = .ok camp from rfl)

/-- The camp after its first tick, when the events were collected and its actor was stopped. -/
def stoppedCamp : Sandbox :=
  let s := camp.after 0.5
  ({ s with foreman := s.foreman.drainEvents.1 }.interrupt ⟨1⟩).1

/-- The task is scheduled before the first tick, assigned in it, and interrupted between this and the next. -/
theorem camp_events_in_order :
    Chronicle 1 (camp.after 0.5).foreman.events.toList stoppedCamp ∧
      (let events := (camp.after 0.5).foreman.events.toList ++ stoppedCamp.foreman.events.toList
      events.map (fun e => (e.tick, e.sequence)) = [(0, 0), (1, 0), (1, 1)] ∧ events.Pairwise Earlier) := by
  obtain ⟨m, htick⟩ : ∃ m, camp.advanceTime 0.5 = .ok (camp.after 0.5, m) := advanceTime_after (by decide)
  have hstopped := (chronicle_camp.advanceTime htick).drainEvents.perform (.interrupt ⟨1⟩)
  have hthree : ((camp.after 0.5).foreman.events.toList ++ stoppedCamp.foreman.events.toList).length = 3 := by
    decide +kernel
  refine ⟨hstopped, by decide +kernel, (events_in_order hstopped (by decide) fun tick => ?_).1⟩
  have hle := List.length_filter_le (fun e => e.tick == tick)
    ((camp.after 0.5).foreman.events.toList ++ stoppedCamp.foreman.events.toList)
  rw [hthree] at hle
  exact Nat.lt_of_le_of_lt hle (by decide)

end Sandbox

end TaskScript
