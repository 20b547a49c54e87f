import Mathlib.Data.List.Induction
import TaskScript.Proofs.Evaluation.Demands
import TaskScript.Proofs.Execution.History

/-!
# `Proofs.Execution.Requests`: what is asked of an actor

An action is entered by one step and requested by another, possibly many calls later: there may be no time to give, or
its target may have no value yet. Then it is waited for, over as many calls as it takes the actor to finish.

Within a call this is simple: a request gives the turn back (`request_is_last`), and it uses up the time that the call
has given, without which there is none. Over a whole run it is a matter of what lies on the stack. As long as an action
lies there, no other statement is run; so what is done from its entering to its completion is a `Visit`: steps that have
no time, then one request, then steps that wait, and in a later call one that finds the actor finished.

## Contents
- `Occurrence.Enters`, `Occurrence.Holds`, `Occurrence.Asks`, `Occurrence.Waits`, `Occurrence.Retires`: **what is done with an action**.
- `Pursuit`, `Visit`, `Linked.visit`, `Linked.trail`: from entering to completion, and back.
- `request_is_last`, `request_takes_time`: **requests of a call**.
- `requests_follow_protocol`.
-/

namespace TaskScript

open TaskScript.Execution (Alike Linked Dispatched Stride)

variable {id : StatementId} {a : Action} {x y : Occurrence}

namespace Occurrence

/-! ## What is done with an action -/

/-- The step has put an action on the stack. -/
structure Enters (id : StatementId) (x : Occurrence) : Prop where
  before : x.before.stack.head? ≠ some (.action id false)
  after : x.after.stack.head? = some (.action id false)

/-- The step has found an action on top that was not requested, and no time to request it. -/
structure Holds (id : StatementId) (x : Occurrence) : Prop where
  before : x.before.stack.head? = some (.action id false)
  after : x.after.stack = x.before.stack
  progress : x.after.progress = x.before.progress
  deed : x.deed = none

/-- **The step has requested the action** of the actor of the call, with the value that the target had at that moment,
and has given the turn back. -/
structure Asks (id : StatementId) (a : Action) (x : Occurrence) : Prop where
  before : x.before.stack.head? = some (.action id false)
  after : x.after.stack.head? = some (.action id true)
  request : ∃ r, a.Demands (x.before.scope x.call.around.toWorldView x.call.actor) x.call.actor r ∧
    x.deed = some (.requested id r)
  yields : x.dispatch.step.goesOn = false

/-- The step has found that an action goes on which was requested before. -/
structure Waits (id : StatementId) (x : Occurrence) : Prop where
  before : x.before.stack.head? = some (.action id true)
  after : x.after.stack = x.before.stack
  progress : x.after.progress = x.before.progress
  deed : x.deed = none

/-- **The step has found the actor finished** with the action that was requested of it. -/
structure Retires (id : StatementId) (x : Occurrence) : Prop where
  before : x.before.stack.head? = some (.action id true)
  finished : x.call.around.isFinished x.call.actor = true
  deed : x.deed = some (.retired id)

/-- The progress of a statement has become `completed` in the step. -/
structure Completes (id : StatementId) (x : Occurrence) : Prop where
  before : x.before.progress[id]? ≠ some .completed
  after : x.after.progress[id]? = some .completed

end Occurrence

/-- Where an action is entered: the last of some entries has put it on the stack, or there are none and it is the whole
program. -/
structure EnteredAfter (root id : StatementId) (past : List Occurrence) : Prop where
  last : ∀ x, past.getLast? = some x → x.Enters id
  none : past = [] → id = root

theorem enteredAfter_concat {x : Occurrence} {root id : StatementId} (h : x.Enters id) (past : List Occurrence) :
    EnteredAfter root id (past ++ [x]) := by
  refine ⟨fun y hy => ?_, fun hnil => ?_⟩
  · rw [List.getLast?_concat] at hy
    exact Option.some.inj hy ▸ h
  · simp at hnil

/-- **An action is pursued**: held until there is time, requested once, and waited for. -/
structure Pursuit (id : StatementId) (a : Action) (holding : List Occurrence) (ask : Occurrence) (waiting : List Occurrence) :
    Prop where
  holding : ∀ x ∈ holding, x.Holds id
  ask : ask.Asks id a
  waiting : ∀ x ∈ waiting, x.Waits id

theorem Pursuit.hold {holding waiting : List Occurrence} {ask : Occurrence} (h : Pursuit id a holding ask waiting)
    (hx : x.Holds id) : Pursuit id a (x :: holding) ask waiting :=
  ⟨List.forall_mem_cons.mpr ⟨hx, h.holding⟩, h.ask, h.waiting⟩

/-- **What can follow the entering of an action**: it is held; or it is pursued; or it is pursued until a later call finds
the actor finished, and only then does the run go on. -/
inductive Visit (id : StatementId) (a : Action) : List Occurrence → Prop
  | held {es} : (∀ x ∈ es, x.Holds id) → Visit id a es
  | pursued {holding ask waiting} : Pursuit id a holding ask waiting → Visit id a (holding ++ ask :: waiting)
  | completed {holding ask waiting done more} :
      Pursuit id a holding ask waiting → done.Retires id → done.Completes id → ask.number < done.number →
      Visit id a (holding ++ ask :: (waiting ++ done :: more))

namespace Execution

variable {around : Surroundings} {actor : ActorId} {e : Execution} {top : Frame} {rest : List Frame} {d : Dispatch}

/-! ## Steps -/

theorem Dispatched.stride (h : Dispatched around actor d top rest) :
    Stride around actor d.before top rest d.step := by
  obtain ⟨st, hst, hsuits⟩ := h.before.standing.suits top (h.stack ▸ List.mem_cons_self)
  exact Execution.stride hst hsuits h.stack h.step

theorem Dispatched.program_eq (h : Dispatched around actor d top rest) :
    d.step.execution.program = d.before.program := by
  obtain ⟨before, s⟩ := d
  have hstride := h.stride
  dsimp only at hstride ⊢
  cases hstride with
  | enters => rw [enter_eq]
  | loops => rw [enter_eq]
  | _ => rfl

/-- An action that is on top and was not requested is held or requested. -/
theorem Dispatched.holds_or_asks
    (h : Dispatched x.call.around x.call.actor x.dispatch (.action id false) rest)
    (ha : x.before.program.statement? id = some (.leaf (.action a))) : x.Holds id ∨ x.Asks id a := by
  have hstride := h.stride
  have hstack := h.stack
  obtain ⟨number, call, before, s⟩ := x
  dsimp only at hstride hstack
  have htop : before.stack.head? = some (.action id false) := by rw [hstack, List.head?_cons]
  cases hstride with
  | enters _ haction => cases haction
  | leaves _ haction => cases haction
  | @requests _ _ a' r _ ha' hr =>
    obtain rfl : a' = a := by
      cases ha'.symm.trans ha
      rfl
    exact .inr ⟨htop, rfl, ⟨r, Scope.request_eq_ok_iff.mp hr, rfl⟩, rfl⟩
  | holds _ => exact .inl ⟨htop, rfl, rfl, rfl⟩

/-- An action that is on top and was requested is waited for, or it is completed. -/
theorem Dispatched.waits_or_retires
    (h : Dispatched x.call.around x.call.actor x.dispatch (.action id true) rest) :
    x.Waits id ∨ x.Retires id ∧ x.Completes id := by
  have hstride := h.stride
  have hstack := h.stack
  have hstanding := h.before.standing
  obtain ⟨number, call, before, s⟩ := x
  dsimp only at hstride hstack hstanding
  have htop : before.stack.head? = some (.action id true) := by rw [hstack, List.head?_cons]
  cases hstride with
  | enters _ haction => cases haction
  | leaves _ haction => cases haction
  | awaits _ => exact .inl ⟨htop, rfl, rfl, rfl⟩
  | retires hfinished =>
    have hactive : before.progress[id]? = some .active :=
      (hstanding.active_iff id).mpr ⟨.action id true, hstack ▸ List.mem_cons_self, rfl, rfl⟩
    refine .inr ⟨⟨htop, hfinished, rfl⟩, ⟨fun hcompleted => ?_, ?_⟩⟩
    · cases hactive.symm.trans hcompleted
    · show (mark .completed [id] before.progress)[id]? = some .completed
      rw [getElem?_mark, if_pos List.mem_cons_self, hactive]
      rfl

/-- **Where an action on top comes from** that was not requested: it was there before, or it was entered. -/
theorem Dispatched.held_or_entered (h : Dispatched x.call.around x.call.actor x.dispatch top rest)
    (hafter : x.after.stack.head? = some (.action id false)) :
    x.Enters id ∨ x.Holds id := by
  by_cases hbefore : x.before.stack.head? = some (.action id false)
  · have hstack := h.stack
    obtain ⟨st, hst, hsuits⟩ := h.before.standing.suits top (hstack ▸ List.mem_cons_self)
    obtain rfl : top = .action id false := by
      rw [show x.before.stack = _ from hstack, List.head?_cons] at hbefore
      exact Option.some.inj hbefore
    cases hsuits with
    | @action a =>
      rcases h.holds_or_asks hst with hholds | hasks
      · exact .inr hholds
      · cases hasks.after.symm.trans hafter
  · exact .inl ⟨hbefore, hafter⟩

/-- **Where an action on top comes from** that was requested: it has just been, or it was there before. -/
theorem Dispatched.asks_or_waits (h : Dispatched x.call.around x.call.actor x.dispatch top rest)
    (ha : x.before.program.statement? id = some (.leaf (.action a)))
    (hafter : x.after.stack.head? = some (.action id true)) : x.Asks id a ∨ x.Waits id := by
  have hstride := h.stride
  have hstack := h.stack
  have houter := h.before.standing.outer
  rw [hstack] at houter
  -- the frames below the top are not of actions
  have hleft : ∀ {left : List Frame}, left ⊆ rest → left.head? ≠ some (.action id true) := by
    intro left hsub htop
    have haction := houter _ (hsub (List.mem_of_head? htop))
    cases haction
  obtain ⟨number, call, before, s⟩ := x
  have hafter : s.execution.stack.head? = some (.action id true) := hafter
  have ha : before.program.statement? id = some (.leaf (.action a)) := ha
  dsimp only at hstride hstack
  cases hstride with
  | enters =>
    rw [enter_eq] at hafter
    exact absurd (Option.some.inj hafter) (Frame.enter_ne_started _ _ id)
  | loops =>
    rw [enter_eq] at hafter
    exact absurd (Option.some.inj hafter) (Frame.enter_ne_started _ _ id)
  | repeats => cases hafter
  | leaves => exact absurd hafter (hleft (List.Subset.refl _))
  | breaks =>
    refine absurd hafter (hleft fun frame hframe => ?_)
    rw [← Frame.leftByBreak_append_leaveLoop rest]
    exact List.mem_append_right _ hframe
  | requests =>
    cases hafter
    exact (h.holds_or_asks ha).elim (fun hholds => by cases hholds.deed) .inl
  | holds =>
    rw [hstack] at hafter
    cases hafter
  | awaits =>
    rw [show Execution.stack { before with allowance := 0.0 } = _ from hstack] at hafter
    cases hafter
    exact h.waits_or_retires.elim .inr fun hretires => by cases hretires.1.deed
  | retires => exact absurd hafter (hleft (List.Subset.refl _))

/-! ## Completion -/

/-- Progress becomes `completed` only where it is marked so. -/
theorem mem_of_mark_completed {ids : List StatementId} {q : Progress} {progress : Array Progress} {i : StatementId}
    (hbefore : progress[i]? ≠ some .completed) (hafter : (mark q ids progress)[i]? = some .completed) :
    q = .completed ∧ i ∈ ids := by
  rw [getElem?_mark] at hafter
  split at hafter
  · rename_i hi
    obtain ⟨_, -, heq⟩ := Option.map_eq_some_iff.mp hafter
    exact ⟨heq, hi⟩
  · exact absurd hafter hbefore

theorem completed_of_enter {child i : StatementId} (h : (e.enter child).progress[i]? = some .completed) :
    e.progress[i]? = some .completed := by
  rw [enter_eq] at h
  dsimp only at h
  by_contra hbefore
  split at h
  · exact hbefore h
  · have hmark : (mark .active [child] e.progress)[i]? = some .completed := h
    cases (mem_of_mark_completed hbefore hmark).1

/-- **What a step completes**: an action on top that is found finished, and else only statements on the stack that are
no actions. -/
theorem Stride.completes {s : Step} {i : StatementId} (h : Stride around actor e top rest s)
    (houter : ∀ frame ∈ rest, frame.isAction = false) (hbefore : e.progress[i]? ≠ some .completed)
    (hafter : s.execution.progress[i]? = some .completed) :
    top = .action i true ∧ around.isFinished actor = true ∧ s.deed = some (.retired i) ∨
      ∃ frame ∈ top :: rest, frame.id = i ∧ frame.isAction = false := by
  cases h with
  | enters => exact absurd (completed_of_enter hafter) hbefore
  | loops =>
    cases (mem_of_mark_completed hbefore (completed_of_enter hafter)).1
  | repeats => exact absurd hafter hbefore
  | leaves env htop _ _ =>
    have hi := (mem_of_mark_completed hbefore hafter).2
    exact .inr ⟨top, List.mem_cons_self, (List.mem_singleton.mp hi).symm, htop⟩
  | @breaks id rest _ =>
    right
    rcases List.mem_cons.mp (mem_of_mark_completed hbefore hafter).2 with rfl | hi
    · exact ⟨.simple i, List.mem_cons_self, rfl, rfl⟩
    · obtain ⟨frame, hframe, rfl⟩ := List.mem_map.mp hi
      have hmem : frame ∈ rest := by
        rw [← Frame.leftByBreak_append_leaveLoop rest]
        exact List.mem_append_left _ hframe
      exact ⟨frame, List.mem_cons_of_mem _ hmem, rfl, houter frame hmem⟩
  | @requests id _ _ _ _ _ _ =>
    have hmark : (mark .active [id] e.progress)[i]? = some .completed := hafter
    cases (mem_of_mark_completed hbefore hmark).1
  | holds => exact absurd hafter hbefore
  | awaits => exact absurd hafter hbefore
  | @retires id _ hfinished =>
    obtain rfl := List.mem_singleton.mp (mem_of_mark_completed hbefore hafter).2
    exact .inl ⟨rfl, hfinished, rfl⟩

/-- **An action is completed by being found finished**, and in no other way. -/
theorem Dispatched.retires_of_completes (h : Dispatched x.call.around x.call.actor x.dispatch top rest)
    (ha : x.before.program.statement? id = some (.leaf (.action a))) (hcompletes : x.Completes id) :
    x.Retires id := by
  have hstack : x.before.stack = top :: rest := h.stack
  have houter : ∀ frame ∈ rest, frame.isAction = false := by
    have houter := h.before.standing.outer
    rwa [h.stack] at houter
  rcases h.stride.completes houter hcompletes.before hcompletes.after with ⟨rfl, hfinished, hdeed⟩ | hother
  · exact ⟨by rw [hstack, List.head?_cons], hfinished, hdeed⟩
  · -- only the frame of an action suits it
    obtain ⟨frame, hframe, rfl, hno⟩ := hother
    obtain ⟨st, hst, hsuits⟩ := h.before.standing.suits frame (h.stack ▸ hframe)
    cases hst.symm.trans ha
    cases hsuits with
    | action => cases hno
    | simple hl => exact absurd rfl (hl a)

/-! ## From entering to completion -/

/-- The program of a run does not change. -/
theorem Linked.program_eq {es : List Occurrence} (h : Linked e es) : ∀ y ∈ es, y.before.program = e.program := by
  induction es generalizing e with
  | nil => exact List.forall_mem_nil _
  | cons x es ih =>
    have hfirst : x.before.program = e.program := by
      obtain ⟨t, heq⟩ := h.first x rfl
      rw [heq]
    intro y hy
    rcases List.mem_cons.mp hy with rfl | hy
    · exact hfirst
    · obtain ⟨top, rest, hx⟩ := h.dispatched x List.mem_cons_self
      rw [ih h.tail y hy, ← hfirst]
      exact hx.program_eq

/-- The first of some entries, by what is on top of the stack. -/
theorem Linked.dispatched_top {es : List Occurrence} (h : Linked e (x :: es)) (htop : e.stack.head? = some top) :
    ∃ rest, Dispatched x.call.around x.call.actor x.dispatch top rest := by
  obtain ⟨top', rest, hx⟩ := h.dispatched x List.mem_cons_self
  have hstack : x.dispatch.before.stack = e.stack := (h.first x rfl).stack_eq
  rw [← hstack, hx.stack, List.head?_cons] at htop
  cases htop
  exact ⟨rest, hx⟩

/-- **After the request**, an action is waited for until it is completed. -/
theorem Linked.waits {es : List Occurrence} (h : Linked e es) (htop : e.stack.head? = some (.action id true)) :
    (∀ y ∈ es, y.Waits id) ∨ ∃ waiting done more, es = waiting ++ done :: more ∧ (∀ y ∈ waiting, y.Waits id) ∧
      done.Retires id ∧ done.Completes id := by
  induction es generalizing e with
  | nil => exact .inl (List.forall_mem_nil _)
  | cons x es ih =>
    obtain ⟨rest, hx⟩ := h.dispatched_top htop
    rcases hx.waits_or_retires with hwaits | ⟨hretires, hcompletes⟩
    · have hafter : x.after.stack.head? = some (.action id true) := by rw [hwaits.after, hwaits.before]
      rcases ih h.tail hafter with hall | ⟨waiting, done, more, rfl, hwaiting, hdone⟩
      · exact .inl (List.forall_mem_cons.mpr ⟨hwaits, hall⟩)
      · exact .inr ⟨x :: waiting, done, more, rfl, List.forall_mem_cons.mpr ⟨hwaits, hwaiting⟩, hdone⟩
    · exact .inr ⟨[], x, es, rfl, List.forall_mem_nil _, hretires, hcompletes⟩

/-- **After it is entered**, an action is held, requested once and waited for. -/
theorem Linked.visit {es : List Occurrence} (h : Linked e es) (htop : e.stack.head? = some (.action id false))
    (ha : e.program.statement? id = some (.leaf (.action a))) : Visit id a es := by
  induction es generalizing e with
  | nil => exact .held (List.forall_mem_nil _)
  | cons x es ih =>
    obtain ⟨rest, hx⟩ := h.dispatched_top htop
    have hprogram : x.before.program = e.program := h.program_eq x List.mem_cons_self
    rcases hx.holds_or_asks (hprogram ▸ ha) with hholds | hasks
    · have hafter : x.after.stack.head? = some (.action id false) := by rw [hholds.after, hholds.before]
      have hsame : x.after.program = e.program := hx.program_eq.trans hprogram
      cases ih h.tail hafter (hsame ▸ ha) with
      | held hall => exact .held (List.forall_mem_cons.mpr ⟨hholds, hall⟩)
      | @pursued holding ask waiting hp => exact .pursued (hp.hold hholds)
      | @completed holding ask waiting done more hp hretires hcompletes hlt =>
        exact .completed (hp.hold hholds) hretires hcompletes hlt
    · rcases h.tail.waits hasks.after with hall | ⟨waiting, done, more, rfl, hwaiting, hretires, hcompletes⟩
      · have hp : Pursuit id a [] x es := ⟨List.forall_mem_nil _, hasks, hall⟩
        exact .pursued hp
      · have hp : Pursuit id a [] x waiting := ⟨List.forall_mem_nil _, hasks, hwaiting⟩
        have hlt := h.number_lt hasks.yields done (List.mem_append_right _ List.mem_cons_self)
        exact .completed hp hretires hcompletes hlt

/-- **What was done before with an action on top of the stack**: it was entered and held, and if it is requested by now,
it was requested once and waited for. -/
theorem Linked.trail {past : List Occurrence} {root : StatementId} (h : Linked e (past ++ [x]))
    (hroot : ∀ frame, e.stack.head? = some frame → frame.id = root ∧ frame ≠ .action id true)
    (ha : e.program.statement? id = some (.leaf (.action a))) :
    (x.before.stack.head? = some (.action id false) →
      ∃ older holding, past = older ++ holding ∧ EnteredAfter root id older ∧ ∀ y ∈ holding, y.Holds id) ∧
    (x.before.stack.head? = some (.action id true) →
      ∃ older holding ask waiting, past = older ++ (holding ++ ask :: waiting) ∧ EnteredAfter root id older ∧
        Pursuit id a holding ask waiting ∧ ask.number < x.number) := by
  induction past using List.reverseRecOn generalizing x with
  | nil =>
    have hstack : x.before.stack = e.stack := (h.first x rfl).stack_eq
    rw [hstack]
    refine ⟨fun htop => ⟨[], [], rfl, ⟨fun _ hlast => (by cases hlast), fun _ => (hroot _ htop).1⟩,
      List.forall_mem_nil _⟩, fun htop => ?_⟩
    exact absurd rfl (hroot _ htop).2
  | append_singleton past y ih =>
    have hleft := h.left
    have hfollows : y.Follows x := by
      have hchain := h.chain
      rw [List.append_assoc] at hchain
      exact (List.isChain_cons_cons.mp hchain.right_of_append).1
    have hstack : x.before.stack = y.after.stack := hfollows.alike.stack_eq
    obtain ⟨top, rest, hy⟩ := h.dispatched y (List.mem_append_left _ (List.mem_append_right _ List.mem_cons_self))
    have hprogram : y.before.program = e.program :=
      hleft.program_eq y (List.mem_append_right _ List.mem_cons_self)
    obtain ⟨hheld, hpursued⟩ := ih hleft
    rw [hstack]
    constructor
    · intro hafter
      rcases hy.held_or_entered hafter with henters | hholds
      · exact ⟨past ++ [y], [], (List.append_nil _).symm, enteredAfter_concat henters past, List.forall_mem_nil _⟩
      · obtain ⟨older, holding, rfl, hentered, hholding⟩ := hheld hholds.before
        have hheld' := List.forall_mem_append.mpr ⟨hholding, List.forall_mem_singleton.mpr hholds⟩
        exact ⟨older, holding ++ [y], List.append_assoc _ _ _, hentered, hheld'⟩
    · intro hafter
      rcases hy.asks_or_waits (hprogram ▸ ha) hafter with hasks | hwaits
      · obtain ⟨older, holding, rfl, hentered, hholding⟩ := hheld hasks.before
        exact ⟨older, holding, y, [], List.append_assoc _ _ _, hentered, ⟨hholding, hasks, List.forall_mem_nil _⟩,
          hfollows.lt hasks.yields⟩
      · obtain ⟨older, holding, ask, waiting, rfl, hentered, hp, hlt⟩ := hpursued hwaits.before
        have hwaited := List.forall_mem_append.mpr ⟨hp.waiting, List.forall_mem_singleton.mpr hwaits⟩
        exact ⟨older, holding, ask, waiting ++ [y], by simp, hentered, ⟨hp.holding, hp.ask, hwaited⟩,
          Nat.lt_of_lt_of_le hlt hfollows.le⟩

/-! ## Requests of a call -/

/-- A request gives the turn back. -/
theorem Stride.yields_of_request {s : Step} (h : Stride around actor e top rest s)
    (hrequest : s.deed.bind Deed.request? ≠ none) : s.goesOn = false ∧ 0.0 < e.allowance := by
  cases h with
  | enters _ _ _ _ _ hdeed => exact absurd hdeed hrequest
  | leaves _ _ _ hdeed => exact absurd hdeed hrequest
  | requests htime _ _ => exact ⟨rfl, htime⟩
  | _ => exact absurd rfl hrequest

/-- A step gives no time that there was not. -/
theorem Stride.no_time {s : Step} (h : Stride around actor e top rest s) (htime : ¬ 0.0 < e.allowance) :
    ¬ 0.0 < s.execution.allowance := by
  have hzero : ¬ (0.0 : Float) < 0.0 := by decide
  cases h with
  | enters => rwa [enter_eq]
  | loops => rwa [enter_eq]
  | requests => exact hzero
  | awaits => exact hzero
  | _ => exact htime

/-- The step that gives a turn back is its last. -/
theorem Turns.last_of_yields {n : Nat} {ds : List Dispatch} {e' : Execution} {r : Except Fault Outcome}
    (h : Turns around actor n e ds e' r) (hd : d ∈ ds) (hgo : d.step.goesOn = false) :
    ds.getLast? = some d ∧ r = .ok .suspended := by
  induction h with
  | completed _ => cases hd
  | exhausted _ => cases hd
  | failed _ _ => cases hd
  | yielded _ _ _ => exact ⟨by rw [List.mem_singleton.mp hd]; rfl, rfl⟩
  | @goesOn _ _ _ _ s ds _ _ _ _ hgoes _ ih =>
    rcases List.mem_cons.mp hd with rfl | hd
    · cases hgoes.symm.trans hgo
    · obtain ⟨hlast, hresult⟩ := ih hd
      refine ⟨?_, hresult⟩
      rw [List.getLast?_cons, hlast]
      rfl

/-- A turn requests nothing if there is no time. -/
theorem Turns.quiet_of_no_time {n : Nat} {ds : List Dispatch} {e' : Execution} {r : Except Fault Outcome}
    (h : Turns around actor n e ds e' r) (hstanding : e.Standing) (htime : ¬ 0.0 < e.allowance) :
    ∀ d ∈ ds, d.step.deed.bind Deed.request? = none := by
  have hstep : ∀ {e : Execution} {top rest s}, e.Standing → e.stack = top :: rest → e.step around actor top = .ok s →
      ¬ 0.0 < e.allowance → s.deed.bind Deed.request? = none ∧ ¬ 0.0 < s.execution.allowance := by
    intro e top rest s hstanding hstack hstep htime
    obtain ⟨st, hst, hsuits⟩ := hstanding.suits top (hstack ▸ List.mem_cons_self)
    have hstride := stride hst hsuits hstack hstep
    refine ⟨?_, hstride.no_time htime⟩
    by_contra hrequest
    exact htime (hstride.yields_of_request hrequest).2
  induction h with
  | completed _ => exact List.forall_mem_nil _
  | exhausted _ => exact List.forall_mem_nil _
  | failed _ _ => exact List.forall_mem_nil _
  | yielded hstack hs _ =>
    intro d hd
    rw [List.mem_singleton.mp hd]
    exact (hstep hstanding hstack hs htime).1
  | goesOn hstack hs _ _ ih =>
    obtain ⟨hquiet, hnext⟩ := hstep hstanding hstack hs htime
    exact List.forall_mem_cons.mpr ⟨hquiet, ih (hstanding.step hstack (hstanding.goes hstack hs)).1 hnext⟩

/-- An execution that is given no time has none. -/
theorem no_time_wake {dt : Float} (hdt : ¬ 0.0 < dt) : ¬ 0.0 < (e.wake dt).allowance := by
  rw [allowance_wake, if_neg hdt]
  decide

theorem Standing.requests_turn_of_no_time (h : e.Standing) (around : Surroundings) (actor : ActorId) {dt : Float}
    (hdt : ¬ 0.0 < dt) : (e.turn around actor dt).requests = [] := by
  rw [turn_eq_steps dt h.unfinished, Turn.requests, deeds_steps, List.reverse_nil, List.nil_append,
    List.filterMap_filterMap, List.filterMap_eq_nil_iff]
  exact (turns_steps around actor _ _ []).quiet_of_no_time (h.wake dt).1 (no_time_wake hdt)

theorem requests_call (c : Call) :
    (e.call c).requests = (e.dispatchesIn c).filterMap fun d => d.step.deed.bind Deed.request? := by
  rw [Turn.requests, deeds_call, List.filterMap_filterMap]

/-- **A request is the last thing that a call does.** -/
theorem Resting.request_is_last (h : e.Resting) (c : Call) (hd : d ∈ e.dispatchesIn c)
    (hrequest : d.step.deed.bind Deed.request? ≠ none) :
    (e.dispatchesIn c).getLast? = some d ∧ (e.call c).result = .ok .suspended := by
  obtain ⟨top, rest, hdispatched⟩ := (h.call c).1 d hd
  have hgo := (hdispatched.stride.yields_of_request hrequest).1
  cases hfinished : e.finished with
  | true =>
    rw [dispatchesIn_of_finished c hfinished] at hd
    cases hd
  | false => exact (turns_call c hfinished).last_of_yields hd hgo

/-- **A request takes time**: a call that has none to give requests nothing. -/
theorem Resting.request_takes_time (h : e.Resting) (c : Call) (hdt : ¬ 0.0 < c.dt) : (e.call c).requests = [] := by
  rw [requests_call, List.filterMap_eq_nil_iff]
  cases hfinished : e.finished with
  | true =>
    rw [dispatchesIn_of_finished c hfinished]
    exact List.forall_mem_nil _
  | false =>
    exact (turns_call c hfinished).quiet_of_no_time (h.wake hfinished c.dt).standing (no_time_wake hdt)

/-- The requests of a turn: none, or one, which is for its actor. -/
theorem Ends.requests_cases {requests : List Request} {result : Except Fault Outcome}
    (h : Ends around actor e requests result) :
    requests = [] ∨ ∃ r, requests = [r] ∧ r.actor = actor := by
  cases h with
  | rests _ => exact .inl rfl
  | asks scope hself hrequest _ _ => exact .inr ⟨_, rfl, (Scope.request_eq_ok_iff.mp hrequest).actor_eq.trans hself⟩

theorem Standing.requests_turn_cases (h : e.Standing) (around : Surroundings) (actor : ActorId) (dt : Float) :
    (e.turn around actor dt).requests = [] ∨ ∃ r, (e.turn around actor dt).requests = [r] ∧ r.actor = actor := by
  rcases h.turn around actor dt with ⟨-, -, hturn⟩ | ⟨-, hends⟩
  · rw [hturn]
    exact .inl rfl
  · exact hends.requests_cases

/-- **A call makes one request at most.** -/
theorem Resting.length_requests_le (h : e.Resting) (c : Call) : (e.call c).requests.length ≤ 1 := by
  have hturn : ∀ {e' : Execution}, e'.Standing → (e'.call c).requests.length ≤ 1 := by
    intro e' hstanding
    rw [Execution.call]
    rcases hstanding.requests_turn_cases c.around c.actor c.dt with hnone | ⟨r, hone, -⟩
    · exact hnone ▸ Nat.zero_le 1
    · exact hone ▸ Nat.le_refl 1
  cases h with
  | running h _ => exact hturn h.standing
  | new h _ _ => exact hturn h.standing
  | done _ _ =>
    rw [Execution.call, turn_of_finished c.dt rfl]
    exact Nat.zero_le 1

/-! ## Runs -/

/-- What follows an entry starts from what it has led to. -/
theorem Linked.after {es es' : List Occurrence} (h : Linked e (es ++ x :: es')) : Linked x.after es' := by
  induction es generalizing e with
  | nil => exact h.tail
  | cons y es ih => exact ih h.tail

variable {job : Job}

/-- A run starts with the root on the stack. -/
theorem stack_wake_start (job : Job) (limit : UInt32) (dt : Float) :
    ((start job limit).wake dt).stack = [Frame.enter job.program.root (job.program.statement? job.program.root)] := by
  unfold Execution.wake
  dsimp only
  rw [show (start job limit).stack.isEmpty = true from rfl, if_pos rfl, enter_eq]
  rfl

theorem program_wake (e : Execution) (dt : Float) : (e.wake dt).program = e.program := by
  unfold Execution.wake
  dsimp only
  split
  · rw [enter_eq]
  · rfl

/-- **Requests follow a protocol.** Take any run of a job that was let pass.

Each call makes one request at most, as the last thing that it does, and none if it has no time to give. From where an
action is entered, the run goes on with a visit of the action, in which one request at most is made for it, in the words
of the action and with the value that its target has at that moment. And the progress of an action becomes `completed`
only at the end of such a visit: between its entering and its completion there is exactly one request, the completion
comes in a later call, which finds the actor finished, and in between no step is of another statement. -/
theorem requests_follow_protocol (hjob : job.Fresh) (limit : UInt32) (calls : List Call) :
    (∀ c, let e := (start job limit).after calls
      (e.call c).requests.length ≤ 1 ∧ (¬ 0.0 < c.dt → (e.call c).requests = []) ∧
        ∀ d ∈ e.dispatchesIn c, d.step.deed.bind Deed.request? ≠ none →
          (e.dispatchesIn c).getLast? = some d ∧ (e.call c).result = .ok .suspended) ∧
      ∀ id a, job.program.statement? id = some (.leaf (.action a)) →
        (∀ past later, (start job limit).history 0 calls = past ++ later →
          EnteredAfter job.program.root id past → Visit id a later) ∧
        ∀ past x later, (start job limit).history 0 calls = past ++ x :: later → x.Completes id →
          x.Retires id ∧
            ∃ older holding ask waiting, past = older ++ (holding ++ ask :: waiting) ∧
              EnteredAfter job.program.root id older ∧ Pursuit id a holding ask waiting ∧ ask.number < x.number := by
  have hresting := resting_start hjob limit
  have hlinked := hresting.linked 0 calls
  have hprogram : ((start job limit).wake 0.0).program = job.program := program_wake _ _
  refine ⟨fun c => ?_, fun id a ha => ⟨fun past later hhistory hentered => ?_, fun past x later hhistory hdone => ?_⟩⟩
  · have hafter := hresting.after calls
    exact ⟨hafter.length_requests_le c, hafter.request_takes_time c, fun d hd => hafter.request_is_last c hd⟩
  · rw [hhistory] at hlinked
    rcases List.eq_nil_or_concat' past with rfl | ⟨older, x, rfl⟩
    · -- the action is the whole program
      obtain rfl := hentered.none rfl
      refine hlinked.visit ?_ (hprogram ▸ ha)
      rw [stack_wake_start, ha]
      rfl
    · have henters : x.Enters id := hentered.last x List.getLast?_concat
      rw [List.append_assoc] at hlinked
      obtain ⟨top, rest, hx⟩ := hlinked.dispatched x (List.mem_append_right _ List.mem_cons_self)
      have hbefore := hlinked.program_eq x (List.mem_append_right _ List.mem_cons_self)
      have hsame : x.after.program = job.program := hx.program_eq.trans (hbefore.trans hprogram)
      exact (hlinked.after).visit henters.after (hsame ▸ ha)
  · rw [hhistory] at hlinked
    have hmem : x ∈ past ++ x :: later := List.mem_append_right _ List.mem_cons_self
    obtain ⟨top, rest, hx⟩ := hlinked.dispatched x hmem
    have hbefore := hlinked.program_eq x hmem
    have hretires := hx.retires_of_completes (hbefore ▸ hprogram ▸ ha) hdone
    have hleft : Linked ((start job limit).wake 0.0) (past ++ [x]) := by
      rw [List.append_cons] at hlinked
      exact hlinked.left
    have hroot : ∀ frame, ((start job limit).wake 0.0).stack.head? = some frame →
        frame.id = job.program.root ∧ frame ≠ .action id true := by
      intro frame hframe
      rw [stack_wake_start] at hframe
      cases hframe
      exact ⟨Frame.enter_id _ _, Frame.enter_ne_started _ _ id⟩
    obtain ⟨older, holding, ask, waiting, hpast, hpursued⟩ := (hleft.trail hroot (hprogram ▸ ha)).2 hretires.before
    exact ⟨hretires, older, holding, ask, waiting, hpast, hpursued⟩

/-- The theorem applies, for instance to a program that works and then walks. The target of the walk is evaluated in the
call that requests it, when the actor stands elsewhere than it did at first; and the walk is completed in a later one. -/
theorem requests_follow_protocol_of_walk :
    let walk : Action := .moveTo (.nextTo .here)
    let s : Script := .sequence [.leaf (.action (.work .here)), .leaf (.action walk)]
    let job : Job := ⟨⟨1⟩, "work and walk", 0, ⟨(s.nodes none 0).toArray, s.rootAt 0⟩, none⟩
    let c (x : Int32) : Call :=
      ⟨(Grid.addActor ⟨4, 1, 1, ∅, ∅, ∅, ∅, #[]⟩ ⟨1⟩ ⟨1⟩ ⟨x, 0, 0⟩).surroundings, ⟨1⟩, 1.0⟩
    job.Fresh ∧
      ((start job 9).call (c 0)).requests = [.work ⟨1⟩ ⟨0, 0, 0⟩] ∧
      (((start job 9).after [c 0]).call (c 3)).requests = [.moveTo ⟨1⟩ ⟨2, 0, 0⟩] ∧
      ∃ older holding ask waiting done later,
        (start job 9).history 0 [c 0, c 3, c 2] = older ++ (holding ++ ask :: (waiting ++ done :: later)) ∧
        Pursuit 1 walk holding ask waiting ∧ done.Retires 1 ∧ done.Completes 1 ∧ ask.number < done.number := by
  intro walk s job c
  have hbuild : s.build = .ok job.program := Script.build_eq s
  have hfresh : job.Fresh := ⟨Script.sealed_of_build hbuild, .inl (by decide)⟩
  have hprotocol := (requests_follow_protocol hfresh 9 [c 0, c 3, c 2]).2 1 walk rfl
  have hdone : ∃ x ∈ (start job 9).history 0 [c 0, c 3, c 2], x.Completes 1 :=
    ⟨_, List.getElem_mem (show 5 < _ by decide), by decide, by decide⟩
  obtain ⟨x, hx, hcompletes⟩ := hdone
  obtain ⟨past, later, hhistory⟩ := List.append_of_mem hx
  obtain ⟨hretires, older, holding, ask, waiting, rfl, -, hpursuit, hlt⟩ := hprotocol.2 past x later hhistory hcompletes
  refine ⟨hfresh, by decide, by decide, older, holding, ask, waiting, x, later, ?_, hpursuit, hretires, hcompletes, hlt⟩
  rw [hhistory]
  simp only [List.append_assoc, List.cons_append]

end Execution

end TaskScript
