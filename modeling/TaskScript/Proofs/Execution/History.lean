import TaskScript.Proofs.Execution.Path

/-!
# `Proofs.Execution.History`: all steps of a run, one after the other

A run is a row of calls, and every call takes some steps. The `history` of a run puts the steps of all its calls in one
row, each with the call that it was taken in and with the number of that call.

Between two entries of a history nothing happens to the execution, but that a call may give it other time
(`Occurrence.Follows`), although there may have been any number of calls between them, each with a step that has failed. So
what is done with a statement is read off the history entry by entry, wherever calls begin and end.

## Contents
- `Alike`: executions that differ in the time they have.
- `Occurrence`, `Execution.history`.
- `Turns.linked`, `Linked`, `Resting.linked`: **each entry goes on where the one before it has stopped**.
-/

namespace TaskScript

/-- A step of a run, with the call that it was taken in and the number of that call. -/
structure Occurrence where
  number : Nat
  call : Call
  dispatch : Dispatch

namespace Execution

/-- The executions are the same but for the time that they have. -/
def Alike (e e' : Execution) : Prop :=
  ∃ allowance, e' = { e with allowance }

end Execution

namespace Occurrence

open TaskScript.Execution (Alike)

/-- The execution before the step. -/
def before (x : Occurrence) : Execution :=
  x.dispatch.before

/-- The execution after the step. -/
def after (x : Occurrence) : Execution :=
  x.dispatch.step.execution

/-- What was done in the step. -/
def deed (x : Occurrence) : Option Deed :=
  x.dispatch.step.deed

/-- **One entry goes on where the other has stopped**, and in a later call if the other has given its turn back. -/
structure Follows (x y : Occurrence) : Prop where
  alike : Alike x.after y.before
  le : x.number ≤ y.number
  lt : x.dispatch.step.goesOn = false → x.number < y.number

end Occurrence

namespace Execution

/-- **All steps of a run**, whose first call has the given number. -/
def history : Nat → Execution → List Call → List Occurrence
  | _, _, [] => []
  | n, e, c :: calls => (e.dispatchesIn c).map (⟨n, c, ·⟩) ++ history (n + 1) (e.call c).execution calls

variable {e e' e'' : Execution} {around : Surroundings} {actor : ActorId}

/-! ## Alike executions -/

theorem Alike.trans (h : Alike e e') (h' : Alike e' e'') : Alike e e'' := by
  obtain ⟨_, rfl⟩ := h
  obtain ⟨t, rfl⟩ := h'
  exact ⟨t, rfl⟩

theorem Alike.stack_eq (h : Alike e e') : e'.stack = e.stack := by
  obtain ⟨_, rfl⟩ := h
  rfl

/-- Calls with different times find alike executions. -/
theorem alike_wake (e : Execution) (t t' : Float) : Alike (e.wake t) (e.wake t') := by
  refine ⟨if 0.0 < t' then t' else 0.0, ?_⟩
  unfold Execution.wake
  dsimp only
  split
  · rw [enter_eq, enter_eq]
  · rfl

/-- A call enters nothing if something is being run. -/
theorem alike_wake_self (h : e.stack ≠ []) (t : Float) : Alike e (e.wake t) := by
  refine ⟨if 0.0 < t then t else 0.0, ?_⟩
  unfold Execution.wake
  exact if_neg fun hempty => h (List.isEmpty_iff.mp hempty)

/-! ## The steps of a turn -/

/-- **The steps of a turn follow each other**: the first starts from the execution that the turn starts from, and unless
the turn has completed the program, it leaves behind what the last has led to. -/
structure LinkedTurn (e : Execution) (ds : List Dispatch) (e' : Execution) : Prop where
  first : ∀ d, ds.head? = some d → d.before = e
  chain : ds.IsChain fun d d' => d.step.execution = d'.before ∧ d.step.goesOn = true
  last : e'.finished = true ∨ e'.stack ≠ [] ∧ e' = (ds.getLast?.map (·.step.execution)).getD e

theorem Turns.linked {n : Nat} {ds : List Dispatch} {r : Except Fault Outcome} (h : Turns around actor n e ds e' r)
    (hrooted : e.Rooted) : LinkedTurn e ds e' := by
  induction h with
  | completed _ => exact ⟨fun _ hnone => (by cases hnone), .nil, .inl rfl⟩
  | exhausted hstack => exact ⟨fun _ hnone => (by cases hnone), .nil, .inr ⟨hstack ▸ List.cons_ne_nil _ _, rfl⟩⟩
  | failed hstack _ => exact ⟨fun _ hnone => (by cases hnone), .nil, .inr ⟨hstack ▸ List.cons_ne_nil _ _, rfl⟩⟩
  | @yielded n e top rest s hstack hstep hgo =>
    have hne := hrooted.standing.ne_nil_of_yields hstack hstep hgo
    exact ⟨fun d hd => by cases hd; rfl, .singleton _, .inr ⟨hne, rfl⟩⟩
  | @goesOn n e top rest s ds e' r hstack hstep hgo _ ih =>
    obtain ⟨hfirst, hchain, hlast⟩ := ih (hrooted.step hstack hstep)
    refine ⟨fun d hd => by cases hd; rfl, List.isChain_cons.mpr ⟨?_, hchain⟩, ?_⟩
    · exact fun d hd => ⟨(hfirst d hd).symm, hgo⟩
    · cases ds with
      | nil => exact hlast
      | cons d ds =>
        rw [List.getLast?_cons_cons]
        obtain hfinished | ⟨hne, heq⟩ := hlast
        · exact .inl hfinished
        · refine .inr ⟨hne, heq.trans ?_⟩
          cases hd : (d :: ds).getLast? with
          | none => simp at hd
          | some _ => rfl

/-! ## The steps of a run -/

/-- **A row of entries** that starts from a given execution, each entry a step of a rooted execution that goes on where
the one before it has stopped. -/
structure Linked (e : Execution) (es : List Occurrence) : Prop where
  first : ∀ x, es.head? = some x → Alike e x.before
  chain : es.IsChain Occurrence.Follows
  dispatched : ∀ x ∈ es, ∃ top rest, Dispatched x.call.around x.call.actor x.dispatch top rest

theorem history_of_finished (n : Nat) (calls : List Call) (h : e.finished = true) : e.history n calls = [] := by
  induction calls generalizing n with
  | nil => rfl
  | cons c calls ih =>
    rw [history, dispatchesIn_of_finished c h, Execution.call, turn_of_finished c.dt h]
    exact ih (n + 1)

theorem le_number (n : Nat) (calls : List Call) : ∀ x ∈ e.history n calls, n ≤ x.number := by
  induction calls generalizing n e with
  | nil => exact List.forall_mem_nil _
  | cons c calls ih =>
    intro x hx
    rcases List.mem_append.mp hx with hx | hx
    · obtain ⟨d, -, rfl⟩ := List.mem_map.mp hx
      exact Nat.le_refl n
    · exact Nat.le_of_succ_le (ih (n + 1) x hx)

/-- After a turn that has not finished, the next entry starts from what the turn has left behind. -/
theorem Resting.next_alike (h : e.Resting) (c : Call) (hfinished : e.finished = false) {n : Nat} {calls : List Call}
    (hrest : Linked ((e.call c).execution.wake 0.0) ((e.call c).execution.history n calls)) {y : Occurrence}
    (hy : ((e.call c).execution.history n calls).head? = some y) :
    Alike (((e.dispatchesIn c).getLast?.map (·.step.execution)).getD (e.wake c.dt)) y.before := by
  have hturn := (turns_call c hfinished).linked (h.wake hfinished c.dt)
  obtain hover | ⟨hne, heq⟩ := hturn.last
  · rw [history_of_finished _ _ hover] at hy
    cases hy
  · rw [← heq]
    exact (alike_wake_self hne 0.0).trans (hrest.first y hy)

/-- **The history of a run**: each entry goes on where the one before it has stopped. -/
theorem Resting.linked (h : e.Resting) (n : Nat) (calls : List Call) : Linked (e.wake 0.0) (e.history n calls) := by
  induction calls generalizing n e with
  | nil => exact ⟨fun _ hnone => (by cases hnone), .nil, List.forall_mem_nil _⟩
  | cons c calls ih =>
    cases hfinished : e.finished with
    | true =>
      rw [history_of_finished n (c :: calls) hfinished]
      exact ⟨fun _ hnone => (by cases hnone), .nil, List.forall_mem_nil _⟩
    | false =>
      obtain ⟨hdispatched, hresting⟩ := h.call c
      have hrest := ih hresting (n + 1)
      have hturn := (turns_call c hfinished).linked (h.wake hfinished c.dt)
      -- within the call the steps follow each other; between this call and the next, the time given is all that
      -- changes
      refine ⟨fun x hx => ?_, List.isChain_append.mpr ⟨?_, hrest.chain, ?_⟩, fun x hx => ?_⟩
      · rw [history, List.head?_append, List.head?_map] at hx
        cases hd : (e.dispatchesIn c).head? with
        | some d =>
          rw [hd] at hx
          cases hx
          show Alike (e.wake 0.0) d.before
          rw [hturn.first d hd]
          exact alike_wake e 0.0 c.dt
        -- a call without steps: the first entry is of a later call
        | none =>
          rw [hd] at hx
          have hnone := h.next_alike c hfinished hrest hx
          rw [List.head?_eq_none_iff.mp hd] at hnone
          exact (alike_wake e 0.0 c.dt).trans hnone
      · rw [List.isChain_map]
        refine hturn.chain.imp fun d d' hd => ⟨⟨d'.before.allowance, ?_⟩, Nat.le_refl n, fun hgo => ?_⟩
        · show d'.before = { d.step.execution with allowance := d'.before.allowance }
          rw [hd.1]
        · cases hd.2.symm.trans hgo
      · intro x hx y hy
        rw [List.getLast?_map] at hx
        obtain ⟨d, hd, rfl⟩ := Option.map_eq_some_iff.mp hx
        have halike := h.next_alike c hfinished hrest hy
        rw [hd] at halike
        have hlt : n < y.number := le_number (n + 1) calls y (List.mem_of_head? hy)
        exact ⟨halike, Nat.le_of_lt hlt, fun _ => hlt⟩
      · rcases List.mem_append.mp hx with hx | hx
        · obtain ⟨d, hd, rfl⟩ := List.mem_map.mp hx
          exact hdispatched d hd
        · exact hrest.dispatched x hx

theorem Linked.left {es es' : List Occurrence} (h : Linked e (es ++ es')) : Linked e es := by
  refine ⟨fun x hx => h.first x ?_, h.chain.left_of_append, fun x hx => h.dispatched x (List.mem_append_left _ hx)⟩
  rw [List.head?_append, hx]
  rfl

/-- The rest of a history starts from what its first entry has led to. -/
theorem Linked.tail {x : Occurrence} {es : List Occurrence} (h : Linked e (x :: es)) : Linked x.after es := by
  obtain ⟨hfollows, hchain⟩ := List.isChain_cons.mp h.chain
  exact ⟨fun y hy => (hfollows y hy).alike, hchain, fun y hy => h.dispatched y (List.mem_cons_of_mem _ hy)⟩

/-- Calls are numbered in their order. -/
theorem Linked.number_le {x : Occurrence} {es : List Occurrence} (h : Linked e (x :: es)) : ∀ y ∈ es, x.number ≤ y.number := by
  have hchain : ((x :: es).map Occurrence.number).IsChain (· ≤ ·) := by
    rw [List.isChain_map]
    exact h.chain.imp fun _ _ hfollows => hfollows.le
  have hpairwise := List.pairwise_map.mp hchain.pairwise
  exact (List.pairwise_cons.mp hpairwise).1

/-- What comes after a turn was given back comes in a later call. -/
theorem Linked.number_lt {x : Occurrence} {es : List Occurrence} (h : Linked e (x :: es))
    (hgo : x.dispatch.step.goesOn = false) : ∀ y ∈ es, x.number < y.number := by
  intro y hy
  cases es with
  | nil => cases hy
  | cons z es =>
    have hlt : x.number < z.number := ((List.isChain_cons_cons.mp h.chain).1).lt hgo
    rcases List.mem_cons.mp hy with rfl | hy
    · exact hlt
    · exact Nat.lt_of_lt_of_le hlt (h.tail.number_le y hy)

end Execution

end TaskScript
