import TaskScript.Grid
import TaskScript.Proofs.Execution.Stack
import TaskScript.Proofs.Script.Places

/-!
# `Proofs.Execution.Refinement`: executions do what their scripts mean

The executor works on a flat arena with a stack of frames, and is cut off again and again: by the limit of
steps, by actions, and by steps that fail. The document is nested, and its meaning is recursive
(`Script.Runs`). This module proves that the one is the other.

* A turn does what is left of the script, as far as it gets (`forward_turns`).
* `Tracks` says where an execution stands; it is kept by every call (`Tracks.call`), so it holds after any
  run (`Tracks.after`).
* `run_follows_script`: the record of a run is one of the script, and the result of the last call tells how
  it ends.

## Contents
- `Leaves`, `TurnSimulates`, `forward_turns`: **one turn**.
- `Tracks`, `tracks_start`, `Tracks.call`, `Tracks.after`: **runs**.
- `Tracks.completes`: a complete record ends the run.
- `ending`, `run_follows_script`.
-/

namespace TaskScript.Execution

open Pending (Continues Fails RunsAll weightAll)

variable {around : Surroundings} {actor : ActorId} {e e' : Execution} {ps ps' : List Pending}
  {selected : Option Cube}

/-! ## One turn -/

/-- How a turn of at most `n` steps, those in `ds`, can end when `ps` is left. -/
inductive Leaves (around : Surroundings) (actor : ActorId) (n : Nat) (ds : List Dispatch) (e : Execution)
    (ps : List Pending) : Except Fault Outcome → Prop
  | completed : ps = [] → e.finished = true → Leaves around actor n ds e ps (.ok .completed)
  | suspended {x qs} :
      ps = x :: qs → e.finished = false → ds.length = n ∨ e.atAction = true →
      Leaves around actor n ds e ps (.ok .suspended)
  | error {cause x qs} :
      ps = x :: qs → e.finished = false → Fails e.selected ⟨around, actor, e.env⟩ cause x →
      Leaves around actor n ds e ps (.error cause)

theorem Leaves.cons {n : Nat} {d : Dispatch} {ds : List Dispatch} {r : Except Fault Outcome}
    (h : Leaves around actor n ds e ps r) : Leaves around actor (n + 1) (d :: ds) e ps r := by
  cases h with
  | completed hps hfinished => exact .completed hps hfinished
  | suspended hps hfinished hwhy =>
    exact .suspended hps hfinished (hwhy.imp (fun h => congrArg (· + 1) h) id)
  | error hps hfinished hfails => exact .error hps hfinished hfails

theorem Leaves.eq_nil {n : Nat} {ds : List Dispatch} {r : Except Fault Outcome}
    (h : Leaves around actor n ds e ps r) (hover : e.finished = true) : ps = [] := by
  cases h with
  | completed hps _ => exact hps
  | suspended _ hgoing _ => exact absurd (hgoing.symm.trans hover) Bool.noConfusion
  | error _ hgoing _ => exact absurd (hgoing.symm.trans hover) Bool.noConfusion

theorem Leaves.eq_cons {n : Nat} {ds : List Dispatch} {r : Except Fault Outcome}
    (h : Leaves around actor n ds e ps r) (hgoing : e.finished = false) : ∃ x qs, ps = x :: qs := by
  cases h with
  | completed _ hover => exact absurd (hgoing.symm.trans hover) Bool.noConfusion
  | suspended hps _ _ => exact ⟨_, _, hps⟩
  | error hps _ _ => exact ⟨_, _, hps⟩

theorem Fits.eq_nil (h : e.Fits ps) (hstack : e.stack = []) : ps = [] := by
  rw [Fits, hstack] at h
  exact List.forall₂_nil_left_iff.mp h

theorem Fits.eq_cons {frame : Frame} {rest : List Frame} (h : e.Fits ps) (hstack : e.stack = frame :: rest) :
    ∃ x qs, ps = x :: qs := by
  rw [Fits, hstack] at h
  obtain ⟨x, qs, -, -, hps⟩ := List.forall₂_cons_left_iff.mp h
  exact ⟨x, qs, hps⟩

/-- At an action, an action is what is left first. -/
theorem Fits.of_atAction (h : e.Fits ps) (haction : e.atAction = true) :
    ∃ x qs, ps = x :: qs ∧ x.isAction = true := by
  cases hstack : e.stack with
  | nil =>
    rw [atAction, hstack] at haction
    cases haction
  | cons frame rest =>
    rw [atAction, hstack] at haction
    rw [Fits, hstack] at h
    obtain ⟨x, qs, hfit, -, hps⟩ := List.forall₂_cons_left_iff.mp h
    exact ⟨x, qs, hps, hfit.isAction ▸ haction⟩

theorem filterMap_seen_cons (d : Dispatch) (ds : List Dispatch) :
    (d :: ds).filterMap (·.seen around actor) =
      (d.seen around actor).toList ++ ds.filterMap (·.seen around actor) := by
  rw [List.filterMap_eq_flatMap_toList, List.flatMap_cons, ← List.filterMap_eq_flatMap_toList]

/-- **A turn that does what is left**: it does `ds`, and leads from `ps` to `ps'`. -/
structure TurnSimulates (around : Surroundings) (actor : ActorId) (n : Nat) (e : Execution) (ps : List Pending)
    (ds : List Dispatch) (e' : Execution) (ps' : List Pending) (r : Except Fault Outcome) : Prop where
  sameRun : e.SameRun e'
  fits : e'.Fits ps'
  continues : Continues e.selected ps e.env (ds.filterMap (·.seen around actor)) ps' e'.env
  leaves : Leaves around actor n ds e' ps' r
  /-- With nothing left to do the turn does nothing, and what is left gets lighter with every step. -/
  idle : ∀ {env''}, RunsAll e.selected ps e.env [] env'' .done →
    ds.filterMap (·.seen around actor) = [] ∧ weightAll ps' + ds.length ≤ weightAll ps

/-- A turn without a step leaves what was left before it. -/
theorem turnSimulates_nil {n : Nat} {r : Except Fault Outcome} (hsame : e.SameRun e') (henv : e'.env = e.env)
    (hfits : e'.Fits ps) (hleaves : Leaves around actor n [] e' ps r) :
    TurnSimulates around actor n e ps [] e' ps r where
  sameRun := hsame
  fits := hfits
  continues := by
    rw [henv]
    exact .refl ps e.env
  leaves := hleaves
  idle _ := ⟨rfl, Nat.le_refl _⟩

/-- **One turn** does what is left, as far as it gets. -/
theorem forward_turns {n : Nat} {ds : List Dispatch} {r : Except Fault Outcome}
    (h : Turns around actor n e ds e' r) (hfits : e.Fits ps) (hfinished : e.finished = false) :
    ∃ ps', TurnSimulates around actor n e ps ds e' ps' r := by
  induction h generalizing ps with
  | completed hstack =>
    exact ⟨ps, turnSimulates_nil ⟨rfl, rfl, rfl⟩ rfl hfits (.completed (hfits.eq_nil hstack) rfl)⟩
  | exhausted hstack =>
    obtain ⟨x, qs, hps⟩ := hfits.eq_cons hstack
    exact ⟨ps, turnSimulates_nil ⟨rfl, rfl, rfl⟩ rfl hfits (.suspended hps hfinished (.inl rfl))⟩
  | failed hstack hstep =>
    have hforward := forward_step around actor hstack hfits
    rw [hstep] at hforward
    cases hforward with
    | error hps hfails =>
      exact ⟨ps, turnSimulates_nil ⟨rfl, rfl, rfl⟩ rfl hfits (.error hps hfinished hfails)⟩
  | yielded hstack hstep hgo =>
    have hforward := forward_step around actor hstack hfits
    rw [hstep] at hforward
    cases hforward with
    | @ok _ ps' hsim =>
      -- a step that gives the turn back leaves an action on top, so something is left to do
      have haction := hsim.atAction hgo
      obtain ⟨x, qs, hps, -⟩ := hsim.fits.of_atAction haction
      refine ⟨ps', hsim.sameRun, hsim.fits, ?_, ?_, ?_⟩
      · rw [filterMap_seen_cons, List.filterMap_nil, List.append_nil]
        exact hsim.advance.continues
      · exact .suspended hps (hsim.finished.trans hfinished) (.inr haction)
      · intro env'' hrun
        obtain ⟨hseen, hlt⟩ := hsim.advance.weight_lt hrun
        rw [filterMap_seen_cons, List.filterMap_nil, List.append_nil]
        exact ⟨hseen, hlt⟩
  | goesOn hstack hstep hgo _ ih =>
    have hforward := forward_step around actor hstack hfits
    rw [hstep] at hforward
    cases hforward with
    | ok hsim =>
      obtain ⟨ps', hturn⟩ := ih hsim.fits (hsim.finished.trans hfinished)
      have hcont := hsim.advance.continues
      refine ⟨ps', hsim.sameRun.trans hturn.sameRun, hturn.fits, ?_, hturn.leaves.cons, ?_⟩
      · rw [filterMap_seen_cons]
        exact hcont.trans (hsim.sameRun.selected ▸ hturn.continues)
      · -- with nothing left to do, the step did nothing and what it left is lighter
        intro env'' hrun
        obtain ⟨hseen, hlt⟩ := hsim.advance.weight_lt hrun
        have hrest := hcont.goesOn hrun (by rw [hseen, List.nil_append])
        obtain ⟨hseen', hle⟩ := hturn.idle (hsim.sameRun.selected ▸ hrest)
        rw [filterMap_seen_cons, hseen, hseen']
        exact ⟨rfl, by rw [List.length_cons]; omega⟩

/-! ## Runs -/

theorem wake_of_stack {frame : Frame} {rest : List Frame} (dt : Float) (h : e.stack = frame :: rest) :
    e.wake dt = { e with allowance := if 0.0 < dt then dt else 0.0 } := by
  rw [wake, h]
  rfl

theorem sameRun_wake (e : Execution) (dt : Float) :
    e.SameRun (e.wake dt) ∧ (e.wake dt).env = e.env ∧ (e.wake dt).finished = e.finished := by
  unfold wake
  dsimp only
  split
  · rw [enter_eq]
    exact ⟨⟨rfl, rfl, rfl⟩, rfl, rfl⟩
  · exact ⟨⟨rfl, rfl, rfl⟩, rfl, rfl⟩

/-- There always is a statement to be run after an execution was woken. -/
theorem exists_stack_wake (e : Execution) (dt : Float) : ∃ frame rest, (e.wake dt).stack = frame :: rest := by
  unfold wake
  dsimp only
  split
  · rw [enter_eq]
    exact ⟨_, _, rfl⟩
  · rename_i hstack
    exact List.exists_cons_of_ne_nil fun h => hstack (List.isEmpty_iff.mpr h)

theorem atAction_wake (h : e.atAction = true) (dt : Float) : (e.wake dt).atAction = true := by
  cases hstack : e.stack with
  | nil =>
    rw [atAction, hstack] at h
    cases h
  | cons frame rest =>
    rw [wake_of_stack dt hstack]
    exact h

/-- **Where an execution stands** after it did what `record` says: `ps` is what is left of the script. -/
structure Tracks (s : Script) (job : Job) (limit : UInt32) (e : Execution) (record : List Observation)
    (ps : List Pending) : Prop where
  selected : e.selected = job.selected
  maxSteps : e.maxSteps = max limit.toNat 1
  continues : Continues job.selected [.run s] ∅ record ps e.env
  ended : e.finished = true → ps = []
  fits : e.finished = false → ∀ dt, (e.wake dt).Fits ps

variable {s : Script} {job : Job} {limit : UInt32} {record : List Observation}

theorem tracks_start (hbuild : s.build = .ok job.program) (limit : UInt32) :
    Tracks s job limit (.start job limit) [] [.run s] where
  selected := rfl
  maxSteps := rfl
  continues := .refl _ _
  ended := Bool.noConfusion
  fits _ dt := by
    have hroot := Script.at_root_of_build hbuild
    have hwake : (start job limit).wake dt =
        ({ start job limit with allowance := if 0.0 < dt then dt else 0.0 } : Execution).enter
          job.program.root := rfl
    rw [hwake, enter_eq]
    exact .cons (.enter hroot) .nil

/-- After a turn an execution has frames as long as it is not over, so it goes on where it stopped. -/
theorem Fits.wake (h : e.Fits ps) {x : Pending} {qs : List Pending} (hps : ps = x :: qs) (dt : Float) :
    (e.wake dt).Fits ps := by
  cases hstack : e.stack with
  | nil =>
    rw [h.eq_nil hstack] at hps
    cases hps
  | cons frame rest =>
    rw [wake_of_stack dt hstack]
    exact h

/-- **One call.** -/
theorem Tracks.call (h : Tracks s job limit e record ps) (c : Call) :
    ∃ ps', Tracks s job limit (e.call c).execution (record ++ e.observe c) ps' ∧
      Leaves c.around c.actor e.maxSteps (e.dispatchesIn c) (e.call c).execution ps' (e.call c).result ∧
      ∀ {env''}, RunsAll job.selected ps e.env [] env'' .done →
        e.observe c = [] ∧ weightAll ps' + (e.dispatchesIn c).length ≤ weightAll ps := by
  cases hfinished : e.finished with
  | true =>
    have hcall : e.call c = ⟨e, [], .ok .completed⟩ := turn_of_finished c.dt hfinished
    have hnone : e.dispatchesIn c = [] := if_pos hfinished
    -- an execution that is over does nothing more
    rw [hcall, hnone, observe_of_finished c hfinished, List.append_nil]
    exact ⟨ps, h, .completed (h.ended hfinished) hfinished, fun _ => ⟨rfl, Nat.le_refl _⟩⟩
  | false =>
    obtain ⟨hwake, henv, hfin⟩ := sameRun_wake e c.dt
    have hcall : e.call c = steps c.around c.actor (e.wake c.dt).maxSteps (e.wake c.dt) [] :=
      turn_eq_steps c.dt hfinished
    have hsteps : e.dispatchesIn c = (e.wake c.dt).dispatches c.around c.actor (e.wake c.dt).maxSteps :=
      if_neg (by rw [hfinished]; exact Bool.noConfusion)
    have hturns := turns_steps c.around c.actor (e.wake c.dt).maxSteps (e.wake c.dt) []
    rw [← hsteps, ← hcall, hwake.maxSteps] at hturns
    obtain ⟨ps', hturn⟩ := forward_turns hturns (h.fits hfinished c.dt) (hfin.trans hfinished)
    -- waking changes neither the job nor the variables, so the turn does what was left before it
    have hcont := hturn.continues
    have hidle := @hturn.idle
    rw [hwake.selected, h.selected, henv] at hcont
    rw [hwake.selected, h.selected, henv] at hidle
    refine ⟨ps', ⟨?_, ?_, h.continues.trans hcont, ?_, ?_⟩, hturn.leaves, hidle⟩
    · exact (hwake.trans hturn.sameRun).selected.trans h.selected
    · rw [(hwake.trans hturn.sameRun).maxSteps]
      exact h.maxSteps
    · exact hturn.leaves.eq_nil
    · intro hgoing dt
      obtain ⟨x, qs, hps⟩ := hturn.leaves.eq_cons hgoing
      exact hturn.fits.wake hps dt

/-- **A run** of any number of calls. -/
theorem Tracks.after (h : Tracks s job limit e record ps) (calls : List Call) :
    ∃ ps', Tracks s job limit (e.after calls) (record ++ e.trace calls) ps' := by
  induction calls generalizing e record ps with
  | nil => exact ⟨ps, (List.append_nil record).symm ▸ h⟩
  | cons c calls ih =>
    obtain ⟨ps', h', -⟩ := h.call c
    obtain ⟨ps'', h''⟩ := ih h'
    rw [List.append_assoc] at h''
    exact ⟨ps'', h''⟩

/-- Whatever is done of what is left, is done of the script. -/
theorem Tracks.runs (h : Tracks s job limit e record ps) (hwf : s.WellFormed false) {env' : Environment}
    {k : Ending} (hps : RunsAll job.selected ps e.env [] env' k) : s.Runs job.selected ∅ record env' k := by
  have hall := h.continues.prepend hps
  rw [List.append_nil] at hall
  rcases hall.of_single with hrun | hbroken
  · exact hrun
  · exact absurd (hwf.inLoop_of_broken hbroken rfl) Bool.noConfusion

/-- A turn that does not end the run, with nothing left to do, makes all the steps it may. -/
theorem Leaves.length_eq {n : Nat} {ds : List Dispatch} {r : Except Fault Outcome} {env env' : Environment}
    (h : Leaves around actor n ds e ps r) (hfits : e.finished = false → ∀ dt, (e.wake dt).Fits ps)
    (hrun : RunsAll selected ps env [] env' .done) : ps = [] ∨ ds.length = n := by
  cases h with
  | completed hps _ => exact .inl hps
  | error hps _ hfails =>
    rw [hps] at hrun
    exact absurd (hfails.not_isIdle.symm.trans hrun.isIdle) Bool.noConfusion
  | suspended _ hgoing hwhy =>
    refine .inr (hwhy.resolve_right fun haction => ?_)
    obtain ⟨x, qs, hps, hx⟩ := (hfits hgoing 0).of_atAction (atAction_wake haction 0)
    rw [hps] at hrun
    exact absurd ((Pending.not_isIdle_of_isAction hx).symm.trans hrun.isIdle) Bool.noConfusion

/-- **A complete record ends the run.** Once everything is done that the script asks for, further calls do
nothing, and after some of them the execution is over. -/
theorem Tracks.completes (h : Tracks s job limit e record ps) {env' : Environment}
    (hrun : s.Runs job.selected ∅ record env' .done) (more : List Call) (hlong : weightAll ps ≤ more.length) :
    e.trace more = [] ∧ (e.after more).finished = true := by
  induction more generalizing e record ps with
  | nil =>
    -- no call is left, so what is left weighs nothing; but something is left while the execution goes on
    refine ⟨rfl, Bool.not_eq_false _ |>.mp fun hgoing => ?_⟩
    obtain ⟨frame, rest, hstack⟩ := exists_stack_wake e 0
    obtain ⟨x, qs, hps⟩ := (h.fits hgoing 0).eq_cons hstack
    have hpos := x.weight_pos
    rw [hps, Pending.weightAll_cons, List.length_nil] at hlong
    omega
  | cons c more ih =>
    cases hfinished : e.finished with
    | true =>
      obtain ⟨hafter, htrace⟩ := run_of_finished (c :: more) hfinished
      exact ⟨htrace, by rw [hafter, hfinished]⟩
    | false =>
      obtain ⟨ps', h', hleaves, hidle⟩ := h.call c
      obtain ⟨hobserve, hweight⟩ := hidle (h.continues.goesOn (.single hrun) (List.append_nil record).symm)
      rw [hobserve, List.append_nil] at h'
      have hleft := h'.continues.goesOn (.single hrun) (List.append_nil record).symm
      -- the call made all the steps it may, at least one, and each made what is left lighter
      have hlight : weightAll ps' ≤ more.length := by
        rcases hleaves.length_eq h'.fits hleft with rfl | hlength
        · exact Nat.zero_le _
        · have hpos := h.maxSteps
          have hmax := Nat.le_max_right limit.toNat 1
          rw [List.length_cons] at hlong
          omega
      obtain ⟨htrace, hover⟩ := ih h' hrun hlight
      rw [trace, hobserve, htrace]
      exact ⟨rfl, hover⟩

/-! ## The result of a call -/

/-- The ending of a record that its last call gives it. -/
def ending (e : Execution) (c : Call) : Ending :=
  match (e.call c).result with
  | .ok .completed => .done
  | .ok .suspended => .cut
  | .error cause => .failed ⟨c.around, c.actor, (e.call c).execution.env⟩ cause

theorem ending_of_suspended {c : Call} (h : (e.call c).result = .ok .suspended) : e.ending c = .cut := by
  rw [ending, h]

theorem ending_of_completed {c : Call} (h : (e.call c).result = .ok .completed) : e.ending c = .done := by
  rw [ending, h]

theorem Leaves.runsAll {c : Call} {n : Nat} {ds : List Dispatch}
    (h : Leaves c.around c.actor n ds (e.call c).execution ps (e.call c).result) :
    RunsAll (e.call c).execution.selected ps (e.call c).execution.env [] (e.call c).execution.env
      (e.ending c) := by
  rw [ending]
  generalize (e.call c).result = r at h
  cases h with
  | completed hps _ =>
    rw [hps]
    exact .nil
  | suspended hps _ _ =>
    rw [hps]
    exact Pending.runsAll_cut (List.cons_ne_nil _ _)
  | error hps _ hfails =>
    rw [hps]
    exact hfails.runsAll

/-- **Executions do what their scripts mean.** Take any run of a job whose program comes from the script `s`
and passes the check: any calls, each with a world, an actor and a time of its own, under any limit. Then what
the turns report to have done is, act by act and each with the moment at which it was done, the record of an
execution of `s`.

The execution of `s` is a complete one if the last call ends with the program completed, has failed where the
call failed, and is cut short if the call was suspended, which happens only when the steps are used up or an
action is being run. And no execution hangs at its end: if the record is already complete, then the
variables are those that `s` leaves, and further calls do nothing but complete the program. -/
theorem run_follows_script (hbuild : s.build = .ok job.program) (hcheck : job.program.check = .ok ())
    (limit : UInt32) (calls : List Call) (c : Call) :
    let e := (start job limit).after calls
    let turn := e.call c
    let record := (start job limit).trace (calls ++ [c])
    record.map (·.act) = ((start job limit).deeds (calls ++ [c])).map (·.act) ∧
      s.Runs job.selected ∅ record turn.execution.env (e.ending c) ∧
      (turn.result = .ok .suspended →
        (e.dispatchesIn c).length = max limit.toNat 1 ∨ turn.execution.atAction = true) ∧
      ∀ env', s.Runs job.selected ∅ record env' .done →
        env' = turn.execution.env ∧
          ∃ n, ∀ more : List Call, n ≤ more.length → ∀ c',
            turn.execution.trace more = [] ∧
              ((turn.execution.after more).call c').result = .ok .completed := by
  intro e turn record
  -- the last call is taken apart from the others, because its result tells how the record ends
  obtain ⟨ps, h⟩ := (tracks_start hbuild limit).after calls
  obtain ⟨ps', h', hleaves, -⟩ := h.call c
  have hrecord : [] ++ (start job limit).trace calls ++ e.observe c = record := by
    rw [List.nil_append, show record = _ from trace_append _ calls [c], trace, trace, List.append_nil]
  rw [hrecord] at h'
  have hruns := h'.runs (Script.wellFormed_of_check hbuild hcheck) (h'.selected ▸ hleaves.runsAll)
  refine ⟨map_act_trace _ _, hruns, ?_, fun env' hdone => ⟨?_, weightAll ps', fun more hmore c' => ?_⟩⟩
  · intro hsuspended
    rw [show (e.call c).result = _ from hsuspended] at hleaves
    cases hleaves with
    | suspended _ _ hwhy => exact h.maxSteps ▸ hwhy
  · rw [hdone.env_eq, hruns.env_eq]
  · obtain ⟨htrace, hover⟩ := h'.completes hdone more hmore
    refine ⟨htrace, ?_⟩
    rw [call, turn_of_finished c'.dt hover]

/-- The theorem applies, for instance to a loop that prints, works and is left by a `break`. In three steps a call gets
as far as the printing; the second call requests the work, and the third finds it done and completes the program. -/
theorem run_follows_script_of_loop :
    let s : Script := .whileDo (.bool (.literal true))
      (.sequence [.leaf (.print (.position .here)), .leaf (.action (.work .here)), .leaf .breakLoop])
    let job : Job := ⟨⟨1⟩, "look", 0, ⟨(s.nodes none 0).toArray, s.rootAt 0⟩, none⟩
    let c : Call := ⟨(Grid.addActor ⟨1, 1, 1, ∅, ∅, ∅, ∅, #[]⟩ ⟨1⟩ ⟨1⟩ ⟨0, 0, 0⟩).surroundings, ⟨1⟩, 1.0⟩
    s.build = .ok job.program ∧ job.program.check = .ok () ∧
      [(start job 3).call c, ((start job 3).after [c]).call c, ((start job 3).after [c, c]).call c].map (·.result) =
        [.ok .suspended, .ok .suspended, .ok .completed] ∧
      ((start job 3).trace [c, c, c]).map (·.act) =
        [.decided true, .printed (.position ⟨0, 0, 0⟩), .requested (.work ⟨1⟩ ⟨0, 0, 0⟩), .retired] ∧
      s.Runs none ∅ ((start job 3).trace [c, c]) (((start job 3).after [c]).call c).execution.env .cut ∧
      s.Runs none ∅ ((start job 3).trace [c, c, c]) (((start job 3).after [c, c]).call c).execution.env .done := by
  intro s job c
  have hbuild : s.build = .ok job.program := Script.build_eq s
  have hcheck : job.program.check = .ok () := by decide
  obtain ⟨-, hcut, -⟩ := run_follows_script hbuild hcheck 3 [c] c
  obtain ⟨hacts, hdone, -⟩ := run_follows_script hbuild hcheck 3 [c, c] c
  rw [ending_of_suspended (by decide)] at hcut
  rw [ending_of_completed (by decide)] at hdone
  -- the calls are put in one row first, since the runs are too long to be unfolded
  simp only [List.cons_append, List.nil_append] at hcut hacts hdone
  exact ⟨hbuild, hcheck, by decide, hacts.trans (by decide), hcut, hdone⟩

end TaskScript.Execution
