import TaskScript.Proofs.Execution.Uninterrupted
import TaskScript.Proofs.Task.Lookup

/-!
# `Proofs.Execution.StepLimit`: the limit of steps only delays

A `Session` runs a job in a grid, call by call, until it ends. The grid is changed by the requests of the job, and the
activity of the actor is finished before the next call.

So every call finds the same world: a request only makes its actor busy, and by the next call the actor is not
(`finishActivity_apply`). A session that ends is then the run without interruptions, whatever its limit, and with enough
calls every session gets to the end of that run.

## Contents
- `Grid.finishPending`, `Grid.finishActivity_apply`: **a grid between two calls**.
- `Session`, `Session.turn`, `Session.run`, `Going`: a job in a grid.
- `Going.uninterrupted`, `Going.run_of_uninterrupted`.
- `limit_only_delays`.
-/

namespace TaskScript

/-! ## Grids -/

namespace Grid

variable {g : Grid} {actor : ActorId} {r : Request}

/-- The activity of an actor is finished if it is pending. -/
def finishPending (g : Grid) (actor : ActorId) : Grid :=
  if g.surroundings.isFinished actor then g else g.finishActivity actor

/-- Nothing is finished that is not pending. -/
theorem finishPending_eq (g : Grid) (actor : ActorId) : g.finishPending actor = g.finishActivity actor := by
  unfold finishPending
  split
  · rename_i hfinished
    have hactors : g.actors.modify actor ({ · with busy := false }) = g.actors := by
      refine Std.ExtTreeMap.ext_getElem? fun other => ?_
      rw [lookup_modify]
      split
      · rename_i hother
        subst hother
        have hidle : g.actors[actor]?.all (!·.busy) = true := hfinished
        cases hfound : g.actors[actor]? with
        | none => rfl
        | some a =>
          rw [hfound] at hidle
          have hbusy : a.busy = false := by simpa using hidle
          rw [Option.map_some, ← hbusy]
      · rfl
    rw [finishActivity, hactors]
  · rfl

theorem finishActivity_idem (g : Grid) (actor : ActorId) :
    (g.finishActivity actor).finishActivity actor = g.finishActivity actor := by
  rw [finishActivity, show (g.finishActivity actor).actors = g.actors.modify actor _ from rfl, modify_modify]
  rfl

/-- **A request changes nothing but the list of requests** once its activity is finished. -/
theorem finishActivity_apply (hr : performer r = actor) :
    (g.apply r).finishActivity actor = { g.finishActivity actor with requests := g.requests.push r } := by
  subst hr
  rw [finishActivity, show (g.apply r).actors = g.actors.modify (performer r) _ from rfl, modify_modify]
  rfl

theorem finishActivity_foldl_apply {rs : List Request} (hrs : ∀ r ∈ rs, performer r = actor) :
    (rs.foldl apply g).finishActivity actor =
      { g.finishActivity actor with requests := g.requests ++ rs.toArray } := by
  induction rs generalizing g with
  | nil => simp [finishActivity]
  | cons r rs ih =>
    rw [List.foldl_cons, ih fun r' hr' => hrs r' (List.mem_cons_of_mem _ hr'),
      finishActivity_apply (hrs r List.mem_cons_self)]
    simp [apply]

theorem requests_foldl_apply (rs : List Request) : (rs.foldl apply g).requests = g.requests ++ rs.toArray := by
  induction rs generalizing g with
  | nil => simp
  | cons r rs ih =>
    rw [List.foldl_cons, ih]
    simp [apply]

end Grid

/-- Who evaluates an action asks for itself. -/
theorem performer_request {scope : Scope} {a : Action} {r : Request} (h : scope.request a = .ok r) :
    Grid.performer r = scope.self := by
  cases Scope.request_eq_ok_iff.mp h <;> rfl

/-- Requests are made of the actor of the call. -/
theorem Execution.Resting.performer_eq {e : Execution} (h : e.Resting) (c : Call) :
    ∀ r ∈ (e.call c).requests, Grid.performer r = c.actor := by
  intro r hr
  rw [Execution.requests_call] at hr
  obtain ⟨d, hd, hrequest⟩ := List.mem_filterMap.mp hr
  obtain ⟨top, rest, hdispatched⟩ := (h.call c).1 d hd
  have hstride := hdispatched.stride
  obtain ⟨before, s⟩ := d
  dsimp only at hstride hrequest
  cases hstride with
  | enters _ _ _ _ _ hquiet => cases hquiet.symm.trans hrequest
  | leaves _ _ _ hquiet => cases hquiet.symm.trans hrequest
  | requests _ _ hscope =>
    cases hrequest
    exact performer_request hscope
  | _ => cases hrequest

/-! ## Sessions -/

/-- A job that is run in a grid: how far it has got, what was printed, and how the last call has ended. -/
structure Session where
  execution : Execution
  grid : Grid
  output : List Value := []
  result : Except Fault Outcome := .ok .suspended

namespace Session

open TaskScript.Execution (Uninterrupted Resting)

/-- A session before the first call. -/
def start (job : Job) (limit : UInt32) (grid : Grid) : Session where
  execution := Execution.start job limit
  grid

/-- One call with `dt` seconds, unless the session has ended. The activity of the actor is finished first if it is
pending, and the requests of the call are applied to the grid. -/
def turn (actor : ActorId) (s : Session) (dt : Float) : Session :=
  match s.result with
  | .ok .suspended =>
    let grid := s.grid.finishPending actor
    let t := s.execution.turn grid.surroundings actor dt
    { execution := t.execution
      grid := t.requests.foldl Grid.apply grid
      output := s.output ++ t.output
      result := t.result }
  | _ => s

/-- Calls until the session ends. -/
def run (actor : ActorId) (s : Session) (dts : List Float) : Session :=
  dts.foldl (turn actor) s

variable {s : Session} {base : Grid} {actor : ActorId} {dt : Float} {dts : List Float}

theorem run_of_ended (dts : List Float) (h : s.result ≠ .ok .suspended) : s.run actor dts = s := by
  induction dts with
  | nil => rfl
  | cons dt dts ih =>
    have hturn : s.turn actor dt = s := by
      unfold turn
      split
      · rename_i hsuspended
        exact absurd hsuspended h
      · rfl
    rw [run, List.foldl_cons, hturn]
    exact ih

/-- **A session that goes on**, in a grid that is as it was at first once the activity of the actor is finished. -/
structure Going (base : Grid) (actor : ActorId) (s : Session) : Prop where
  resting : s.execution.Resting
  unfinished : s.execution.finished = false
  result : s.result = .ok .suspended
  grid : s.grid.finishActivity actor = { base with requests := s.grid.requests }

theorem going_start {job : Job} (hjob : job.Fresh) (limit : UInt32) (g : Grid) (actor : ActorId) :
    Going (g.finishActivity actor) actor (start job limit g) :=
  ⟨Execution.resting_start hjob limit, rfl, rfl, rfl⟩

/-- Every call finds the same world. -/
def Going.call (base : Grid) (actor : ActorId) (dt : Float) : Call :=
  ⟨base.surroundings, actor, dt⟩

theorem Going.turn_eq (h : Going base actor s) (dt : Float) :
    s.turn actor dt =
      { execution := (s.execution.call (Going.call base actor dt)).execution
        grid := (s.execution.call (Going.call base actor dt)).requests.foldl Grid.apply
          { base with requests := s.grid.requests }
        output := s.output ++ (s.execution.call (Going.call base actor dt)).output
        result := (s.execution.call (Going.call base actor dt)).result } := by
  unfold turn
  rw [h.result, Grid.finishPending_eq, h.grid]
  rfl

/-- What a call adds to a session. -/
theorem Going.turn_adds (h : Going base actor s) (dt : Float) :
    (s.turn actor dt).execution = (s.execution.call (Going.call base actor dt)).execution ∧
      (s.turn actor dt).result = (s.execution.call (Going.call base actor dt)).result ∧
      (s.turn actor dt).output =
        s.output ++ (s.execution.call (Going.call base actor dt)).deeds.filterMap Deed.printed? ∧
      (s.turn actor dt).grid.requests =
        s.grid.requests ++ ((s.execution.call (Going.call base actor dt)).deeds.filterMap Deed.request?).toArray := by
  rw [h.turn_eq]
  exact ⟨rfl, rfl, rfl, Grid.requests_foldl_apply _⟩

/-- A session that is suspended by a call goes on. -/
theorem Going.turn (h : Going base actor s) (hdt : 0.0 < dt) (hr : (s.turn actor dt).result = .ok .suspended) :
    Going base actor (s.turn actor dt) := by
  have hrequests := (h.turn_adds dt).2.2.2
  rw [h.turn_eq] at hr hrequests ⊢
  obtain ⟨hresting, hunfinished, -⟩ := (h.resting.uninterrupted h.unfinished (Going.call base actor dt) hdt).2 hr
  refine ⟨hresting, hunfinished, hr, ?_⟩
  have hidle : ({ base with requests := s.grid.requests } : Grid).finishActivity actor =
      { base with requests := s.grid.requests } := by
    rw [← h.grid, Grid.finishActivity_idem]
  have hperformers : ∀ r ∈ (s.execution.call (Going.call base actor dt)).requests, Grid.performer r = actor :=
    h.resting.performer_eq (Going.call base actor dt)
  dsimp only at hrequests ⊢
  rw [hrequests, Grid.finishActivity_foldl_apply hperformers, hidle]
  rfl

/-- **A session that ends is the run without interruptions.** -/
theorem Going.uninterrupted (h : Going base actor s) (hpos : ∀ dt ∈ dts, 0.0 < dt)
    (hend : (s.run actor dts).result ≠ .ok .suspended) :
    ∃ n done, Uninterrupted base.surroundings actor n s.execution.awake done (s.run actor dts).execution.env
        (s.run actor dts).result ∧
      (s.run actor dts).output = s.output ++ done.filterMap Deed.printed? ∧
      (s.run actor dts).grid.requests = s.grid.requests ++ (done.filterMap Deed.request?).toArray := by
  induction dts generalizing s with
  | nil => exact absurd h.result hend
  | cons dt dts ih =>
    obtain ⟨hdt, hpos⟩ := List.forall_mem_cons.mp hpos
    obtain ⟨hends, hsuspends⟩ := h.resting.uninterrupted h.unfinished (Going.call base actor dt) hdt
    obtain ⟨hexecution, hresult, houtput, hrequests⟩ := h.turn_adds dt
    rw [show s.run actor (dt :: dts) = (s.turn actor dt).run actor dts from rfl] at hend ⊢
    by_cases hr : (s.turn actor dt).result = .ok .suspended
    · obtain ⟨n, done, hrest, hout, hmade⟩ := ih (h.turn hdt hr) hpos hend
      obtain ⟨-, -, m, -, hiff⟩ := hsuspends (hresult ▸ hr)
      refine ⟨_, _, (hiff _ _ _ _).mpr ⟨n, done, rfl, rfl, hexecution ▸ hrest⟩, ?_, ?_⟩
      · rw [hout, houtput, List.filterMap_append, List.append_assoc]
      · rw [hmade, hrequests, List.filterMap_append]
        simp
    · obtain ⟨n, hrun⟩ := hends (hresult ▸ hr)
      rw [run_of_ended dts hr, hexecution, hresult]
      exact ⟨n, _, hrun, houtput, hrequests⟩

/-- **The run without interruptions is done by any session** that has enough calls. -/
theorem Going.run_of_uninterrupted {n : Nat} {done : List Deed} {env : Environment} {r : Except Fault Outcome}
    (h : Going base actor s) (hrun : Uninterrupted base.surroundings actor n s.execution.awake done env r)
    (hpos : ∀ dt ∈ dts, 0.0 < dt) (hlength : n < dts.length) :
    (s.run actor dts).result = r ∧ (s.run actor dts).output = s.output ++ done.filterMap Deed.printed? ∧
      (s.run actor dts).grid.requests = s.grid.requests ++ (done.filterMap Deed.request?).toArray ∧
      (s.run actor dts).execution.env = env := by
  induction dts generalizing s n done with
  | nil => exact absurd hlength (Nat.not_lt_zero n)
  | cons dt dts ih =>
    obtain ⟨hdt, hpos⟩ := List.forall_mem_cons.mp hpos
    obtain ⟨hends, hsuspends⟩ := h.resting.uninterrupted h.unfinished (Going.call base actor dt) hdt
    obtain ⟨hexecution, hresult, houtput, hrequests⟩ := h.turn_adds dt
    rw [show s.run actor (dt :: dts) = (s.turn actor dt).run actor dts from rfl]
    by_cases hr : (s.turn actor dt).result = .ok .suspended
    · obtain ⟨-, -, m, hm, hiff⟩ := hsuspends (hresult ▸ hr)
      obtain ⟨n', done', rfl, rfl, hrest⟩ := (hiff _ _ _ _).mp hrun
      have hfewer : n' < dts.length := by
        rw [List.length_cons] at hlength
        omega
      obtain ⟨hends', hout, hmade, henv⟩ := ih (h.turn hdt hr) (hexecution ▸ hrest) hpos hfewer
      refine ⟨hends', ?_, ?_, henv⟩
      · rw [hout, houtput, List.filterMap_append, List.append_assoc]
      · rw [hmade, hrequests, List.filterMap_append]
        simp
    · obtain ⟨n', hrun'⟩ := hends (hresult ▸ hr)
      obtain ⟨rfl, rfl, rfl⟩ := hrun.unique hrun'
      rw [run_of_ended dts hr, hexecution]
      exact ⟨hresult, houtput, hrequests, rfl⟩

/-! ## Two limits -/

variable {job : Job}

/-- Under every limit the run without interruptions is the same. -/
theorem awake_start (job : Job) (m m' : UInt32) :
    (Execution.start job m).awake = (Execution.start job m').awake := by
  have hawake : ∀ limit : UInt32, (Execution.start job limit).awake =
      (Execution.start job limit).unlimited.enter job.program.root := by
    intro limit
    rw [Execution.enter_unlimited, Execution.awake]
    unfold Execution.wake
    dsimp only
    rw [show (Execution.start job limit).stack.isEmpty = true from rfl, if_pos rfl, ← Execution.enter_unlimited,
      ← Execution.enter_unlimited]
    rfl
  rw [hawake, hawake]
  rfl

/-- **The limit of steps only delays.** A job is run in a grid that changes by its requests only, and whose actor has
finished by the next call. If the calls of a session under one limit have ended, be it that the program is completed or
that a step has failed, then under every limit enough calls end in the same way, with the same output, the same requests
and the same variables. -/
theorem limit_only_delays (hjob : job.Fresh) (g : Grid) (actor : ActorId) (m₁ m₂ : UInt32) {dts₁ : List Float}
    (hpos : ∀ dt ∈ dts₁, 0.0 < dt) (hend : ((start job m₁ g).run actor dts₁).result ≠ .ok .suspended) :
    ∃ n, ∀ dts₂ : List Float, (∀ dt ∈ dts₂, 0.0 < dt) → n < dts₂.length →
      let s₁ := (start job m₁ g).run actor dts₁
      let s₂ := (start job m₂ g).run actor dts₂
      s₂.result = s₁.result ∧ s₂.output = s₁.output ∧ s₂.grid.requests = s₁.grid.requests ∧
        s₂.execution.env = s₁.execution.env := by
  obtain ⟨n, done, hrun, houtput, hrequests⟩ := (going_start hjob m₁ g actor).uninterrupted hpos hend
  refine ⟨n, fun dts₂ hpos₂ hlength => ?_⟩
  intro s₁ s₂
  have hrun₂ : Uninterrupted (g.finishActivity actor).surroundings actor n (start job m₂ g).execution.awake done
      s₁.execution.env s₁.result := by
    rw [show (start job m₂ g).execution.awake = (start job m₁ g).execution.awake from awake_start job m₂ m₁]
    exact hrun
  obtain ⟨hresult, hout, hmade, henv⟩ := (going_start hjob m₂ g actor).run_of_uninterrupted hrun₂ hpos₂ hlength
  exact ⟨hresult, hout.trans houtput.symm, hmade.trans hrequests.symm, henv⟩

/-- The theorem applies, for instance to a program that prints and works, and takes six calls of one step each. -/
theorem limit_only_delays_work :
    let s : Script := .sequence [.leaf (.print (.position .here)), .leaf (.action (.work .here))]
    let job : Job := ⟨⟨1⟩, "work", 0, ⟨(s.nodes none 0).toArray, s.rootAt 0⟩, none⟩
    let g : Grid := Grid.addActor ⟨1, 1, 1, ∅, ∅, ∅, ∅, #[]⟩ ⟨1⟩ ⟨1⟩ ⟨0, 0, 0⟩
    let s₁ := (start job 1 g).run ⟨1⟩ (List.replicate 6 1.0)
    job.Fresh ∧ s₁.result = .ok .completed ∧
      ∃ n, ∀ dts : List Float, (∀ dt ∈ dts, 0.0 < dt) → n < dts.length →
        ((start job 9 g).run ⟨1⟩ dts).result = .ok .completed ∧
          ((start job 9 g).run ⟨1⟩ dts).output = [.position ⟨0, 0, 0⟩] := by
  intro s job g s₁
  have hbuild : s.build = .ok job.program := Script.build_eq s
  have hfresh : job.Fresh := ⟨Script.sealed_of_build hbuild, .inl (by decide)⟩
  have hresult : s₁.result = .ok .completed := by decide
  have houtput : s₁.output = [.position ⟨0, 0, 0⟩] := by decide
  have hpos : ∀ dt ∈ List.replicate 6 (1.0 : Float), 0.0 < dt := by
    intro dt hdt
    rw [List.eq_of_mem_replicate hdt]
    decide
  have hend : s₁.result ≠ .ok .suspended := by
    rw [hresult]
    decide
  obtain ⟨n, hdelays⟩ := limit_only_delays hfresh g ⟨1⟩ 1 9 hpos hend
  refine ⟨hfresh, hresult, n, fun dts hdts hlength => ?_⟩
  obtain ⟨hsame, hout, -, -⟩ := hdelays dts hdts hlength
  exact ⟨hsame.trans hresult, hout.trans houtput⟩

end Session

end TaskScript
