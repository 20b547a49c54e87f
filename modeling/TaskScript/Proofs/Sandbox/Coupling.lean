import TaskScript.Proofs.Execution.CallStack
import TaskScript.Proofs.Sandbox.Orderly

/-!
# `Proofs.Sandbox.Coupling`: actors are busy with what their executions wait for

What an actor is busy with is kept in the world, and what its execution waits for in the run that the foreman
keeps. Nothing ties the two together but the code that changes them: a request starts an activity, an activity
that has finished is found out in the next turn, and whoever ends a run has to end the activity as well.
`Agree` says that the two fit for one actor, and every command and every visit keeps it so for all.

In the middle of a visit they do not fit: an activity has finished, and its action has not been retired. The
turn that settles it makes them fit again, for whatever reason the activity was over.

## Contents
- `Activity.Pursues`, `Agree`, `Coupled`.
- `Coupled.perform`: **commands**.
- `coupled_absorbed`, `Coupled.visited`: **turns and visits**.
- `actors_stay_coupled`: **actors, executions and activities stay coupled**.
-/

namespace TaskScript

open Std

/-- Whether an activity is what it takes to get on with an action that is waited for, if there is one. -/
def Activity.Pursues (activity : Activity) : Option Action → Prop
  | none => activity = .idle
  | some action => activity.CarriesOut action

namespace Sandbox

open Foreman (stoppedBy)

variable {s s' : Sandbox} {actor : ActorId} {a : ActorState} {dt : Float}

/-- **An actor and its run fit**: the run stands where its program says, the actor lives, and it is busy with
what the execution waits for. -/
structure Agree (state : Option ActorState) (run : Option Run) : Prop where
  standing : ∀ r, run = some r → r.execution.Standing
  living : ∀ r, run = some r → ∃ a, state = some a ∧ a.alive = true
  busy : ∀ a, state = some a → a.activity.Pursues (run.bind (·.execution.pursuedAction?))

/-- All actors and their runs fit. -/
def Coupled (w : World) (f : Foreman) : Prop :=
  ∀ actor : ActorId, Agree w.actors[actor]? f.running[actor]?

/-- An actor without a run has to be idle. -/
theorem agree_none {state : Option ActorState} (h : ∀ a, state = some a → a.activity = .idle) :
    Agree state none where
  standing r hr := by cases hr
  living r hr := by cases hr
  busy a ha := h a ha

/-- A living actor whose execution stands. -/
theorem agree_some {run : Run} (halive : a.alive = true) (hstanding : run.execution.Standing)
    (hbusy : a.activity.Pursues run.execution.pursuedAction?) : Agree (some a) (some run) where
  standing r hr := by
    cases hr
    exact hstanding
  living r _ := ⟨a, rfl, halive⟩
  busy a' ha' := by
    cases ha'
    exact hbusy

/-! ## Commands -/

variable {w w' : World} {f f' : Foreman}

theorem Coupled.furnished (h : Coupled w f) (hworld : w.Furnished w') : Coupled w' f := by
  intro actor
  obtain ⟨hstanding, hliving, hbusy⟩ := h actor
  refine ⟨hstanding, fun r hr => ?_, fun a' ha' => ?_⟩
  · obtain ⟨a, ha, halive⟩ := hliving r hr
    obtain ⟨a', ha', heq, -⟩ := hworld.keeps actor a ha
    exact ⟨a', ha', heq.trans halive⟩
  · cases ha : w.actors[actor]? with
    | some a =>
      obtain ⟨a'', ha'', -, hactivity⟩ := hworld.keeps actor a ha
      cases ha'.symm.trans ha''
      rw [hactivity]
      exact hbusy a ha
    | none =>
      -- an actor that was not there had no run
      have hrun : f.running[actor]? = none := by
        refine Option.eq_none_iff_forall_ne_some.mpr fun r hr => ?_
        obtain ⟨a, hsome, -⟩ := hliving r hr
        rw [ha] at hsome
        cases hsome
      rw [hrun]
      exact hworld.idle actor a' ha' ha

/-- A change of the foreman that starts and stops nobody. -/
theorem Coupled.congr (h : Coupled w f) (hrunning : f'.running = f.running) : Coupled w f' := by
  intro b
  rw [hrunning]
  exact h b

/-- The foreman stops an actor, and the world makes it idle. -/
theorem Coupled.stopped (h : Coupled w f) {who : Option ActorId}
    (hrunning : ∀ b : ActorId, f'.running[b]? = if who = some b then none else f.running[b]?)
    (hidle : ∀ b a, who = some b → w'.actors[b]? = some a → a.activity = .idle)
    (hactors : ∀ b, who ≠ some b → w'.actors[b]? = w.actors[b]?) : Coupled w' f' := by
  intro b
  rw [hrunning]
  split
  · rename_i hwho
    exact agree_none fun a ha => hidle b a hwho ha
  · rename_i hwho
    rw [hactors b hwho]
    exact h b

/-- Who is stopped by a change of its state is idle, if that makes it so. -/
theorem Coupled.updateActor (h : Coupled w f) {actor : ActorId} {change : ActorState → ActorState}
    (hidle : ∀ a, (change a).activity = .idle)
    (hrunning : ∀ b : ActorId, f'.running[b]? = if some actor = some b then none else f.running[b]?) :
    Coupled (w.updateActor actor change) f' := by
  refine h.stopped hrunning (fun b a hwho ha => ?_) fun b hwho => ?_
  · cases hwho
    rw [World.actors_updateActor, if_pos rfl] at ha
    obtain ⟨x, -, rfl⟩ := Option.map_eq_some_iff.mp ha
    exact hidle x
  · rw [World.actors_updateActor, if_neg fun heq => hwho (congrArg some heq)]

theorem Coupled.afterStopped (h : Coupled w f) {who : Option ActorId}
    (hrunning : ∀ b : ActorId, f'.running[b]? = if who = some b then none else f.running[b]?) :
    Coupled (Sandbox.afterStopped w who) f' := by
  cases who with
  | none => exact h.stopped hrunning (fun _ _ hwho => by cases hwho) fun _ _ => rfl
  | some actor => exact h.updateActor (fun _ => rfl) hrunning

theorem Coupled.addTasks (h : Coupled s.world s.foreman) (ho : s.Orderly) (g : GroupId) {jobs : List Job}
    (hfresh : ∀ job ∈ jobs, job.Fresh) :
    Coupled (Sandbox.addTasks g jobs s).1.world (Sandbox.addTasks g jobs s).1.foreman := by
  refine (keeps_addTasks (P := fun s => Coupled s.world s.foreman ∧ s.Orderly) ?_ ⟨h, ho⟩).1
  rintro s job hjob ⟨hs, hos⟩
  refine ⟨?_, hos.addTask g (hfresh job hjob)⟩
  unfold Sandbox.addTask
  split
  · exact hs.congr (Foreman.running_addTask hos.handed.sound g job)
  · exact hs

/-- **A command keeps actors and runs together.** -/
theorem Coupled.perform (h : Coupled s.world s.foreman) (ho : s.Orderly) {c : Command} (hc : c.Fresh) :
    Coupled (s.perform c).1.world (s.perform c).1.foreman := by
  have heffect := effect_perform s c
  generalize s.perform c = result at heffect
  cases heffect with
  | refused => exact h
  | ignored => exact h
  | furnishes hworld => exact h.furnished hworld
  | @registers g => exact h.congr (Foreman.running_registerGroup s.foreman g)
  | @creates g name priority program targets factory jobs _ hjobs =>
    have hnames : Orderly { s with factory } := ho.congr rfl rfl (Factory.le_createJobs hjobs)
    exact Coupled.addTasks (s := { s with factory }) h hnames g (Factory.fresh_of_createJobs hc hjobs)
  | @adds g job _ => exact h.congr (Foreman.running_addTask ho.handed.sound g job)
  | @shares g t _ => exact h.congr (Foreman.running_scheduleExisting s.foreman g t)
  | @replaces g t job _ => exact h.afterStopped (Foreman.running_replaceTask ho.handed.sound g t job)
  | @removes g t _ => exact h.afterStopped (Foreman.running_removeTask s.foreman g t)
  | @stops _ actor change hidle =>
    refine h.updateActor hidle fun b => ?_
    rw [Foreman.running_interrupt]
    simp only [Option.some.injEq]

/-! ## Turns -/

theorem isFinished_of_actor (h : w.actors[actor]? = some a) :
    w.surroundings.isFinished actor = a.activity.isIdle := by
  show (w.actors[actor]?).all (·.activity.isIdle) = a.activity.isIdle
  rw [h]
  rfl

/-- An idle actor may be offered a task. -/
theorem Coupled.offered (h : Coupled s.world s.foreman) (ho : s.Orderly)
    (hliving : s.world.living? actor = some a) : Coupled (s.offered actor a).world (s.offered actor a).foreman := by
  unfold Sandbox.offered
  split
  · rename_i hidle
    obtain ⟨hactor, halive⟩ := World.living?_eq_some_iff.mp hliving
    have hrest : a.activity = .idle := by
      rw [← Activity.isIdle_iff, ← isFinished_of_actor hactor]
      exact (Bool.and_eq_true_iff.mp hidle).2
    rcases Foreman.running_assignIdle ho.handed actor a.group with hsame | ⟨t, job, ⟨⟨hsealed, -⟩, -⟩, -, hstarted⟩
    · exact h.congr hsame
    · intro b
      dsimp only
      rw [hstarted, lookup_insert]
      split
      · rename_i hb
        subst hb
        rw [hactor]
        exact agree_some halive (Execution.standing_start hsealed _) hrest
      · exact h b
  · exact h

/-- Only the actor that had its turn has another run or another activity after it. -/
theorem coupled_of_turn (hother : ∀ b, b ≠ actor → Agree w.actors[b]? f.running[b]?) (run' : Option Run)
    (hactors : ∀ b : ActorId, w'.actors[b]? = if actor = b then some a else w.actors[b]?)
    (hrunning : ∀ b : ActorId, f'.running[b]? = if actor = b then run' else f.running[b]?)
    (hagree : Agree (some a) run') : Coupled w' f' := by
  intro b
  rw [hactors, hrunning]
  by_cases hb : actor = b
  · rw [if_pos hb, if_pos hb]
    exact hagree
  · rw [if_neg hb, if_neg hb]
    exact hother b (Ne.symm hb)

theorem world_absorbed {shift : Shift} (h : ∀ task cause, shift.report ≠ .failed task cause) :
    (s.absorbed actor shift).world = shift.requests.foldl World.apply s.world := by
  unfold absorbed
  cases hreport : shift.report with
  | failed task cause => exact absurd hreport (h task cause)
  | _ => rfl

/-- An idle actor whose turn ends without waiting, or with a request that makes it busy. -/
theorem coupled_of_ends (hliving : s.world.living? actor = some a)
    (hother : ∀ b, b ≠ actor → Agree s.world.actors[b]? s.foreman.running[b]?) (hidle : a.activity = .idle)
    {run : Run} {turn : Turn} {shift : Shift} (hrequests : shift.requests = turn.requests)
    (hgives : Foreman.Gives s.foreman actor run turn shift)
    (hends : Execution.Ends s.world.surroundings actor turn.execution turn.requests turn.result) :
    Coupled (s.absorbed actor shift).world shift.foreman := by
  obtain ⟨hactor, halive⟩ := World.living?_eq_some_iff.mp hliving
  generalize hexecution : turn.execution = execution at hends
  generalize hresult : turn.result = result at hends
  generalize turn.requests = requests at hrequests hends
  cases hends with
  | rests hrest =>
    cases hgives with
    | goesOn hsuspended hreport hrunning =>
      -- a turn that was suspended without a request leaves no action on top, and the actor idle
      obtain ⟨hstands, hnone⟩ := hrest (hresult.symm.trans hsuspended)
      rw [world_absorbed (by rw [hreport]; nofun), hrequests]
      refine coupled_of_turn hother _ (World.actors_same hactor) (fun b => by rw [hrunning, lookup_insert]) ?_
      rw [hexecution]
      exact agree_some halive hstands (hnone ▸ hidle)
    | completes _ hreport hrunning =>
      rw [world_absorbed (by rw [hreport]; nofun), hrequests]
      refine coupled_of_turn hother _ (World.actors_same hactor) (fun b => by rw [hrunning, lookup_erase]) (agree_none fun x hx => ?_)
      cases hx
      exact hidle
    | fails _ hreport hrunning =>
      have hcleared : (s.absorbed actor shift).world = s.world.withActor actor { a with activity := .idle } := by
        rw [absorbed, hreport, hrequests]
        exact World.clearActivity_eq hactor
      rw [hcleared]
      refine coupled_of_turn hother _ (fun b => World.actors_withActor s.world actor b _)
        (fun b => by rw [hrunning, lookup_erase]) (agree_none fun x hx => ?_)
      cases hx
      rfl
  | asks scope hself hrequest hstands hpursued =>
    cases hgives with
    | completes hcompleted _ _ => cases hresult.symm.trans hcompleted
    | fails hfailed _ _ => cases hresult.symm.trans hfailed
    | goesOn _ hreport hrunning =>
      -- the one request makes the actor busy with the action that the execution waits for
      obtain ⟨activity, hcarries, happly⟩ := World.apply_eq hrequest (hself.symm ▸ hliving)
      rw [world_absorbed (by rw [hreport]; nofun), hrequests, List.foldl_cons, List.foldl_nil, happly, hself]
      refine coupled_of_turn hother _ (fun b => World.actors_withActor s.world actor b _)
        (fun b => by rw [hrunning, lookup_insert]) ?_
      rw [hexecution]
      exact agree_some (a := { a with activity }) halive hstands (hpursued ▸ hcarries)

/-- **A turn makes an actor and its run fit**, also if the activity of the actor has just finished. -/
theorem coupled_absorbed (hliving : s.world.living? actor = some a)
    (hother : ∀ b, b ≠ actor → Agree s.world.actors[b]? s.foreman.running[b]?)
    (hstanding : ∀ r, s.foreman.running[actor]? = some r → r.execution.Standing)
    (hbusy : a.activity = .idle ∨
      a.activity.Pursues (s.foreman.running[actor]?.bind (·.execution.pursuedAction?)))
    {shift : Shift} (hturn : s.foreman.runActor s.world.surroundings actor dt = .ok shift) :
    Coupled (s.absorbed actor shift).world shift.foreman := by
  obtain ⟨hactor, halive⟩ := World.living?_eq_some_iff.mp hliving
  cases hrun : s.foreman.running[actor]? with
  | none =>
    cases Foreman.shift_of_idle hrun hturn
    rw [hrun] at hbusy
    refine coupled_of_turn hother none (World.actors_same hactor) (fun b => ?_) (agree_none fun x hx => ?_)
    · split
      · rename_i hb
        exact hb ▸ hrun
      · rfl
    · cases hx
      exact hbusy.elim id id
  | some run =>
    rw [hrun] at hbusy
    obtain ⟨hrequests, hgives⟩ := Foreman.gives_of_runActor hrun hturn
    have hturn := (hstanding run hrun).turn s.world.surroundings actor dt
    generalize run.execution.turn s.world.surroundings actor dt = turn at hrequests hgives hturn
    rcases hturn with ⟨hwaits, hunfinished, rfl⟩ | ⟨hfree, hends⟩
    · -- the execution waits, and nothing changes
      rw [isFinished_of_actor hactor] at hunfinished
      cases hgives with
      | completes hresult _ _ => cases hresult
      | fails hresult _ _ => cases hresult
      | goesOn _ hreport hrunning =>
        rw [world_absorbed (by rw [hreport]; nofun), hrequests]
        refine coupled_of_turn hother _ (World.actors_same hactor) (fun b => by rw [hrunning, lookup_insert]) ?_
        refine agree_some halive { hstanding run hrun with } (hbusy.resolve_left fun hidle => ?_)
        rw [hidle] at hunfinished
        cases hunfinished
    · -- the actor is idle here: it had nothing to do, or it has finished
      refine coupled_of_ends hliving hother ?_ hrequests hgives hends
      rcases hbusy with hidle | hpursues
      · exact hidle
      rcases hfree with hnone | hfinished
      · rw [Option.bind_some, hnone] at hpursues
        exact hpursues
      · rw [← Activity.isIdle_iff, ← isFinished_of_actor hactor]
        exact hfinished

/-! ## Visits -/

theorem Coupled.readied (h : Coupled s.world s.foreman) (ho : s.Orderly) (hliving : s.world.living? actor = some a)
    (hready : s.readied dt actor a = .ok s') : Coupled s'.world s'.foreman := by
  have hoffered := h.offered ho hliving
  obtain ⟨shift, hturn, rfl⟩ := turn_of_readied hready
  rw [← world_offered s actor a] at hliving
  have hactor := (World.living?_eq_some_iff.mp hliving).1
  have hagree := hoffered actor
  exact coupled_absorbed hliving (fun b _ => hoffered b) hagree.standing (.inr (hagree.busy a hactor)) hturn

/-- **A visit keeps actors and runs together.** An activity that has finished by it is found out in the turn
that settles it. -/
theorem Coupled.visited (h : Coupled s.world s.foreman) (ho : s.Orderly) (hliving : s.world.living? actor = some a)
    (hvisited : Visited s dt actor a s') : Coupled s'.world s'.foreman := by
  have hlives := World.lives_iff.mpr ⟨a, hliving⟩
  cases hvisited with
  | @goesOn s₁ world finished hready hadvance hwhy =>
    have hcoupled := h.readied ho hliving hready
    obtain ⟨a₁, hliving₁⟩ := World.lives_iff.mp ((lives_readied hready actor).trans hlives)
    obtain ⟨hactor₁, halive₁⟩ := World.living?_eq_some_iff.mp hliving₁
    obtain ⟨a₂, hactors, halive, hover, hgoing⟩ := (World.progresses hliving₁ hadvance).actors hactor₁
    have hagree := hcoupled actor
    have hbusy := hagree.busy a₁ hactor₁
    -- an actor without a run is idle, and nothing can finish that
    have hunfinished : finished = false := by
      rcases hwhy with hunfinished | hidle
      · exact hunfinished
      rw [Foreman.currentTask?, Option.map_eq_none_iff] at hidle
      rw [hidle] at hbusy
      cases finished with
      | false => rfl
      | true => exact absurd hbusy (hover rfl).1
    obtain ⟨hstays, hkind⟩ := hgoing hunfinished
    refine coupled_of_turn (fun b _ => hcoupled b) s₁.foreman.running[actor]? hactors (fun b => ?_) ?_
    · split
      · rename_i hb
        rw [hb]
      · rfl
    · refine ⟨hagree.standing, fun r hr => ⟨a₂, rfl, halive.trans halive₁⟩, fun x hx => ?_⟩
      cases hx
      cases hpursued : s₁.foreman.running[actor]?.bind (·.execution.pursuedAction?) with
      | none =>
        rw [hpursued] at hbusy
        exact hstays hbusy
      | some action =>
        rw [hpursued] at hbusy
        exact hkind action hbusy
  | @settles s₁ world shift hready hadvance hsettle =>
    have hcoupled := h.readied ho hliving hready
    obtain ⟨a₁, hliving₁⟩ := World.lives_iff.mp ((lives_readied hready actor).trans hlives)
    obtain ⟨hactor₁, halive₁⟩ := World.living?_eq_some_iff.mp hliving₁
    obtain ⟨a₂, hactors, halive, hover, -⟩ := (World.progresses hliving₁ hadvance).actors hactor₁
    have hliving₂ : world.living? actor = some a₂ := by
      rw [World.living?_eq_some_iff, hactors, if_pos rfl]
      exact ⟨rfl, halive.trans halive₁⟩
    refine coupled_absorbed (s := { s₁ with world }) hliving₂ (fun b hb => ?_) (hcoupled actor).standing
      (.inl (hover rfl).2) hsettle
    dsimp only
    rw [hactors, if_neg (Ne.symm hb)]
    exact hcoupled b

/-! ## Every sandbox -/

theorem coupled_new (config : Config) : Coupled (new config).world (new config).foreman := by
  intro actor
  rw [show (new config).foreman.running[actor]? = none from ExtTreeMap.getElem?_empty]
  refine agree_none fun a ha => ?_
  rw [show (new config).world.actors[actor]? = none from ExtTreeMap.getElem?_empty] at ha
  cases ha

theorem Reachable.coupled (h : Reachable s) : Coupled s.world s.foreman := by
  induction h with
  | new config => exact coupled_new config
  | perform c hc hs ih => exact ih.perform hs.orderly hc
  | advanceTime hs htick ih =>
    refine (keeps_of_advanceTime (P := fun s => s.Orderly ∧ Coupled s.world s.foreman) htick
      ⟨hs.orderly.ticked, ih⟩ ?_).2
    intro s s' actor a hliving hvisited ⟨ho, hcoupled⟩
    exact ⟨ho.visited hvisited, hcoupled.visited ho hliving hvisited⟩
  | nextTaskId _ ih => exact ih
  | drainEvents _ ih => exact ih

/-- **Actors, executions and activities stay coupled.** An actor that runs a task exists and lives; a dead actor
is idle; and an actor is busy exactly if it runs a task whose execution waits for an action, and then with what
carries that action out. -/
theorem actors_stay_coupled (h : Reachable s) (actor : ActorId) :
    (∀ run, s.foreman.running[actor]? = some run →
        ∃ a, s.world.actors[actor]? = some a ∧ a.alive = true) ∧
      ∀ a, s.world.actors[actor]? = some a →
        (a.alive = false → a.activity = .idle) ∧
        (a.activity ≠ .idle ↔
          ∃ run action, s.foreman.running[actor]? = some run ∧ run.execution.pursuedAction? = some action) ∧
        ∀ run action, s.foreman.running[actor]? = some run → run.execution.pursuedAction? = some action →
          a.activity.CarriesOut action := by
  obtain ⟨-, hliving, hbusy⟩ := h.coupled actor
  refine ⟨hliving, fun a ha => ⟨fun hdead => ?_, ⟨fun hbusy' => ?_, ?_⟩, ?_⟩⟩
  · have hbusy := hbusy a ha
    cases hrun : s.foreman.running[actor]? with
    | none =>
      rw [hrun] at hbusy
      exact hbusy
    | some run =>
      obtain ⟨a', ha', halive⟩ := hliving run hrun
      cases ha.symm.trans ha'
      exact absurd (hdead.symm.trans halive) Bool.false_ne_true
  · have hbusy := hbusy a ha
    cases hpursued : s.foreman.running[actor]?.bind (·.execution.pursuedAction?) with
    | none =>
      rw [hpursued] at hbusy
      exact absurd hbusy hbusy'
    | some action =>
      obtain ⟨run, hrun, haction⟩ := Option.bind_eq_some_iff.mp hpursued
      exact ⟨run, action, hrun, haction⟩
  · rintro ⟨run, action, hrun, haction⟩ hidle
    have hbusy := hbusy a ha
    rw [hrun, Option.bind_some, haction, hidle] at hbusy
    cases hbusy
  · intro run action hrun haction
    have hbusy := hbusy a ha
    rwa [hrun, Option.bind_some, haction] at hbusy

/-- Half a second into its work, the actor of the camp is at it, and its execution waits for that. -/
theorem camp_works :
    Reachable (camp.after 0.5) ∧
      ∃ a, (camp.after 0.5).world.actors[(⟨1⟩ : ActorId)]? = some a ∧ a.activity ≠ .idle ∧
        ∃ run action, (camp.after 0.5).foreman.running[(⟨1⟩ : ActorId)]? = some run ∧
          run.execution.pursuedAction? = some action ∧ a.activity.CarriesOut action := by
  have hreachable := reachable_camp.after 0.5
  obtain ⟨-, hactor⟩ := actors_stay_coupled hreachable ⟨1⟩
  have hbusy : ((camp.after 0.5).world.actors[(⟨1⟩ : ActorId)]?).any (fun a => a.activity ≠ .idle) = true := by
    decide
  obtain ⟨a, ha, hne⟩ := Option.any_eq_true _ _ |>.mp hbusy
  obtain ⟨-, hiff, hcarries⟩ := hactor a ha
  obtain ⟨run, action, hrun, haction⟩ := hiff.mp (of_decide_eq_true hne)
  exact ⟨hreachable, a, ha, of_decide_eq_true hne, run, action, hrun, haction, hcarries run action hrun haction⟩

end Sandbox

end TaskScript
