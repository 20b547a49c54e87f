import TaskScript.Proofs.Sandbox.Commands
import TaskScript.Proofs.Task.Fresh
import TaskScript.Sandbox.Setup
import TaskScript.Sandbox.Tick

/-!
# `Proofs.Sandbox.Reachable`: the sandboxes that there can be

A sandbox starts empty, is changed by commands from outside, and moves on in ticks. Whoever gives a command
can hand in any job, as long as it was made by `Job.make` or `Job.makeAt` of a program that a builder has
sealed (`Job.Fresh`).

Setting up a scenario is a row of such commands (`keeps_ofScenario`), so it leads to nothing new
(`reachable_ofScenario`).

## Contents
- `Command.Fresh`: commands that hand in jobs as they are made.
- `Sandbox.Reachable`.
- `Command.SetsUp`, `addSpec_eq_ok`, `keeps_ofScenario`, `reachable_ofScenario`: **scenarios**.
- `camp`: a sandbox with an actor at work.
-/

namespace TaskScript

namespace Sandbox

/-- Whether the jobs that a command hands in are as they are made. -/
def Command.Fresh : Command → Prop
  | .createTasks _ _ _ program _ => program.Sealed
  | .addTask _ job | .replaceTask _ _ job => job.Fresh
  | _ => True

/-! ## Sandboxes that can be reached -/

/-- **The sandboxes that there can be**: a new one, and one after a command, after a tick, after a name was
taken, and after events were collected. Those that scenarios describe are among them. -/
inductive Reachable : Sandbox → Prop
  | new (config : Config) : Reachable (.new config)
  | perform {s : Sandbox} (c : Command) : c.Fresh → Reachable s → Reachable (s.perform c).1
  | advanceTime {s s' : Sandbox} {dt : Float} {m : Metrics} :
      Reachable s → s.advanceTime dt = .ok (s', m) → Reachable s'
  | nextTaskId {s : Sandbox} : Reachable s → Reachable s.nextTaskId.1
  | drainEvents {s : Sandbox} : Reachable s → Reachable { s with foreman := s.foreman.drainEvents.1 }

variable {s s' : Sandbox}

/-! ## Setting up a scenario -/

/-- **The commands of which the setup of a scenario consists.** Tasks are created of the scripts of its entries. -/
inductive Command.SetsUp (scenario : Scenario) : Command → Prop
  | addGroup {g} : SetsUp scenario (.addGroup g)
  | spawnActor {actor g position} : SetsUp scenario (.spawnActor actor g position)
  | setCarrying {actor item} : SetsUp scenario (.setCarrying actor item)
  | setTerrain {c t} : SetsUp scenario (.setTerrain c t)
  | placeLog {c} : SetsUp scenario (.placeLog c)
  | placeBoulder {c} : SetsUp scenario (.placeBoulder c)
  | createTasks {spec program g} :
      spec ∈ scenario.tasks → spec.program.build = .ok program →
      SetsUp scenario (.createTasks g spec.name spec.priority program spec.targets)
  | shareTask {g t} : SetsUp scenario (.shareTask g t)

/-- A step of the setup goes on only with an answer that is no refusal, and with the sandbox that came with it. -/
theorem eq_of_settled {α : Type} {answer : Sandbox × Except WorldError α} (h : settled answer = .ok s') :
    s' = answer.1 := by
  obtain ⟨s₁, answer⟩ := answer
  cases answer with
  | error e => cases h
  | ok _ =>
    cases h
    rfl

theorem eq_of_accepted {α : Type} {answer : Sandbox × Except WorldError α} {a : α}
    (h : accepted answer = .ok (s', a)) : answer = (s', .ok a) := by
  obtain ⟨s₁, answer⟩ := answer
  cases answer with
  | error e => cases h
  | ok _ =>
    cases h
    rfl

/-- **How a task of a scenario is set up**: it is created in its first group, and shared with the others. -/
theorem addSpec_eq_ok {spec : TaskSpec} (h : s.addSpec spec = .ok s') :
    ∃ program first others s₁ ids, spec.program.build = .ok program ∧ spec.groups = first :: others ∧
      accepted (s.createTasks first spec.name spec.priority program spec.targets) = .ok (s₁, ids) ∧
      others.foldlM (fun s group => ids.foldlM (fun s id => settled (s.shareTask group id)) s) s₁ = .ok s' := by
  obtain ⟨program, hbuild, h⟩ := bind_eq_ok h
  cases hgroups : spec.groups with
  | nil =>
    simp only [hgroups] at h
    cases h
  | cons first others =>
    simp only [hgroups] at h
    obtain ⟨⟨s₁, ids⟩, hcreate, hshare⟩ := bind_eq_ok h
    exact ⟨program, first, others, s₁, ids, eq_ok_of_mapError hbuild, rfl, hcreate, hshare⟩

section

variable {scenario : Scenario} {P : Sandbox → Prop}
  (hperform : ∀ (s : Sandbox) (c : Command), c.SetsUp scenario → P s → P (s.perform c).1)

include hperform

/-- A command of the setup keeps what every command of the setup keeps. -/
theorem keeps_settled {α : Type} {answer : Sandbox × Except WorldError α} (h : P s) {c : Command}
    (hc : c.SetsUp scenario) (hanswer : (s.perform c).1 = answer.1) (heq : settled answer = .ok s') : P s' := by
  rw [eq_of_settled heq, ← hanswer]
  exact hperform s c hc h

theorem keeps_addActor {spec : ActorSpec} (h : P s) (heq : s.addActor spec = .ok s') : P s' := by
  obtain ⟨s₁, hspawn, hcarry⟩ := bind_eq_ok heq
  have h₁ := keeps_settled hperform h .spawnActor rfl hspawn
  exact keeps_settled hperform h₁ .setCarrying rfl hcarry

/-- The jobs of a task are added to its first group and shared with the others, all by commands. -/
theorem keeps_addSpec {spec : TaskSpec} (hspec : spec ∈ scenario.tasks) (h : P s)
    (heq : s.addSpec spec = .ok s') : P s' := by
  obtain ⟨program, first, others, s₁, ids, hbuild, -, hcreate, hshare⟩ := addSpec_eq_ok heq
  have h₁ : P s₁ := by
    have hcreated := hperform s (.createTasks first _ _ program _) (.createTasks hspec hbuild) h
    rwa [perform, eq_of_accepted hcreate] at hcreated
  refine foldlM_keeps (P := P) (fun s group s' _ hs hgroup => ?_) h₁ hshare
  exact foldlM_keeps (P := P) (fun s id s' _ hs hid => keeps_settled hperform hs .shareTask rfl hid) hs hgroup

/-- **What the commands of a setup keep, the setup does.** -/
theorem keeps_ofScenario (hnew : P (.new scenario.config)) (h : ofScenario scenario = .ok s) : P s := by
  obtain ⟨s₁, hterrain, h⟩ := bind_eq_ok h
  obtain ⟨s₂, hlogs, h⟩ := bind_eq_ok h
  obtain ⟨s₃, hboulders, h⟩ := bind_eq_ok h
  obtain ⟨s₄, hactors, htasks⟩ := bind_eq_ok h
  have h₁ := foldlM_keeps (P := P)
    (fun _ _ _ _ hs hset => keeps_settled hperform hs .setTerrain rfl hset) hnew hterrain
  have h₂ := foldlM_keeps (P := P)
    (fun _ _ _ _ hs hlog => keeps_settled hperform hs .placeLog rfl hlog) h₁ hlogs
  have h₃ := foldlM_keeps (P := P)
    (fun _ _ _ _ hs hboulder => keeps_settled hperform hs .placeBoulder rfl hboulder) h₂ hboulders
  have hgroups : ∀ (groups : List GroupId) (s : Sandbox), P s → P (groups.foldl addGroup s) := by
    intro groups
    induction groups with
    | nil => exact fun _ hs => hs
    | cons g rest ih => exact fun s hs => ih _ (hperform s (.addGroup g) .addGroup hs)
  have h₄ := foldlM_keeps (P := P)
    (fun _ _ _ _ hs hactor => keeps_addActor hperform hs hactor) (hgroups _ _ h₃) hactors
  exact foldlM_keeps (P := P)
    (fun _ _ _ hmem hs hspec => keeps_addSpec hperform hmem hs hspec) h₄ htasks

end

/-- The commands of a setup hand in jobs as they are made. -/
theorem Command.SetsUp.fresh {scenario : Scenario} {c : Command} (h : c.SetsUp scenario) : c.Fresh := by
  cases h with
  | createTasks _ hbuild => exact Script.sealed_of_build hbuild
  | _ => trivial

/-- **A scenario leads to nothing new.** -/
theorem reachable_ofScenario {scenario : Scenario} (h : ofScenario scenario = .ok s) : Reachable s :=
  keeps_ofScenario (fun _ c hc hs => hs.perform c hc.fresh) (.new scenario.config) h

/-! ## A camp -/

/-- The program of a script that works where its actor stands. -/
def workHere : Program :=
  ⟨#[⟨none, .leaf (.action (.work .here))⟩], 0⟩

theorem sealed_workHere : workHere.Sealed :=
  ⟨[.leaf (.action (.work .here))], 0, rfl⟩

/-- An actor that carries a log stands where another one lies, and has a task to work there. -/
def camp : Sandbox :=
  let s := (new {}).addGroup ⟨1⟩
  let s := (s.spawnActor ⟨1⟩ ⟨1⟩ ⟨0, 0, 0⟩).1
  let s := (s.setCarrying ⟨1⟩ (some .log)).1
  let s := (s.placeLog ⟨0, 0, 0⟩).1
  (s.createTasks ⟨1⟩ "work" 0 workHere []).1

theorem reachable_camp : Reachable camp := by
  have hgroup := (Reachable.new {}).perform (.addGroup ⟨1⟩) trivial
  have hactor := hgroup.perform (.spawnActor ⟨1⟩ ⟨1⟩ ⟨0, 0, 0⟩) trivial
  have hlogs := (hactor.perform (.setCarrying ⟨1⟩ (some .log)) trivial).perform (.placeLog ⟨0, 0, 0⟩) trivial
  exact hlogs.perform (.createTasks ⟨1⟩ "work" 0 workHere []) sealed_workHere

/-- The sandbox after a tick, if the tick does not fail. -/
def after (s : Sandbox) (dt : Float) : Sandbox :=
  match s.advanceTime dt with
  | .ok (s', _) => s'
  | .error _ => s

theorem advanceTime_after {dt : Float} (h : (s.advanceTime dt).isOk = true) :
    ∃ m, s.advanceTime dt = .ok (s.after dt, m) := by
  obtain ⟨result, htick⟩ := exists_ok_of_isOk h
  refine ⟨result.2, ?_⟩
  unfold after
  rw [htick]

/-- A tick that fails leaves the sandbox as it was, so this holds of every tick. -/
theorem Reachable.after (h : Reachable s) (dt : Float) : Reachable (s.after dt) := by
  unfold Sandbox.after
  split
  · rename_i htick
    exact h.advanceTime htick
  · exact h

end Sandbox

end TaskScript
