import TaskScript.Proofs.Foreman.Running

/-!
# `Proofs.Foreman.Effect`: what an operation does

`Foreman.Effect` lists what the operations can do, each with the foreman that it leaves. `effect_perform` says
that there is nothing else, so a property of operations has a case for each entry of the list, and no later proof
opens an operation.

## Contents
- `Operation.turn?`, `Ends`, `ends_of_runActor`: **how a turn ends**.
- `Effect`, `effect_perform`: **what an operation does**.
- `getElem?_dropIfOrphaned`, `schedulers_dropIfOrphaned`: what is left when a task is dropped.
-/

namespace TaskScript.Foreman

open Std

variable {f f' : Foreman}

/-! ## Turns -/

/-- The turn that an operation gives to an actor. To settle is to be given a turn without time. -/
def Operation.turn? : Operation → Option (Surroundings × ActorId × Float)
  | .runActor around actor dt => some (around, actor, dt)
  | .settleActor around actor => some (around, actor, 0.0)
  | _ => none

/-- **How a turn ends**, once what was printed is recorded. -/
inductive Ends (f : Foreman) (actor : ActorId) (run : Run) : Report → Foreman → Prop
  | goesOn {execution} :
      Ends f actor run (.running run.task)
        { f with running := f.running.insert actor { run with execution } }
  | completes :
      Ends f actor run (.completed run.task)
        ((f.finish actor run).record .completed run.task (some actor) none)
  | fails {cause} :
      Ends f actor run (.failed run.task cause)
        ((f.giveUp actor run).record .failed run.task (some actor) (some (.obj [("error", .str cause.message)])))

theorem ends_of_runActor {around : Surroundings} {actor : ActorId} {dt : Float} {shift : Shift} {run : Run}
    (hrun : f.running[actor]? = some run) (h : f.runActor around actor dt = .ok shift) :
    Ends (f.recordPrints run.task actor (run.execution.turn around actor dt).output) actor run shift.report
      shift.foreman := by
  unfold runActor at h
  rw [hrun] at h
  dsimp only at h
  generalize run.execution.turn around actor dt = turn at h ⊢
  -- the run is taken out before anything is printed, which makes no difference to what is recorded
  rw [recordPrints_erase] at h
  have heq := recordPrints_eq run.task actor turn.output (f := f)
  generalize f.recordPrints run.task actor turn.output = g at h heq ⊢
  have hrunning : f.running = g.running := by rw [heq]
  rw [hrunning] at h
  split at h
  · cases h
  · cases h
    exact .fails
  · cases h
    rw [insert_erase_self]
    exact .goesOn
  · cases h
    exact .completes

/-- A turn is nothing to the groups. -/
theorem Ends.schedulers {actor : ActorId} {run : Run} {report : Report} (hends : Ends f actor run report f') :
    f'.schedulers = f.schedulers := by
  cases hends <;> rfl

/-! ## Operations -/

/-- **What an operation does.** -/
inductive Effect (f : Foreman) : Operation → Foreman → Prop
  | nothing {op} : Effect f op f
  | clock {tick} : Effect f (.beginTick tick) (f.beginTick tick)
  | registers {g} :
      f.schedulers.contains g = false →
      Effect f (.registerGroup g) { f with schedulers := f.schedulers.insert g { group := g } }
  | adds {g job s changed} :
      f.schedulers[g]? = some s → f.board.contains job.id = false →
      s.add (f.withTask job).board job.id = .ok changed →
      Effect f (.addTask g job)
        (((f.withTask job).withMembership g changed).record .scheduled job.id none (some (groupDetails g)))
  | shares {g s t changed} :
      f.schedulers[g]? = some s → s.add f.board t = .ok changed →
      Effect f (.scheduleExisting g t)
        ((f.withMembership g changed).record .scheduled t none (some (groupDetails g)))
  | removes {g s t changed f₁} :
      f.schedulers[g]? = some s → s.remove f.board t = .ok changed →
      f₁ = (f.withMembership g changed).record .removed t none (some (groupDetails g)) →
      Effect f (.removeTask g t) (f₁.dropIfOrphaned t).1
  | replaces {g s t job changed f₁ f₂} :
      f.schedulers[g]? = some s → f.board.contains job.id = false →
      f₁ = (f.stopped (f.performer? t)).withTask job → s.replace f₁.board t job.id = .ok changed →
      f₂ = (f₁.withMembership g changed).record .replaced t (f.performer? t) (some (replacedDetails g job.id)) →
      (f.replaceTask g t job).2 = .ok (f.performer? t) →
      Effect f (.replaceTask g t job) (f₂.dropIfOrphaned t).1
  | assigns {g s t actor board task} :
      f.running[actor]? = none → f.schedulers[g]? = some s →
      s.assign f.board actor (fun _ => true) = some (t, board) → (f.assignIdle actor g).2 = some t →
      Effect f (.assignIdle actor g)
        ((f.withRun actor ⟨t, .start task f.maxSteps⟩ board).record .assigned t (some actor)
          (some (groupDetails g)))
  | turns {op around actor dt run shift} :
      op.turn? = some (around, actor, dt) → f.running[actor]? = some run →
      f.runActor around actor dt = .ok shift →
      Ends (f.recordPrints run.task actor (run.execution.turn around actor dt).output) actor run shift.report
        shift.foreman →
      Effect f op shift.foreman
  | interrupts {actor run} :
      f.running[actor]? = some run →
      Effect f (.interrupt actor) ((f.giveUp actor run).record .interrupted run.task (some actor) none)

theorem effect_registerGroup (f : Foreman) (g : GroupId) : Effect f (.registerGroup g) (f.registerGroup g).1 := by
  unfold registerGroup
  split
  · exact .nothing
  · rename_i hnew
    exact .registers (Bool.not_eq_true _ |>.mp hnew)

theorem effect_turn {op : Operation} {around : Surroundings} {actor : ActorId} {dt : Float}
    (hturn : op.turn? = some (around, actor, dt)) (hop : (f.runActor around actor dt).map (·.foreman) = .ok f') :
    Effect f op f' := by
  cases hshift : f.runActor around actor dt with
  | error o =>
    rw [hshift] at hop
    cases hop
  | ok shift =>
    rw [hshift] at hop
    cases hop
    cases hrun : f.running[actor]? with
    | none =>
      rw [shift_of_idle hrun hshift]
      exact .nothing
    | some run => exact .turns hturn hrun hshift (ends_of_runActor hrun hshift)

/-- **An operation does what is on the list.** -/
theorem effect_perform (h : f.Sound) {op : Operation} (hop : f.perform op = .ok f') : Effect f op f' := by
  cases op with
  | beginTick tick =>
    cases hop
    exact .clock
  | registerGroup g =>
    cases hop
    exact effect_registerGroup f g
  | addTask g job =>
    cases hop
    rcases addTask_cases h g job with ⟨e, heq⟩ | ⟨s, changed, hs, hnew, hadd, heq⟩ <;> rw [heq]
    · exact .nothing
    · exact .adds hs hnew hadd
  | scheduleExisting g t =>
    cases hop
    rcases scheduleExisting_cases f g t with ⟨e, heq⟩ | ⟨s, changed, hs, hadd, heq⟩ <;> rw [heq]
    · exact .nothing
    · exact .shares hs hadd
  | removeTask g t =>
    cases hop
    rcases removeTask_cases f g t with ⟨e, heq⟩ | ⟨s, changed, f₁, hs, hremove, hf₁, heq⟩ <;> rw [heq]
    · exact .nothing
    · exact .removes hs hremove hf₁
  | replaceTask g t job =>
    cases hop
    rcases replaceTask_cases h g t job with ⟨e, heq⟩ | ⟨s, changed, f₁, f₂, hs, hnew, hf₁, hreplace, hf₂, heq⟩
    · rw [heq]
      exact .nothing
    · have hanswer : (f.replaceTask g t job).2 = .ok (f.performer? t) := by rw [heq]
      rw [heq]
      exact .replaces hs hnew hf₁ hreplace hf₂ hanswer
  | assignIdle actor g =>
    cases hop
    rcases assignIdle_cases h actor g with heq | ⟨s, t, board, task, hidle, hs, hassign, -, heq⟩
    · rw [heq]
      exact .nothing
    · have hanswer : (f.assignIdle actor g).2 = some t := by rw [heq]
      rw [heq]
      exact .assigns hidle hs hassign hanswer
  | runActor around actor dt => exact effect_turn rfl hop
  | settleActor around actor => exact effect_turn rfl hop
  | interrupt actor =>
    cases hop
    cases hrun : f.running[actor]? with
    | none =>
      rw [interrupt_eq_none hrun]
      exact .nothing
    | some run =>
      rw [interrupt_eq hrun]
      exact .interrupts hrun

/-! ## A task that is dropped -/

/-- A task is dropped or stays as it is, and the others stay as they are. -/
theorem getElem?_dropIfOrphaned (f : Foreman) (t t' : TaskId) :
    (f.dropIfOrphaned t).1.board[t']? = f.board[t']? ∨ (f.dropIfOrphaned t).1.board[t']? = none := by
  rcases dropIfOrphaned_cases f t with ⟨-, heq⟩ | ⟨_, -, -, -, heq⟩ | ⟨_, actor, run, f₁, -, -, -, -, htask, hf₁, heq⟩ <;>
    rw [heq]
  · exact .inl rfl
  · rw [Board.getElem?_erase]
    split
    · exact .inr rfl
    · exact .inl rfl
  · rw [Board.getElem?_erase]
    split
    · exact .inr rfl
    · rename_i hne
      left
      rw [hf₁, record, giveUp, Board.getElem?_modify, htask, if_neg hne]

theorem schedulers_dropIfOrphaned (f : Foreman) (t : TaskId) :
    (f.dropIfOrphaned t).1.schedulers = f.schedulers := by
  rcases dropIfOrphaned_cases f t with ⟨-, heq⟩ | ⟨_, -, -, -, heq⟩ | ⟨_, _, _, _, -, -, -, -, -, hf₁, heq⟩ <;> rw [heq]
  rw [hf₁]
  rfl

end TaskScript.Foreman
