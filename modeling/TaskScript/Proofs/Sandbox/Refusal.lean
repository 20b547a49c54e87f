import TaskScript.Proofs.Foreman.Refusal
import TaskScript.Proofs.Sandbox.Orderly

/-!
# `Proofs.Sandbox.Refusal`: what a refused command leaves behind

Nearly every command checks before it changes anything, or leaves the checks to the foreman, whose refusals
change nothing. Two commands do more before they can be refused:

* `replaceTask` uses up the names to that of the replacement, whatever the foreman says to it.
* `createTasks` hands in its jobs one after the other. When the names run out in between, the largest one comes
  again and is refused, and the jobs before it stay.

`Sandbox.Wastes` says when that happens. All other refusals leave the sandbox as it was
(`refused_keeps_sandbox_iff`).

## Contents
- `Factory.left`, `createJobs_cases`: the names that are left, and the jobs that get them.
- `Orderly.addTask_taken`, `Orderly.addTask_new`: **handing in a job**.
- `Orderly.addTasks_accepted`: **jobs in a row**.
- `Wastes`, `refused_keeps_sandbox_iff`: **refused commands**.
- `refused_replacement_uses_names`: names that are used up for nothing.
-/

namespace TaskScript

open Std

/-! ## Names -/

namespace Factory

variable {f f' : Factory} {name : String} {priority : Int64} {program : Program} {targets : List Cube}
  {jobs : List Job}

theorem reserveThrough_eq_self_iff {id : TaskId} : f.reserveThrough id = f ↔ successor id.val ≤ f.nextId := by
  constructor
  · intro heq
    rw [← heq]
    exact f.successor_le_reserveThrough id
  · intro hle
    have hmax : max f.nextId (successor id.val) = f.nextId := by
      show (if f.nextId ≤ successor id.val then successor id.val else f.nextId) = f.nextId
      split
      · exact UInt64.le_antisymm hle ‹_›
      · rfl
    exact congrArg Factory.mk hmax

/-- How many names a factory has left, the largest one included. -/
def left (f : Factory) : Nat :=
  18446744073709551616 - f.nextId.toNat

/-- **The jobs that a factory makes**: one for each of the targets, or a single one. The first gets the next
name. -/
theorem createJobs_cases (h : f.createJobs name priority program targets = .ok (f', jobs)) :
    ∃ job rest, jobs = job :: rest ∧ job.id = ⟨f.nextId⟩ ∧
      (program.check = .ok () ∧ program.usesSelected = true ∧
          jobs = (jobsFor name priority program targets f).2 ∨
        program.usesSelected = false ∧ rest = []) := by
  obtain ⟨hcheck, ⟨hselected, hne, hjobs⟩ | ⟨hselected, -, rfl⟩⟩ := createJobs_eq_ok h
  · obtain ⟨c, rest, rfl⟩ := List.exists_cons_of_ne_nil hne
    cases hjobs
    exact ⟨_, _, rfl, rfl, .inl ⟨hcheck, hselected, rfl⟩⟩
  · exact ⟨_, _, rfl, rfl, .inr ⟨hselected, rfl⟩⟩

/-- Once the largest name is used, a factory stays as it is. -/
theorem createJobs_of_used_up (hused : successor f.nextId ≤ f.nextId)
    (h : f.createJobs name priority program targets = .ok (f', jobs)) : f' = f := by
  have hle := UInt64.le_iff_toNat_le.mp (le_createJobs h)
  have hlargest := eq_largest_of_successor_le hused
  have hlt := UInt64.toNat_lt f'.nextId
  have hnext : f'.nextId = f.nextId := UInt64.toNat_inj.mp (by omega)
  exact congrArg Factory.mk hnext

end Factory

/-! ## Handing in jobs -/

theorem Foreman.contains_addTask {f : Foreman} {g : GroupId} {job : Job} {id : TaskId} (h : f.Sound)
    (hok : (f.addTask g job).2 = .ok id) (t : TaskId) :
    (f.addTask g job).1.board.contains t = (decide (job.id = t) || f.board.contains t) := by
  rcases addTask_cases h g job with ⟨e, heq⟩ | ⟨scheduler, changed, -, -, hadd, heq⟩
  · rw [heq] at hok
    cases hok
  · have hboard := (Scheduler.added_of_add hadd).board
    rw [heq, record, withMembership]
    dsimp only
    rw [hboard, Board.contains_eq_isSome, Board.contains_eq_isSome, Board.isSome_modify, withTask,
      Board.getElem?_insert]
    by_cases ht : job.id = t <;> simp [ht]

namespace Sandbox

variable {s : Sandbox} {g : GroupId} {job : Job} {jobs : List Job}

/-- A name on the board counts as used. -/
theorem Orderly.used (h : s.Orderly) {t : TaskId} (hon : s.foreman.board.contains t = true) :
    successor t.val ≤ s.factory.nextId := by
  rw [Board.contains_eq_isSome] at hon
  obtain ⟨task, htask⟩ := Option.isSome_iff_exists.mp hon
  have hname := h.handed.sound.mirrored.named t task htask
  rw [← hname]
  exact (h.handed.of_board htask).2

/-- As long as the next name is new, it is larger than all that are on the board. -/
theorem Orderly.below (h : s.Orderly) (hnew : s.foreman.board.contains ⟨s.factory.nextId⟩ = false) (t : TaskId)
    (hon : s.foreman.board.contains t = true) : t.val.toNat < s.factory.nextId.toNat := by
  have hle := UInt64.le_iff_toNat_le.mp (UInt64.le_trans (le_successor t.val) (h.used hon))
  have hne : t.val.toNat ≠ s.factory.nextId.toNat := by
    intro heq
    have ht : t = ⟨s.factory.nextId⟩ := congrArg TaskId.mk (UInt64.toNat_inj.mp heq)
    rw [ht, hnew] at hon
    cases hon
  omega

theorem Orderly.refusal?_addTask (h : s.Orderly) (hg : s.groups.contains g = true) (job : Job) :
    s.foreman.refusal? (.addTask g job) =
      if s.foreman.board.contains job.id then some (.duplicateTask job.id g) else none := by
  rw [Foreman.refusal?, h.registered g hg]
  rfl

/-- **A job whose name is taken** is refused, and the sandbox stays as it is: the name was used before. -/
theorem Orderly.addTask_taken (h : s.Orderly) (hg : s.groups.contains g = true)
    (htaken : s.foreman.board.contains job.id = true) :
    s.addTask g job = (s, .error (.scheduling (.duplicateTask job.id g))) := by
  have hanswered := Foreman.addTask_answered h.handed.sound g job
  rw [h.refusal?_addTask hg, if_pos htaken] at hanswered
  have hrefused : s.foreman.addTask g job = (s.foreman, .error (.duplicateTask job.id g)) := hanswered
  have hnames := Factory.reserveThrough_eq_self_iff.mpr (h.used htaken)
  rw [Sandbox.addTask, if_pos hg]
  dsimp only
  rw [hrefused, hnames]
  rfl

/-- **A job with a new name** is accepted. -/
theorem Orderly.addTask_new (h : s.Orderly) (hg : s.groups.contains g = true)
    (hnew : s.foreman.board.contains job.id = false) :
    ∃ s', s.addTask g job = (s', .ok job.id) ∧ s'.groups = s.groups ∧
      ∀ t, s'.foreman.board.contains t = (decide (job.id = t) || s.foreman.board.contains t) := by
  have hanswered := Foreman.addTask_answered h.handed.sound g job
  rw [h.refusal?_addTask hg, hnew, if_neg Bool.false_ne_true] at hanswered
  obtain ⟨id, hok⟩ := hanswered
  have hboard := Foreman.contains_addTask h.handed.sound hok
  have hid : id = job.id := by
    rcases Foreman.addTask_cases h.handed.sound g job with ⟨e, heq⟩ | ⟨_, _, -, -, -, heq⟩ <;>
      rw [heq] at hok <;> cases hok
    rfl
  subst hid
  rw [Sandbox.addTask, if_pos hg, withForeman, hok]
  exact ⟨_, rfl, rfl, hboard⟩

/-- What is on the board stays there, and groups stay known, when jobs are handed in. -/
theorem Orderly.addTasks_contains (h : s.Orderly) (hg : s.groups.contains g = true)
    (hfresh : ∀ job ∈ jobs, job.Fresh) {t : TaskId} (hon : s.foreman.board.contains t = true) :
    (Sandbox.addTasks g jobs s).1.foreman.board.contains t = true := by
  refine (keeps_addTasks
    (P := fun s => s.Orderly ∧ s.groups.contains g = true ∧ s.foreman.board.contains t = true) ?_ ⟨h, hg, hon⟩).2.2
  rintro s job hjob ⟨hs, hg, hon⟩
  refine ⟨hs.addTask g (hfresh job hjob), ?_⟩
  cases htaken : s.foreman.board.contains job.id with
  | true =>
    rw [hs.addTask_taken hg htaken]
    exact ⟨hg, hon⟩
  | false =>
    obtain ⟨s', hadd, hgroups, hboard⟩ := hs.addTask_new hg htaken
    rw [hadd, hgroups, hboard, hon, Bool.or_true]
    exact ⟨hg, rfl⟩

/-- A new job is on the board in the end, also if a later one is refused. -/
theorem Orderly.addTasks_first (h : s.Orderly) (hg : s.groups.contains g = true)
    (hfresh : ∀ job' ∈ job :: jobs, job'.Fresh) (hnew : s.foreman.board.contains job.id = false) :
    (Sandbox.addTasks g (job :: jobs) s).1.foreman.board.contains job.id = true := by
  obtain ⟨s₁, hadd, hgroups, hboard⟩ := h.addTask_new hg hnew
  have h₁ := h.addTask g (hfresh job List.mem_cons_self)
  rw [hadd] at h₁
  have hon : s₁.foreman.board.contains job.id = true := by
    rw [hboard]
    simp
  rw [Sandbox.addTasks, hadd]
  exact h₁.addTasks_contains (hgroups ▸ hg) (fun job' hjob' => hfresh job' (List.mem_cons_of_mem _ hjob')) hon

/-- **Jobs in a row** are accepted if there are names left for all of them. -/
theorem Orderly.addTasks_accepted {name : String} {priority : Int64} {program : Program} {cubes : List Cube}
    {f : Factory} (h : s.Orderly) (hg : s.groups.contains g = true)
    (hfresh : ∀ job ∈ (Factory.jobsFor name priority program cubes f).2, job.Fresh)
    (hbelow : ∀ t, s.foreman.board.contains t = true → t.val.toNat < f.nextId.toNat)
    (hroom : cubes.length ≤ f.left) :
    ∃ ids, (Sandbox.addTasks g (Factory.jobsFor name priority program cubes f).2 s).2 = .ok ids := by
  induction cubes generalizing f s with
  | nil => exact ⟨[], rfl⟩
  | cons c rest ih =>
    have hnew : s.foreman.board.contains ⟨f.nextId⟩ = false := by
      cases hon : s.foreman.board.contains ⟨f.nextId⟩ with
      | true => exact absurd (hbelow _ hon) (Nat.lt_irrefl _)
      | false => rfl
    obtain ⟨job, hid, hjobs⟩ : ∃ job : Job, job.id = ⟨f.nextId⟩ ∧
        (Factory.jobsFor name priority program (c :: rest) f).2 =
          job :: (Factory.jobsFor name priority program rest f.allocate.1).2 := ⟨_, rfl, rfl⟩
    rw [hjobs] at hfresh ⊢
    obtain ⟨s₁, hadd, hgroups, hboard⟩ := h.addTask_new hg (hid ▸ hnew)
    have h₁ := h.addTask g (hfresh job List.mem_cons_self)
    rw [hadd] at h₁
    have hrest : ∃ ids, (Sandbox.addTasks g (Factory.jobsFor name priority program rest f.allocate.1).2 s₁).2 =
        .ok ids := by
      cases rest with
      | nil => exact ⟨[], rfl⟩
      | cons c' rest =>
        -- a name is left besides the one that was given, so the next name is a larger one
        rw [List.length_cons, List.length_cons, Factory.left] at hroom
        have hnext : (f.allocate.1.nextId).toNat = f.nextId.toNat + 1 := toNat_successor (by omega)
        refine ih h₁ (hgroups ▸ hg) (fun job' hjob' => hfresh job' (List.mem_cons_of_mem _ hjob')) ?_ ?_
        · intro t hon
          rw [hboard, Bool.or_eq_true, decide_eq_true_eq, hid] at hon
          rcases hon with rfl | hon
          · rw [hnext]
            exact Nat.lt_succ_self _
          · have hlt := hbelow t hon
            omega
        · rw [List.length_cons, Factory.left]
          omega
    obtain ⟨ids, hids⟩ := hrest
    refine ⟨job.id :: ids, ?_⟩
    rw [Sandbox.addTasks, hadd]
    dsimp only
    rw [hids]
    rfl

/-! ## Refused commands -/

/-- **What a refused command can waste**: the names up to that of a replacement, or the names that are left, on
the first of more jobs than that. -/
def Wastes (s : Sandbox) : Command → Prop
  | .replaceTask g _ replacement =>
    s.groups.contains g = true ∧ s.factory.nextId < successor replacement.id.val
  | .createTasks g _ _ program targets =>
    s.groups.contains g = true ∧ program.check = .ok () ∧ program.usesSelected = true ∧
      s.foreman.board.contains ⟨s.factory.nextId⟩ = false ∧ s.factory.left < targets.length
  | _ => False

theorem eq_error_of_told {α : Type} {answer : Except SchedulingError α} {e : WorldError}
    (h : told answer = .error e) : ∃ e', answer = .error e' := by
  cases answer with
  | error e' => exact ⟨e', rfl⟩
  | ok _ => cases h

/-- Whether a command does something before it is known that it is not refused. -/
def Command.isEager : Command → Bool
  | .createTasks _ _ _ _ _ | .replaceTask _ _ _ => true
  | _ => false

/-- All other commands waste nothing. -/
theorem Orderly.refused_keeps (h : s.Orderly) {c : Command} (hc : c.isEager = false) {e : WorldError}
    (hrefused : (s.perform c).2 = .error e) : (s.perform c).1 = s := by
  have hsound := h.handed.sound
  have heffect := effect_perform s c
  generalize s.perform c = result at heffect hrefused
  cases heffect with
  | refused => rfl
  | ignored => rfl
  | furnishes _ => cases hrefused
  | registers => cases hrefused
  | stops _ => cases hrefused
  | creates _ _ => cases hc
  | replaces _ => cases hc
  | @adds g job hg =>
    obtain ⟨e', he'⟩ := eq_error_of_told hrefused
    obtain ⟨hwhy, hsame⟩ := (Foreman.addTask_answered hsound g job).of_error he'
    rw [h.refusal?_addTask hg] at hwhy
    split at hwhy
    · rename_i htaken
      rw [hsame, Factory.reserveThrough_eq_self_iff.mpr (h.used htaken)]
    · cases hwhy
  | @shares g t _ =>
    obtain ⟨e', he'⟩ := eq_error_of_told hrefused
    rw [((Foreman.scheduleExisting_answered hsound g t).of_error he').2]
  | @removes g t _ =>
    obtain ⟨e', he'⟩ := eq_error_of_told hrefused
    rw [((Foreman.removeTask_answered hsound g t).of_error he').2]
    rfl

/-- A replacement that the foreman refuses changes nothing but the names that are left. -/
theorem Orderly.refused_replaceTask (h : s.Orderly) (hg : s.groups.contains g = true) {t : TaskId} {e : WorldError}
    (hrefused : (s.perform (.replaceTask g t job)).2 = .error e) :
    (s.perform (.replaceTask g t job)).1 = { s with factory := s.factory.reserveThrough job.id } := by
  rw [Sandbox.perform, replaceTask_eq hg] at hrefused ⊢
  obtain ⟨e', he'⟩ := eq_error_of_told hrefused
  rw [((Foreman.replaceTask_answered h.handed.sound g t job).of_error he').2]
  rfl

/-- If the first of several jobs is refused, none is left behind, and no name is used up: there are none left. -/
theorem Orderly.addTasks_taken (h : s.Orderly) (hg : s.groups.contains g = true) {name : String}
    {priority : Int64} {program : Program} {targets : List Cube} {factory : Factory}
    (hjobs : s.factory.createJobs name priority program targets = .ok (factory, job :: jobs))
    (htaken : s.foreman.board.contains job.id = true) (hid : job.id = ⟨s.factory.nextId⟩) :
    (Sandbox.addTasks g (job :: jobs) { s with factory }).1 = s := by
  have hused := h.used htaken
  rw [hid] at hused
  rw [Factory.createJobs_of_used_up hused hjobs, Sandbox.addTasks, h.addTask_taken hg htaken]

/-- If there are more jobs than names, those that came first stay; no other refusal leaves jobs behind. -/
theorem Orderly.refused_createTasks (h : s.Orderly) {name : String} {priority : Int64} {program : Program}
    {targets : List Cube} (hsealed : program.Sealed) {e : WorldError}
    (hrefused : (s.createTasks g name priority program targets).2 = .error e) :
    (s.createTasks g name priority program targets).1 = s ↔
      ¬ s.Wastes (.createTasks g name priority program targets) := by
  unfold createTasks at hrefused ⊢
  by_cases hg : s.groups.contains g = true
  · rw [if_pos hg] at hrefused ⊢
    cases hjobs : s.factory.createJobs name priority program targets with
    | error e =>
      -- the factory has refused, so nothing was made, and it does not refuse what would be wasted
      refine iff_of_true rfl ?_
      rintro ⟨-, hcheck, hselected, -, hmany⟩
      have hne : targets.isEmpty = false := by
        cases targets with
        | nil => exact absurd hmany (Nat.not_lt_zero _)
        | cons _ _ => rfl
      rw [Factory.createJobs, hcheck, hselected, hne] at hjobs
      cases hjobs
    | ok made =>
      obtain ⟨factory, jobs⟩ := made
      rw [hjobs] at hrefused
      dsimp only at hrefused ⊢
      have hnames : Orderly { s with factory } := h.congr rfl rfl (Factory.le_createJobs hjobs)
      have hfresh := Factory.fresh_of_createJobs hsealed hjobs
      obtain ⟨job, rest, rfl, hid, hkind⟩ := Factory.createJobs_cases hjobs
      -- what is left behind depends on whether the first job was refused already
      cases htaken : s.foreman.board.contains job.id with
      | true =>
        refine iff_of_true (h.addTasks_taken hg hjobs htaken hid) ?_
        rintro ⟨-, -, -, hnew, -⟩
        rw [← hid, htaken] at hnew
        cases hnew
      | false =>
        rcases hkind with ⟨hcheck, hselected, heq⟩ | ⟨-, rfl⟩
        · -- with enough names left, no job would have been refused
          have hmany : s.factory.left < targets.length := by
            by_contra hroom
            obtain ⟨ids, hok⟩ := hnames.addTasks_accepted hg (heq ▸ hfresh) (h.below (hid ▸ htaken))
              (Nat.le_of_not_lt hroom)
            rw [heq, hok] at hrefused
            cases hrefused
          refine iff_of_false ?_ (not_not_intro ⟨hg, hcheck, hselected, hid ▸ htaken, hmany⟩)
          intro hsame
          have hon := hnames.addTasks_first hg hfresh htaken
          rw [hsame, htaken] at hon
          cases hon
        · -- a single job with a new name is not refused at all
          obtain ⟨s₁, hadd, -⟩ := hnames.addTask_new hg htaken
          rw [Sandbox.addTasks, hadd] at hrefused
          cases hrefused
  · rw [if_neg hg]
    exact iff_of_true rfl fun hwastes => hg hwastes.1

/-- A replacement wastes names exactly if its own is larger than all that were used. -/
theorem Orderly.refused_replaceTask_iff (h : s.Orderly) {t : TaskId} {e : WorldError}
    (hrefused : (s.perform (.replaceTask g t job)).2 = .error e) :
    (s.perform (.replaceTask g t job)).1 = s ↔ ¬ s.Wastes (.replaceTask g t job) := by
  by_cases hg : s.groups.contains g = true
  · rw [h.refused_replaceTask hg hrefused]
    have hnames : { s with factory := s.factory.reserveThrough job.id } = s ↔
        s.factory.reserveThrough job.id = s.factory := by
      constructor
      · intro heq
        exact congrArg Sandbox.factory heq
      · intro heq
        rw [heq]
    rw [hnames, Factory.reserveThrough_eq_self_iff, Wastes, not_and, UInt64.not_lt]
    exact ⟨fun hle _ => hle, fun hle => hle hg⟩
  · have hsame : (s.perform (.replaceTask g t job)).1 = s := by
      rw [Sandbox.perform, Sandbox.replaceTask, if_neg hg]
      rfl
    exact iff_of_true hsame fun hwastes => hg hwastes.1

/-- **A refused command leaves the sandbox as it was**, unless it wastes something. What a refused replacement
wastes is names, and nothing else. -/
theorem refused_keeps_sandbox_iff (h : Reachable s) {c : Command} (hc : c.Fresh) {e : WorldError}
    (hrefused : (s.perform c).2 = .error e) :
    ((s.perform c).1 = s ↔ ¬ s.Wastes c) ∧
      ∀ g t job, c = .replaceTask g t job → s.Wastes c →
        (s.perform c).1 = { s with factory := s.factory.reserveThrough job.id } := by
  have horderly := h.orderly
  constructor
  · cases c with
    | createTasks g name priority program targets =>
      have hanswer : ∃ e', (s.createTasks g name priority program targets).2 = .error e' := by
        cases hcreate : (s.createTasks g name priority program targets).2 with
        | error e' => exact ⟨e', rfl⟩
        | ok _ =>
          rw [Sandbox.perform, answered, hcreate] at hrefused
          cases hrefused
      obtain ⟨e', he'⟩ := hanswer
      exact horderly.refused_createTasks hc he'
    | replaceTask g t job => exact horderly.refused_replaceTask_iff hrefused
    | _ => exact iff_of_true (horderly.refused_keeps rfl hrefused) id
  · rintro g t job rfl ⟨hg, -⟩
    exact horderly.refused_replaceTask hg hrefused

/-- A job with the program of the camp, under a given name. -/
def workHereAs (id : UInt64) : Job where
  id := ⟨id⟩
  name := "work"
  priority := 0
  program := workHere
  selected := none

theorem fresh_workHereAs (id : UInt64) : (workHereAs id).Fresh :=
  ⟨sealed_workHere, .inl rfl⟩

/-- A replacement whose name is taken wastes nothing. -/
theorem camp_keeps_taken_name :
    (camp.perform (.replaceTask ⟨1⟩ ⟨1⟩ (workHereAs 1))).2 = .error (.scheduling (.duplicateTask ⟨1⟩ ⟨1⟩)) ∧
      (camp.perform (.replaceTask ⟨1⟩ ⟨1⟩ (workHereAs 1))).1 = camp := by
  have hrefused : (camp.perform (.replaceTask ⟨1⟩ ⟨1⟩ (workHereAs 1))).2 =
      .error (.scheduling (.duplicateTask ⟨1⟩ ⟨1⟩)) := by decide
  have hfresh : (Command.replaceTask ⟨1⟩ ⟨1⟩ (workHereAs 1)).Fresh := fresh_workHereAs 1
  obtain ⟨hiff, -⟩ := refused_keeps_sandbox_iff reachable_camp hfresh hrefused
  exact ⟨hrefused, hiff.mpr fun hwastes => absurd hwastes.2 (by decide)⟩

/-- **Names are used up for nothing.** A job is to replace a task that there is not, so it is refused; but the
next name is 101 then, where it was 1. -/
theorem refused_replacement_uses_names :
    let s := (new {}).addGroup ⟨1⟩
    Reachable s ∧ (workHereAs 100).Fresh ∧ s.nextTaskId.2 = ⟨1⟩ ∧
      (s.perform (.replaceTask ⟨1⟩ ⟨9⟩ (workHereAs 100))).2 = .error (.scheduling (.unknownTask ⟨9⟩ ⟨1⟩)) ∧
      (s.perform (.replaceTask ⟨1⟩ ⟨9⟩ (workHereAs 100))).1.nextTaskId.2 = ⟨101⟩ := by
  intro s
  have hreachable : Reachable s := (Reachable.new {}).perform (.addGroup ⟨1⟩) trivial
  exact ⟨hreachable, fresh_workHereAs 100, by decide, by decide, by decide⟩

end Sandbox

end TaskScript
