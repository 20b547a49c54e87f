import Mathlib.Data.List.Nodup
import TaskScript.Proofs.Id
import TaskScript.Proofs.Task.Fresh

/-!
# `Proofs.Task.Supply`: the names that a factory hands out

A factory is asked for jobs, for a bare name, or not to use some names again, in any order. The number that it
keeps never falls, and it is above every name that was handed out or reserved. That is all that keeps names apart,
and it holds of every row of calls (`supplies_handedOut`).

"Above" means that the successor of the name is not larger than the number. For the largest name that says nothing,
as it is its own successor: a factory that got there hands it out again and again, and it does so even when that
name was reserved (`handedOut_largest_again`). For all other names a factory keeps its word.

## Contents
- `Factory.le_createJobs`, `le_reserveThrough`: names are used up.
- `Factory.Call`, `Factory.after`, `Factory.handedOut`: **rows of calls**.
- `Factory.Supplies`, `supplies_call`, `supplies_handedOut`: **names count upwards**.
- `Factory.createJobs_refused`, `createJobs_accepted`: orders that get no jobs, and orders that do.
- `Factory.handedOut_distinct_below_largest`: **no name but the largest is handed out twice**.
-/

namespace TaskScript

/-! ## Numbers -/

theorem UInt64.le_max_left (a b : UInt64) : a ≤ max a b := by
  show a ≤ if a ≤ b then b else a
  split
  · assumption
  · exact UInt64.le_refl a

theorem UInt64.le_max_right (a b : UInt64) : b ≤ max a b := by
  show b ≤ if a ≤ b then b else a
  split
  · exact UInt64.le_refl b
  · rename_i h
    exact UInt64.le_of_lt (UInt64.not_le.mp h)

/-- A number whose successor is not larger than another is smaller than that, unless both are the largest. -/
theorem successor_le_iff {m n : UInt64} :
    successor m ≤ n ↔ m < n ∨ m = 18446744073709551615 ∧ n = 18446744073709551615 := by
  have hn := UInt64.toNat_lt n
  have hlargest : (18446744073709551615 : UInt64).toNat = 18446744073709551615 := rfl
  rw [UInt64.le_iff_toNat_le, UInt64.lt_iff_toNat_lt, ← UInt64.toNat_inj, ← UInt64.toNat_inj, hlargest]
  have hm := UInt64.toNat_lt m
  by_cases hroom : m.toNat + 1 < 18446744073709551616
  · rw [toNat_successor hroom]
    omega
  · have heq : m = 18446744073709551615 := by
      refine UInt64.toNat_inj.mp ?_
      rw [hlargest]
      omega
    rw [successor, if_pos heq]
    omega

namespace Factory

variable {f f' : Factory}

theorem le_reserveThrough (f : Factory) (id : TaskId) : f.nextId ≤ (f.reserveThrough id).nextId :=
  UInt64.le_max_left _ _

/-- A name counts as used once it was reserved. -/
theorem successor_le_reserveThrough (f : Factory) (id : TaskId) :
    successor id.val ≤ (f.reserveThrough id).nextId :=
  UInt64.le_max_right _ _

/-! ## Rows of calls -/

/-- What can be asked of a factory. -/
inductive Call where
  /-- Jobs of a program. -/
  | create (name : String) (priority : Int64) (program : Program) (targets : List Cube)
  /-- That this name and those below it are not used again. -/
  | reserveThrough (id : TaskId)
  /-- A name. -/
  | allocate

/-- What a call makes of a factory, and the names that it gets. An order that is refused gets none, and the factory
is as it was. -/
def call (f : Factory) : Call → Factory × List TaskId
  | .create name priority program targets =>
    match f.createJobs name priority program targets with
    | .ok (f', jobs) => (f', jobs.map (·.id))
    | .error _ => (f, [])
  | .reserveThrough id => (f.reserveThrough id, [])
  | .allocate => (f.allocate.1, [f.allocate.2])

/-- The factory after a row of calls. -/
def after : Factory → List Call → Factory
  | f, [] => f
  | f, c :: rest => (f.call c).1.after rest

/-- **The names that a row of calls gets**, in the order in which they are made. -/
def handedOut : Factory → List Call → List TaskId
  | _, [] => []
  | f, c :: rest => (f.call c).2 ++ (f.call c).1.handedOut rest

/-- What is handed out later depends on the calls before only through the factory that they leave. -/
theorem handedOut_append (f : Factory) (before later : List Call) :
    f.handedOut (before ++ later) = f.handedOut before ++ (f.after before).handedOut later := by
  induction before generalizing f with
  | nil => rfl
  | cons c rest ih =>
    show (f.call c).2 ++ (f.call c).1.handedOut (rest ++ later) = _
    rw [ih (f.call c).1, ← List.append_assoc]
    rfl

/-! ## Names count upwards -/

/-- **A supply of names**: with `n` to start with and `n'` to go on with, each of the names is used up for the next
one, and all of them are at the end. -/
structure Supplies (n : UInt64) (ids : List TaskId) (n' : UInt64) : Prop where
  grows : n ≤ n'
  starts : ∀ t ∈ ids, n ≤ t.val
  used : ∀ t ∈ ids, successor t.val ≤ n'
  rises : ids.Pairwise fun t u => successor t.val ≤ u.val

namespace Supplies

variable {n₁ n₂ n₃ : UInt64} {ids ids' : List TaskId}

theorem nil (h : n₁ ≤ n₂) : Supplies n₁ [] n₂ where
  grows := h
  starts _ ht := absurd ht List.not_mem_nil
  used _ ht := absurd ht List.not_mem_nil
  rises := .nil

theorem single (n : UInt64) : Supplies n [⟨n⟩] (successor n) where
  grows := le_successor n
  starts t ht := by
    rw [List.mem_singleton.mp ht]
    exact UInt64.le_refl n
  used t ht := by
    rw [List.mem_singleton.mp ht]
    exact UInt64.le_refl _
  rises := List.pairwise_singleton _ _

/-- Two rows of names that count upwards make one, if the second starts where the first has left the number. -/
theorem append (h : Supplies n₁ ids n₂) (h' : Supplies n₂ ids' n₃) : Supplies n₁ (ids ++ ids') n₃ where
  grows := UInt64.le_trans h.grows h'.grows
  starts t ht := by
    rcases List.mem_append.mp ht with ht | ht
    · exact h.starts t ht
    · exact UInt64.le_trans h.grows (h'.starts t ht)
  used t ht := by
    rcases List.mem_append.mp ht with ht | ht
    · exact UInt64.le_trans (h.used t ht) h'.grows
    · exact h'.used t ht
  rises := List.pairwise_append.mpr
    ⟨h.rises, h'.rises, fun t ht u hu => UInt64.le_trans (h.used t ht) (h'.starts u hu)⟩

end Supplies

/-- A job is made for each cube, and each takes one name. -/
theorem supplies_jobsFor (name : String) (priority : Int64) (program : Program) (cubes : List Cube)
    (f : Factory) :
    Supplies f.nextId ((jobsFor name priority program cubes f).2.map (·.id))
      (jobsFor name priority program cubes f).1.nextId := by
  induction cubes generalizing f with
  | nil => exact .nil (UInt64.le_refl _)
  | cons c rest ih => exact (Supplies.single f.nextId).append (ih f.allocate.1)

theorem supplies_createJobs {name : String} {priority : Int64} {program : Program} {targets : List Cube}
    {jobs : List Job} (h : f.createJobs name priority program targets = .ok (f', jobs)) :
    Supplies f.nextId (jobs.map (·.id)) f'.nextId := by
  obtain ⟨-, ⟨-, -, hjobs⟩ | ⟨-, rfl, rfl⟩⟩ := createJobs_eq_ok h
  · have hsupplies := supplies_jobsFor name priority program targets f
    rwa [hjobs] at hsupplies
  · exact .single f.nextId

theorem le_createJobs {name : String} {priority : Int64} {program : Program} {targets : List Cube}
    {jobs : List Job} (h : f.createJobs name priority program targets = .ok (f', jobs)) :
    f.nextId ≤ f'.nextId :=
  (supplies_createJobs h).grows

/-- **One call.** -/
theorem supplies_call (f : Factory) (c : Call) : Supplies f.nextId (f.call c).2 (f.call c).1.nextId := by
  cases c with
  | create name priority program targets =>
    rw [call]
    split
    · rename_i hjobs
      exact supplies_createJobs hjobs
    · exact .nil (UInt64.le_refl _)
  | reserveThrough id => exact .nil (f.le_reserveThrough id)
  | allocate => exact .single f.nextId

/-- **A row of calls.** -/
theorem supplies_handedOut (f : Factory) (calls : List Call) :
    Supplies f.nextId (f.handedOut calls) (f.after calls).nextId := by
  induction calls generalizing f with
  | nil => exact .nil (UInt64.le_refl _)
  | cons c rest ih => exact (f.supplies_call c).append (ih (f.call c).1)

/-! ## Orders that are refused -/

/-- **An order that gets no jobs**: its program is not well-formed, or reads the selected cube, and there is none. -/
def Call.refused : Call → Bool
  | .create _ _ program targets => !program.check.isOk || program.usesSelected && targets.isEmpty
  | .reserveThrough _ => false
  | .allocate => false

section

variable {name : String} {priority : Int64} {program : Program} {targets : List Cube}

/-- Programs that are not well-formed, and programs that read the selected cube where no cubes are given, are
refused by every factory. -/
theorem createJobs_refused (h : (Call.create name priority program targets).refused = true) (f : Factory) :
    ∃ e, f.createJobs name priority program targets = .error e := by
  unfold createJobs
  cases hcheck : program.check with
  | error e => exact ⟨e, rfl⟩
  | ok _ =>
    rw [Call.refused, hcheck] at h
    obtain ⟨hself, hnone⟩ := Bool.and_eq_true_iff.mp h
    refine ⟨.missingSelection, ?_⟩
    simp only [hself, hnone, if_true]
    rfl

/-- Each job is told its own cube, in the order of the cubes. -/
theorem selected_jobsFor (name : String) (priority : Int64) (program : Program) (cubes : List Cube)
    (f : Factory) : (jobsFor name priority program cubes f).2.map (·.selected) = cubes.map some := by
  induction cubes generalizing f with
  | nil => rfl
  | cons c rest ih => exact congrArg (some c :: ·) (ih f.allocate.1)

theorem described_jobsFor (name : String) (priority : Int64) (program : Program) (cubes : List Cube)
    (f : Factory) : ∀ job ∈ (jobsFor name priority program cubes f).2,
      job.name = name ∧ job.priority = priority ∧ job.program = program := by
  induction cubes generalizing f with
  | nil => exact fun job hjob => absurd hjob List.not_mem_nil
  | cons c rest ih =>
    intro job hjob
    rcases List.mem_cons.mp hjob with rfl | hjob
    · exact ⟨rfl, rfl, rfl⟩
    · exact ih f.allocate.1 job hjob

/-- **Every other order gets its jobs**: one for each target if the program reads the selected cube, and one
without a cube if it does not. -/
theorem createJobs_accepted (h : (Call.create name priority program targets).refused = false) (f : Factory) :
    ∃ f' jobs, f.createJobs name priority program targets = .ok (f', jobs) ∧
      jobs.map (·.selected) = (if program.usesSelected then targets.map some else [none]) ∧
      ∀ job ∈ jobs, job.name = name ∧ job.priority = priority ∧ job.program = program := by
  unfold createJobs
  cases hcheck : program.check with
  | error _ =>
    rw [Call.refused, hcheck] at h
    cases h
  | ok _ =>
    rw [Call.refused, hcheck] at h
    cases hself : program.usesSelected with
    | true =>
      have htargets : targets.isEmpty = false := by rwa [hself] at h
      refine ⟨(jobsFor name priority program targets f).1, (jobsFor name priority program targets f).2, ?_,
        selected_jobsFor name priority program targets f, described_jobsFor name priority program targets f⟩
      simp only [htargets, if_true, Bool.false_eq_true, if_false]
      rfl
    | false =>
      refine ⟨_, _, rfl, rfl, fun job hjob => ?_⟩
      rw [List.mem_singleton.mp hjob]
      exact ⟨rfl, rfl, rfl⟩

end

theorem call_refused {c : Call} (h : c.refused = true) (f : Factory) : f.call c = (f, []) := by
  cases c with
  | create name priority program targets =>
    obtain ⟨e, he⟩ := createJobs_refused h f
    rw [call, he]
  | reserveThrough _ => cases h
  | allocate => cases h

/-- **Refused orders leave no trace**: without them the others get the same names. -/
theorem handedOut_filter_refused (f : Factory) (calls : List Call) :
    f.handedOut (calls.filter (!·.refused)) = f.handedOut calls ∧
      f.after (calls.filter (!·.refused)) = f.after calls := by
  induction calls generalizing f with
  | nil => exact ⟨rfl, rfl⟩
  | cons c rest ih =>
    cases hc : c.refused with
    | true =>
      rw [List.filter_cons_of_neg (by rw [hc]; decide), handedOut, after, call_refused hc]
      exact ih f
    | false =>
      rw [List.filter_cons_of_pos (by rw [hc]; rfl), handedOut, handedOut, after, after,
        (ih (f.call c).1).1, (ih (f.call c).1).2]
      exact ⟨rfl, rfl⟩

/-! ## No name is handed out twice -/

/-- The last name there is. -/
def largest : TaskId := ⟨18446744073709551615⟩

theorem successor_le_iff_lt_or {t u : TaskId} :
    successor t.val ≤ u.val ↔ t.val < u.val ∨ t = largest ∧ u = largest := by
  rw [successor_le_iff, ← TaskId.mk.injEq, ← TaskId.mk.injEq]
  rfl

section

variable {ids : List TaskId}

/-- **The largest name is the only one that could come twice.** Where it comes once at most, names that do not fall
increase. -/
theorem increasing_of_count_le (h : ids.Pairwise fun t u => successor t.val ≤ u.val)
    (hcount : ids.count largest ≤ 1) : ids.Pairwise fun t u => t.val < u.val := by
  induction ids with
  | nil => exact .nil
  | cons t rest ih =>
    obtain ⟨hfirst, hrest⟩ := List.pairwise_cons.mp h
    rw [List.count_cons] at hcount
    refine List.pairwise_cons.mpr ⟨fun u hu => ?_, ih hrest (by omega)⟩
    rcases successor_le_iff_lt_or.mp (hfirst u hu) with hlt | ⟨rfl, rfl⟩
    · exact hlt
    · -- the largest name would be there a second time
      have hmore := List.count_pos_iff.mpr hu
      rw [beq_self_eq_true, if_pos rfl] at hcount
      omega

theorem nodup_of_increasing (h : ids.Pairwise fun t u => t.val < u.val) : ids.Nodup := by
  refine h.imp fun {t u} hlt heq => ?_
  rw [heq] at hlt
  exact UInt64.lt_irrefl _ hlt

end

/-- **No name but the largest is handed out twice**. Of the names that a factory hands out over a row of calls, each
is smaller than those after it, unless both are the largest name. So they strictly increase, and differ from each
other, exactly if the largest name is among them at most once. The names after a reservation are larger than the
reserved one, unless both are the largest. Orders that are refused use up no name and change nothing for the others,
and all other orders get one job for each target or, if the program does not read the selected cube, a single job
without one. -/
theorem handedOut_distinct_below_largest (f : Factory) (calls : List Call) :
    (f.handedOut calls).Pairwise (fun t u => t.val < u.val ∨ t = largest ∧ u = largest) ∧
    ((f.handedOut calls).Pairwise (fun t u => t.val < u.val) ↔ (f.handedOut calls).count largest ≤ 1) ∧
    ((f.handedOut calls).Nodup ↔ (f.handedOut calls).count largest ≤ 1) ∧
    (∀ id later,
      f.handedOut (calls ++ .reserveThrough id :: later) =
        f.handedOut calls ++ ((f.after calls).reserveThrough id).handedOut later ∧
      ∀ t ∈ ((f.after calls).reserveThrough id).handedOut later,
        id.val < t.val ∨ id = largest ∧ t = largest) ∧
    (f.handedOut (calls.filter (!·.refused)) = f.handedOut calls ∧
      f.after (calls.filter (!·.refused)) = f.after calls) ∧
    ∀ name priority program targets,
      ((Call.create name priority program targets).refused = true →
        ∃ e, (f.after calls).createJobs name priority program targets = .error e) ∧
      ((Call.create name priority program targets).refused = false →
        ∃ f' jobs, (f.after calls).createJobs name priority program targets = .ok (f', jobs) ∧
          jobs.map (·.selected) = (if program.usesSelected then targets.map some else [none]) ∧
          ∀ job ∈ jobs, job.name = name ∧ job.priority = priority ∧ job.program = program) := by
  have hrises := (f.supplies_handedOut calls).rises
  -- the largest id is the only one that can come back, so all three statements count it
  have hcount : (f.handedOut calls).Nodup → (f.handedOut calls).count largest ≤ 1 :=
    fun h => List.nodup_iff_count_le_one.mp h largest
  refine ⟨hrises.imp successor_le_iff_lt_or.mp, ?_, ?_, ?_, f.handedOut_filter_refused calls, ?_⟩
  · exact ⟨fun h => hcount (nodup_of_increasing h), increasing_of_count_le hrises⟩
  · exact ⟨hcount, fun h => nodup_of_increasing (increasing_of_count_le hrises h)⟩
  · intro id later
    refine ⟨f.handedOut_append calls _, fun t ht => successor_le_iff_lt_or.mp ?_⟩
    have hstart := (((f.after calls).reserveThrough id).supplies_handedOut later).starts t ht
    exact UInt64.le_trans ((f.after calls).successor_le_reserveThrough id) hstart
  · exact fun name priority program targets =>
      ⟨fun h => createJobs_refused h (f.after calls), fun h => createJobs_accepted h (f.after calls)⟩

/-- A program that does nothing. -/
def noWork : Program where
  root := 0
  nodes := #[{ statement := .leaf .noOp, parent := none }]

/-- **The largest name is handed out again and again**, and after it was reserved. -/
theorem handedOut_largest_again :
    let ids := ({} : Factory).handedOut
      [.reserveThrough largest, .create "idle" 0 noWork [], .create "idle" 0 noWork []]
    ids = [largest, largest] ∧ ¬ ids.Nodup ∧ ¬ ids.Pairwise (fun t u => t.val < u.val) ∧
      ¬ ∀ t ∈ ids, largest.val < t.val := by
  decide

end Factory

end TaskScript
