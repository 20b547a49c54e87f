import TaskScript.Proofs.Task.Lookup

/-!
# `Proofs.Scheduler.Slots`: the list of slots

What a row of changes of membership makes of the members of a group, and of their order, is said here without a
scheduler. Each member has a slot, with the priority that it had when it was added. A new slot goes behind all of at
least its priority and before all others, a removed one is taken out, and a replacement takes over the slot as it is.
A change that cannot be made leaves the slots alone.

The slots are sorted by their priorities, and those of equal priority stand in the order in which their members
arrived (`Slot.Before`). That is what makes the place of a new slot a place between two others (`Slot.place_between`).

## Contents
- `MembershipChange`, `Slot`, `Slot.place`, `changedSlots`, `slotsAfter`: **the slots and their changes**.
- `changedArrivals`, `arrivedAfter`: the members in the order of their arrival.
- `Slot.place_perm`, `Slot.place_between`, `Slot.pairwise_place`: **placing a slot**.
- `Board.Ranks`, `ranked_slotsAfter`: priorities that do not change.
-/

namespace TaskScript

/-! ## The slots and their changes -/

/-- A change of membership that a scheduler is asked for. -/
inductive MembershipChange where
  | add (task : TaskId)
  | remove (task : TaskId)
  | replace (member replacement : TaskId)
deriving DecidableEq, Repr

/-- Whether a change gives a slot on. -/
def MembershipChange.isReplacement : MembershipChange → Bool
  | .replace .. => true
  | .add _ | .remove _ => false

/-- A place in the order of the members: who has it, and how urgent it is. -/
structure Slot where
  task : TaskId
  priority : Int64
deriving DecidableEq, Repr

/-- Puts a slot behind all of at least its priority and before all others. -/
def Slot.place (slot : Slot) (slots : List Slot) : List Slot :=
  slots.filter (fun other => slot.priority ≤ other.priority) ++
    slot :: slots.filter fun other => other.priority < slot.priority

/-- The members that have slots. -/
def slotTasks (slots : List Slot) : List TaskId :=
  slots.map (·.task)

theorem slotTasks_filter (slots : List Slot) (t : TaskId) :
    slotTasks (slots.filter (·.task ≠ t)) = (slotTasks slots).filter (· ≠ t) := by
  rw [slotTasks, slotTasks, List.filter_map]
  rfl

/-- Whether a task can be given a slot: it is on the board and has none. -/
def Board.Offers (b : Board) (members : List TaskId) (task : TaskId) : Prop :=
  b[task]?.isSome ∧ task ∉ members

instance (b : Board) (members : List TaskId) (task : TaskId) : Decidable (b.Offers members task) :=
  inferInstanceAs (Decidable (_ ∧ _))

/-- What a change of membership makes of the slots. -/
def changedSlots (b : Board) (slots : List Slot) : MembershipChange → List Slot
  | .add task =>
    match b[task]? with
    | some t => if task ∈ slotTasks slots then slots else Slot.place { task, priority := t.priority } slots
    | none => slots
  | .remove task => slots.filter (·.task ≠ task)
  | .replace member replacement =>
    if member ∈ slotTasks slots ∧ b.Offers (slotTasks slots) replacement then
      slots.map fun slot => { slot with task := if slot.task = member then replacement else slot.task }
    else slots

/-- The slots after a row of changes, each asked for with the board of its time. -/
def slotsAfter (history : List (Board × MembershipChange)) : List Slot :=
  history.foldl (fun slots call => changedSlots call.1 slots call.2) []

/-- What a change of membership makes of the members in the order of their arrival. A replacement arrives in the place
of the member that it replaces. -/
def changedArrivals (b : Board) (arrived : List TaskId) : MembershipChange → List TaskId
  | .add task => if b.Offers arrived task then arrived ++ [task] else arrived
  | .remove task => arrived.filter (· ≠ task)
  | .replace member replacement =>
    if member ∈ arrived ∧ b.Offers arrived replacement then
      arrived.map fun task => if task = member then replacement else task
    else arrived

/-- The members in the order of their arrival, after a row of changes. -/
def arrivedAfter (history : List (Board × MembershipChange)) : List TaskId :=
  history.foldl (fun arrived call => changedArrivals call.1 arrived call.2) []

/-! ## Placing a slot -/

/-- **What is sorted falls into two parts**: all of at least a priority, and behind them all others. -/
theorem filter_append_filter_of_sorted {α : Type} (rank : α → Int64) (priority : Int64) {xs : List α}
    (hsorted : xs.Pairwise fun a b => rank b ≤ rank a) :
    xs.filter (fun x => priority ≤ rank x) ++ xs.filter (fun x => rank x < priority) = xs := by
  induction xs with
  | nil => rfl
  | cons x rest ih =>
    obtain ⟨hfirst, hrest⟩ := List.pairwise_cons.mp hsorted
    by_cases hle : priority ≤ rank x
    · have hkeeps : ¬rank x < priority := Int64.not_lt.mpr hle
      rw [List.filter_cons_of_pos (by simpa only [decide_eq_true_eq] using hle),
        List.filter_cons_of_neg (by simpa only [decide_eq_true_eq] using hkeeps), List.cons_append, ih hrest]
    · -- nothing behind the first one of a lower priority has a higher one
      have hlow : ∀ y ∈ x :: rest, rank y < priority := by
        intro y hy
        rcases List.mem_cons.mp hy with rfl | hy
        · exact Int64.not_le.mp hle
        · exact Int64.lt_of_le_of_lt (hfirst y hy) (Int64.not_le.mp hle)
      have hahead : (x :: rest).filter (fun y => priority ≤ rank y) = [] := by
        rw [List.filter_eq_nil_iff]
        intro y hy
        simpa only [decide_eq_true_eq, Int64.not_le] using hlow y hy
      have hbehind : (x :: rest).filter (fun y => rank y < priority) = x :: rest := by
        rw [List.filter_eq_self]
        intro y hy
        simpa only [decide_eq_true_eq] using hlow y hy
      rw [hahead, hbehind, List.nil_append]

namespace Slot

variable {slots : List Slot} {arrived : List TaskId}

/-- **A place between two others**: among sorted slots, a new one goes directly behind all of at least its priority
and before all others. -/
theorem place_between (slot : Slot) (hsorted : slots.Pairwise fun a b => b.priority ≤ a.priority) :
    ∃ ahead behind, slots = ahead ++ behind ∧ slot.place slots = ahead ++ slot :: behind ∧
      (∀ other ∈ ahead, slot.priority ≤ other.priority) ∧ ∀ other ∈ behind, other.priority < slot.priority := by
  refine ⟨_, _, (filter_append_filter_of_sorted Slot.priority slot.priority hsorted).symm, rfl, ?_, ?_⟩
  · intro other hother
    simpa only [decide_eq_true_eq] using (List.mem_filter.mp hother).2
  · intro other hother
    simpa only [decide_eq_true_eq] using (List.mem_filter.mp hother).2

/-- Placing a slot leaves the others as they were. -/
theorem place_perm (slot : Slot) (slots : List Slot) : (slot.place slots).Perm (slot :: slots) := by
  have hothers : slots.filter (fun other => other.priority < slot.priority) =
      slots.filter fun other => !decide (slot.priority ≤ other.priority) := by
    apply List.filter_congr
    intro other _
    rw [← decide_not, decide_eq_decide, Int64.not_le]
  unfold place
  rw [hothers]
  exact List.perm_middle.trans ((List.filter_append_perm _ slots).cons slot)

/-- **A slot stands before another**: it is more urgent, or as urgent and its member arrived first. -/
def Before (arrived : List TaskId) (a b : Slot) : Prop :=
  b.priority < a.priority ∨ a.priority = b.priority ∧ [a.task, b.task].Sublist arrived

theorem Before.priority_le {a b : Slot} (h : Before arrived a b) : b.priority ≤ a.priority := by
  rcases h with hlt | ⟨heq, -⟩
  · exact Int64.le_of_lt hlt
  · exact Int64.le_of_eq heq.symm

/-- A new slot stands behind those of its priority, since its member arrives last. -/
theorem pairwise_place (slot : Slot) (h : slots.Pairwise (Before arrived))
    (hmembers : ∀ other ∈ slots, other.task ∈ arrived) :
    (slot.place slots).Pairwise (Before (arrived ++ [slot.task])) := by
  have hold : slots.Pairwise (Before (arrived ++ [slot.task])) := by
    apply h.imp
    rintro a b (hlt | ⟨heq, hbefore⟩)
    · exact .inl hlt
    · exact .inr ⟨heq, hbefore.trans (List.sublist_append_left _ _)⟩
  unfold place
  rw [List.pairwise_append, List.pairwise_cons]
  refine ⟨hold.filter _, ⟨?_, hold.filter _⟩, ?_⟩
  · intro b hb
    left
    simpa only [decide_eq_true_eq] using (List.mem_filter.mp hb).2
  · intro a ha b hb
    obtain ⟨hmem, hle⟩ := List.mem_filter.mp ha
    rw [decide_eq_true_eq] at hle
    rcases List.mem_cons.mp hb with rfl | hb
    · by_cases heq : a.priority = b.priority
      · right
        refine ⟨heq, ?_⟩
        exact (List.singleton_sublist.mpr (hmembers a hmem)).append (List.Sublist.refl [b.task])
      · left
        exact Int64.lt_of_le_of_ne hle (Ne.symm heq)
    · left
      have hlt : b.priority < slot.priority := by simpa only [decide_eq_true_eq] using (List.mem_filter.mp hb).2
      exact Int64.lt_of_lt_of_le hlt hle

end Slot

/-! ## Priorities that do not change -/

/-- The tasks on a board have the given priorities. -/
def Board.Ranks (b : Board) (priority : TaskId → Int64) : Prop :=
  ∀ (t : TaskId) (task : Task), b[t]? = some task → task.priority = priority t

variable {priority : TaskId → Int64} {b : Board} {slots : List Slot}

theorem Board.Ranks.empty : Board.Ranks {} priority := by
  intro t task htask
  rw [getElem?_empty] at htask
  cases htask

theorem Board.Ranks.insert (h : b.Ranks priority) {task : Task} (htask : task.priority = priority task.id) :
    (b.insert task).Ranks priority := by
  intro t task' hfound
  rw [getElem?_insert] at hfound
  split at hfound
  · rename_i hid
    cases hfound
    rw [← hid]
    exact htask
  · exact h t task' hfound

/-- A slot keeps the priority of its member, unless it is given on. -/
theorem ranked_changedSlots (hb : b.Ranks priority) {c : MembershipChange} (hc : c.isReplacement = false)
    (hslots : ∀ slot ∈ slots, slot.priority = priority slot.task) :
    ∀ slot ∈ changedSlots b slots c, slot.priority = priority slot.task := by
  cases c with
  | add t =>
    unfold changedSlots
    dsimp only
    split
    · rename_i task htask
      split
      · exact hslots
      · intro slot hslot
        rw [(Slot.place_perm _ _).mem_iff, List.mem_cons] at hslot
        rcases hslot with rfl | hslot
        · exact hb t task htask
        · exact hslots slot hslot
    · exact hslots
  | remove t =>
    intro slot hslot
    exact hslots slot (List.mem_filter.mp hslot).1
  | replace t r => cases hc

/-- **As long as no slot is given on and no priority changes**, the slots have the priorities of their members. -/
theorem ranked_slotsAfter {history : List (Board × MembershipChange)}
    (hboards : ∀ call ∈ history, call.1.Ranks priority) (hchanges : ∀ call ∈ history, call.2.isReplacement = false) :
    ∀ slot ∈ slotsAfter history, slot.priority = priority slot.task := by
  refine List.foldlRecOn (motive := fun slots : List Slot => ∀ slot ∈ slots, slot.priority = priority slot.task)
    history _ ?_ ?_
  · intro slot hslot
    cases hslot
  · intro slots hslots call hcall
    exact ranked_changedSlots (hboards call hcall) (hchanges call hcall) hslots

end TaskScript
