import TaskScript.Proofs.Id
import TaskScript.Proofs.Scheduler.Membership
import TaskScript.Proofs.Scheduler.Slots

/-!
# `Proofs.Scheduler.Order`: members stand in the order of their slots

A scheduler is asked for changes of membership, one after the other, each time with the board as it is then. It finds
the place of a new entry by going up to the first one that it precedes, and it decides between equals by numbers of
arrival. That makes of its entries what `changedSlots` makes of the list of slots.

`Follows` ties the two together: the entries without their numbers of arrival are the slots, which are sorted, so that
the first place is the only one, and no number of arrival is beyond the next one, so that a new entry precedes none of
its own priority. The numbers stop growing at the largest, which is why they are not said to be different.

## Contents
- `Scheduler.answer`, `Scheduler.changed`, `Scheduler.after`: **histories of changes**.
- `Follows`, `Follows.change`, `follows_after`: **the scheduler follows the slots**.
- `Follows.pairwise_openTasks`: **what there is to do, in its order**.
- `order_follows_slots`: **members stand in the order of their slots**.
-/

namespace TaskScript

/-- The slot of an entry, without its number of arrival. -/
def Entry.slot (e : Entry) : Slot where
  task := e.task
  priority := e.priority

/-- Of two entries, the one that did not arrive earlier precedes only those that are less urgent. -/
theorem Entry.precedes_iff {a b : Entry} (h : b.arrival ≤ a.arrival) :
    a.precedes b = true ↔ b.priority < a.priority := by
  have hlater : ¬a.arrival < b.arrival := UInt64.not_lt.mpr h
  simp [precedes, hlater]

namespace Scheduler

/-! ## Histories of changes -/

/-- The answer to a change of membership. -/
def answer (s : Scheduler) (b : Board) : MembershipChange → Except SchedulingError (Scheduler × Board)
  | .add task => s.add b task
  | .remove task => s.remove b task
  | .replace member replacement => s.replace b member replacement

/-- The scheduler after a change of membership, whether accepted or refused. -/
def changed (s : Scheduler) (b : Board) (c : MembershipChange) : Scheduler :=
  match s.answer b c with
  | .ok (s', _) => s'
  | .error _ => s

/-- A scheduler after a row of changes, each asked for with the board of its time. -/
def after (group : GroupId) (history : List (Board × MembershipChange)) : Scheduler :=
  history.foldl (fun s call => s.changed call.1 call.2) { group }

/-! ## Entries -/

/-- An entry goes to the first place where it precedes the one behind it. -/
theorem insertEntry_append {entry : Entry} {ahead behind : List Entry} (hahead : ∀ e ∈ ahead, ¬entry.precedes e = true)
    (hbehind : ∀ e ∈ behind, entry.precedes e = true) :
    insertEntry entry (ahead ++ behind) = ahead ++ entry :: behind := by
  induction ahead with
  | nil =>
    cases behind with
    | nil => rfl
    | cons e rest => exact if_pos (hbehind e List.mem_cons_self)
  | cons e rest ih =>
    rw [List.cons_append, insertEntry, if_neg (hahead e List.mem_cons_self),
      ih fun e' he' => hahead e' (List.mem_cons_of_mem _ he')]
    rfl

/-- **The first place is the only one**: in a sorted list, up to the first entry that the new one precedes there are
all of at least its priority, and behind it all others. -/
theorem insertEntry_eq {entry : Entry} {entries : List Entry}
    (hsorted : entries.Pairwise fun a b => b.priority ≤ a.priority)
    (harrival : ∀ e ∈ entries, e.arrival ≤ entry.arrival) :
    insertEntry entry entries =
      entries.filter (fun e => entry.priority ≤ e.priority) ++
        entry :: entries.filter fun e => e.priority < entry.priority := by
  have hparts := filter_append_filter_of_sorted Entry.priority entry.priority hsorted
  rw [← insertEntry_append, hparts]
  · intro e he
    obtain ⟨hmem, hle⟩ := List.mem_filter.mp he
    rw [decide_eq_true_eq] at hle
    rw [Entry.precedes_iff (harrival e hmem)]
    exact Int64.not_lt.mpr hle
  · intro e he
    obtain ⟨hmem, hlt⟩ := List.mem_filter.mp he
    rw [decide_eq_true_eq] at hlt
    exact (Entry.precedes_iff (harrival e hmem)).mpr hlt

/-- Taking out the first entry of a task is taking out all of them, since there is no second one. -/
theorem eraseP_eq_filter {entries : List Entry} (hnodup : (entries.map (·.task)).Nodup) (t : TaskId) :
    entries.eraseP (·.task == t) = entries.filter (·.task ≠ t) := by
  induction entries with
  | nil => rfl
  | cons e rest ih =>
    rw [List.map_cons, List.nodup_cons] at hnodup
    by_cases he : e.task = t
    · have hrest : rest.filter (·.task ≠ t) = rest := by
        rw [List.filter_eq_self]
        intro e' he'
        have hne : e'.task ≠ t := fun heq => hnodup.1 (he ▸ heq ▸ List.mem_map_of_mem he')
        simpa using hne
      rw [List.eraseP_cons_of_pos (by simpa using he), List.filter_cons_of_neg (by simpa using he), hrest]
    · simp [he, ih hnodup.2]

/-- **A scheduler follows a list of slots**, whose members arrived in a given order. -/
structure Follows (s : Scheduler) (slots : List Slot) (arrived : List TaskId) : Prop where
  entries : s.entries.map Entry.slot = slots
  ordered : slots.Pairwise (Slot.Before arrived)
  nodup : (slotTasks slots).Nodup
  members : ∀ t, t ∈ arrived ↔ t ∈ slotTasks slots
  arrivals : ∀ e ∈ s.entries, e.arrival ≤ s.nextArrival

variable {s s' : Scheduler} {slots : List Slot} {arrived : List TaskId} {b b' : Board} {t : TaskId}

namespace Follows

theorem taskIds (h : s.Follows slots arrived) : s.taskIds = slotTasks slots := by
  rw [← h.entries, slotTasks, List.map_map]
  rfl

theorem contains_iff (h : s.Follows slots arrived) : s.contains t = true ↔ t ∈ slotTasks slots := by
  rw [Scheduler.contains_iff, h.taskIds]

theorem sorted (h : s.Follows slots arrived) : slots.Pairwise fun a b => b.priority ≤ a.priority :=
  h.ordered.imp Slot.Before.priority_le

theorem entries_sorted (h : s.Follows slots arrived) :
    s.entries.Pairwise fun a b => b.priority ≤ a.priority := by
  have hsorted := h.sorted
  rw [← h.entries, List.pairwise_map] at hsorted
  exact hsorted

theorem offers_iff (h : s.Follows slots arrived) : b.Offers arrived t ↔ b.Offers (slotTasks slots) t := by
  unfold Board.Offers
  rw [h.members]

/-! ### Changes -/

/-- What is refused changes no slots. -/
theorem refused (h : s.Follows slots arrived) {c : MembershipChange} {e : SchedulingError}
    (hrefused : s.answer b c = .error e) : changedSlots b slots c = slots ∧ changedArrivals b arrived c = arrived := by
  cases c with
  | add t =>
    have hno := add_error hrefused
    rw [h.taskIds] at hno
    have hoffers : ¬b.Offers arrived t := by
      rw [h.offers_iff]
      rintro ⟨hboard, hnew⟩
      rcases hno with hmember | hnone
      · exact hnew hmember
      · rw [hnone] at hboard
        exact Bool.false_ne_true hboard
    refine ⟨?_, if_neg hoffers⟩
    unfold changedSlots
    dsimp only
    -- there may be such a task on the board, which is a member then, or none
    split
    · rename_i task htask
      rcases hno with hmember | hnone
      · exact if_pos hmember
      · cases htask.symm.trans hnone
    · rfl
  | remove t =>
    have hno : t ∉ slotTasks slots := by
      rw [← h.taskIds]
      exact remove_error hrefused
    unfold changedSlots changedArrivals
    dsimp only
    rw [List.filter_eq_self, List.filter_eq_self]
    constructor
    · -- a filter that drops nothing: no slot is of the task, which is no member
      intro slot hslot
      rw [decide_eq_true_eq]
      rintro rfl
      exact hno (List.mem_map_of_mem hslot)
    · intro t' ht'
      rw [decide_eq_true_eq]
      rintro rfl
      exact hno ((h.members t').mp ht')
  | replace t r =>
    have hno := replace_error hrefused
    rw [h.taskIds] at hno
    have haccepts : ¬(t ∈ slotTasks slots ∧ b.Offers (slotTasks slots) r) := by
      rintro ⟨hmember, hboard, hnew⟩
      rcases hno with hnomember | hold | hnone
      · exact hnomember hmember
      · exact hnew hold
      · rw [hnone] at hboard
        exact Bool.false_ne_true hboard
    refine ⟨if_neg haccepts, if_neg ?_⟩
    rw [h.members, h.offers_iff]
    exact haccepts

theorem added (h : s.Follows slots arrived) (hadd : s.add b t = .ok (s', b')) :
    s'.Follows (changedSlots b slots (.add t)) (changedArrivals b arrived (.add t)) := by
  unfold Scheduler.add at hadd
  split at hadd
  · cases hadd
  rename_i hnew
  split at hadd
  · cases hadd
  rename_i task htask
  cases hadd
  rw [h.contains_iff] at hnew
  have hslots : changedSlots b slots (.add t) = Slot.place ⟨t, task.priority⟩ slots := by
    simp only [changedSlots, htask, if_neg hnew]
  have harrivals : changedArrivals b arrived (.add t) = arrived ++ [t] := by
    apply if_pos
    rw [h.offers_iff, Board.Offers, htask]
    exact ⟨rfl, hnew⟩
  have harrived : ∀ slot ∈ slots, slot.task ∈ arrived := by
    intro slot hslot
    exact (h.members slot.task).mpr (List.mem_map_of_mem hslot)
  have hperm : (slotTasks (Slot.place ⟨t, task.priority⟩ slots)).Perm (t :: slotTasks slots) :=
    (Slot.place_perm _ slots).map _
  -- the new slot comes behind those of its priority, because it has arrived last
  rw [hslots, harrivals]
  constructor
  · dsimp only
    rw [insertEntry_eq h.entries_sorted h.arrivals, ← h.entries]
    simp only [Slot.place, List.map_append, List.map_cons, List.filter_map]
    rfl
  · exact Slot.pairwise_place ⟨t, task.priority⟩ h.ordered harrived
  · rw [hperm.nodup_iff, List.nodup_cons]
    exact ⟨hnew, h.nodup⟩
  · intro t'
    rw [hperm.mem_iff, List.mem_append, List.mem_singleton, List.mem_cons, h.members, or_comm]
  · intro e he
    rw [(insertEntry_perm _ _).mem_iff, List.mem_cons] at he
    rcases he with rfl | he
    · exact le_successor s.nextArrival
    · exact UInt64.le_trans (h.arrivals e he) (le_successor s.nextArrival)

theorem removed (h : s.Follows slots arrived) (hremove : s.remove b t = .ok (s', b')) :
    s'.Follows (changedSlots b slots (.remove t)) (changedArrivals b arrived (.remove t)) := by
  unfold Scheduler.remove at hremove
  split at hremove
  · cases hremove
    have hids := h.nodup
    rw [← h.taskIds] at hids
    have hentries := eraseP_eq_filter hids t
    unfold changedSlots changedArrivals
    constructor
    · dsimp only
      rw [hentries, ← h.entries, List.filter_map]
      rfl
    · have hkept : (slots.filter (·.task ≠ t)).Pairwise (Slot.Before arrived) := h.ordered.filter _
      refine hkept.imp_of_mem fun {x y} hx hy hbefore => ?_
      -- two slots that stay are in the order they were in: neither of them is the one removed
      rcases hbefore with hlt | ⟨heq, hsub⟩
      · exact .inl hlt
      · right
        have hpair := hsub.filter (· ≠ t)
        rw [List.filter_eq_self.mpr] at hpair
        · exact ⟨heq, hpair⟩
        · intro u hu
          rw [List.mem_cons, List.mem_singleton] at hu
          rcases hu with rfl | rfl
          · exact (List.mem_filter.mp hx).2
          · exact (List.mem_filter.mp hy).2
    · rw [slotTasks_filter]
      exact h.nodup.filter _
    · intro t'
      rw [slotTasks_filter, List.mem_filter, List.mem_filter, h.members]
    · intro e he
      exact h.arrivals e (List.mem_of_mem_eraseP he)
  · cases hremove

theorem replaced (h : s.Follows slots arrived) {r : TaskId} (hreplace : s.replace b t r = .ok (s', b')) :
    s'.Follows (changedSlots b slots (.replace t r)) (changedArrivals b arrived (.replace t r)) := by
  have hreplaced := replaced_of_replace hreplace
  have haccepts : t ∈ slotTasks slots ∧ b.Offers (slotTasks slots) r := by
    rw [← h.taskIds]
    exact ⟨hreplaced.member, hreplaced.onBoard, hreplaced.fresh⟩
  have hslots : changedSlots b slots (.replace t r) =
      slots.map fun slot => { slot with task := if slot.task = t then r else slot.task } :=
    if_pos haccepts
  have harrivals : changedArrivals b arrived (.replace t r) = arrived.map fun x => if x = t then r else x := by
    apply if_pos
    rw [h.members, h.offers_iff]
    exact haccepts
  have htasks : slotTasks (changedSlots b slots (.replace t r)) = s'.taskIds := by
    rw [hslots, hreplaced.members, h.taskIds, slotTasks, slotTasks, List.map_map, List.map_map]
    rfl
  -- the slot keeps its priority and its place, whatever the priority of the replacement is
  have hs' : s' = { s with entries := s.entries.map fun e => if e.task = t then { e with task := r } else e } := by
    unfold Scheduler.replace at hreplace
    split at hreplace
    · cases hreplace
    split at hreplace
    · cases hreplace
    split at hreplace
    · cases hreplace
    · cases hreplace
      rfl
  constructor
  · rw [hs', hslots, ← h.entries, List.map_map, List.map_map]
    apply List.map_congr_left
    intro e _
    simp only [Function.comp_apply, Entry.slot]
    by_cases he : e.task = t
    · simp only [he, if_pos]
    · simp only [he, if_false]
  · rw [hslots, harrivals, List.pairwise_map]
    apply h.ordered.imp
    rintro x y (hlt | ⟨heq, hsub⟩)
    · exact .inl hlt
    · exact .inr ⟨heq, hsub.map fun x => if x = t then r else x⟩
  · rw [htasks]
    apply hreplaced.nodup
    rw [h.taskIds]
    exact h.nodup
  · intro t'
    rw [htasks, harrivals, hreplaced.members, h.taskIds]
    simp only [List.mem_map, h.members]
  · intro e he
    rw [hs'] at he ⊢
    obtain ⟨e', he', rfl⟩ := List.mem_map.mp he
    have harrival := h.arrivals e' he'
    split <;> exact harrival

/-- **One change**: the scheduler still follows the slots, whether the change is accepted or refused. -/
theorem change (h : s.Follows slots arrived) (b : Board) (c : MembershipChange) :
    (s.changed b c).Follows (changedSlots b slots c) (changedArrivals b arrived c) := by
  unfold changed
  cases hanswer : s.answer b c with
  | error e =>
    obtain ⟨hslots, harrivals⟩ := h.refused hanswer
    rw [hslots, harrivals]
    exact h
  | ok result =>
    obtain ⟨s', b'⟩ := result
    cases c with
    | add t => exact h.added hanswer
    | remove t => exact h.removed hanswer
    | replace t r => exact h.replaced hanswer

end Follows

/-- **A row of changes.** -/
theorem follows_after (group : GroupId) (history : List (Board × MembershipChange)) :
    (after group history).Follows (slotsAfter history) (arrivedAfter history) := by
  have hrow : ∀ (history : List (Board × MembershipChange)) (s : Scheduler) (slots : List Slot)
      (arrived : List TaskId), s.Follows slots arrived →
      (history.foldl (fun s call => s.changed call.1 call.2) s).Follows
        (history.foldl (fun slots call => changedSlots call.1 slots call.2) slots)
        (history.foldl (fun arrived call => changedArrivals call.1 arrived call.2) arrived) := by
    intro history
    induction history with
    | nil => exact fun _ _ _ h => h
    | cons call rest ih => exact fun s slots arrived h => ih _ _ _ (h.change call.1 call.2)
  refine hrow history { group } [] [] ⟨rfl, List.Pairwise.nil, List.nodup_nil, fun t => Iff.rfl, ?_⟩
  intro e he
  cases he

/-! ## What there is to do -/

/-- **What there is to do, in its order**: the more urgent tasks first, and those of equal priority in the order of
their arrival. -/
theorem Follows.pairwise_openTasks (h : s.Follows slots arrived) (hnamed : b.Named) {priority : TaskId → Int64}
    (hb : b.Ranks priority) (hslots : ∀ slot ∈ slots, slot.priority = priority slot.task) :
    (s.openTasks b).Pairwise fun t u =>
      u.priority < t.priority ∨ t.priority = u.priority ∧ [t.id, u.id].Sublist arrived := by
  rw [openTasks_eq, h.taskIds, slotTasks, List.filterMap_map]
  apply List.Pairwise.filter
  rw [List.pairwise_filterMap]
  refine h.ordered.imp_of_mem fun {x y} hx hy hbefore => ?_
  intro t ht u hu
  have hpriority : ∀ (slot : Slot) (task : Task), slot ∈ slots → b[slot.task]? = some task →
      task.priority = slot.priority ∧ task.id = slot.task := by
    intro slot task hslot htask
    exact ⟨(hb _ _ htask).trans (hslots slot hslot).symm, hnamed _ _ htask⟩
  obtain ⟨htpriority, htid⟩ := hpriority x t hx ht
  obtain ⟨hupriority, huid⟩ := hpriority y u hy hu
  rw [htpriority, htid, hupriority, huid]
  exact hbefore

/-- **Members stand in the order of their slots.** After any row of changes, accepted or refused, the members are those
of the slots in their order, and none is there twice. A new slot would go between two others, behind all of at least
its priority and before all others, and a change that is refused changes no slots. If no slot was ever given on and no
priority has changed, what there is to do is listed by descending priority, and in the order of arrival among equals:
it is exactly the members on the board that are not completed. -/
theorem order_follows_slots (group : GroupId) (history : List (Board × MembershipChange)) :
    (after group history).taskIds = slotTasks (slotsAfter history) ∧
      (after group history).taskIds.Nodup ∧
      (∀ slot : Slot, ∃ ahead behind, slotsAfter history = ahead ++ behind ∧
        slot.place (slotsAfter history) = ahead ++ slot :: behind ∧
        (∀ other ∈ ahead, slot.priority ≤ other.priority) ∧ ∀ other ∈ behind, other.priority < slot.priority) ∧
      (∀ b c e, (after group history).answer b c = .error e →
        slotsAfter (history ++ [(b, c)]) = slotsAfter history) ∧
      ∀ (priority : TaskId → Int64) (b : Board), b.Named → b.Ranks priority →
        (∀ call ∈ history, call.1.Ranks priority) → (∀ call ∈ history, call.2.isReplacement = false) →
        ((after group history).openTasks b).Pairwise (fun t u =>
          u.priority < t.priority ∨ t.priority = u.priority ∧ [t.id, u.id].Sublist (arrivedAfter history)) ∧
        ((after group history).openTasks b).Nodup ∧
        ∀ task, task ∈ (after group history).openTasks b ↔
          task.id ∈ (after group history).taskIds ∧ b[task.id]? = some task ∧ task.status ≠ .completed := by
  have hfollows := follows_after group history
  have hnodup : (after group history).taskIds.Nodup := by
    rw [hfollows.taskIds]
    exact hfollows.nodup
  refine ⟨hfollows.taskIds, hnodup, fun slot => slot.place_between hfollows.sorted, ?_, ?_⟩
  · intro b c e hrefused
    rw [slotsAfter, List.foldl_append]
    exact (hfollows.refused hrefused).1
  · intro priority b hnamed hb hboards hchanges
    have hslots := ranked_slotsAfter hboards hchanges
    have hordered := hfollows.pairwise_openTasks hnamed hb hslots
    exact ⟨hordered, nodup_openTasks hnodup hnamed, fun task => mem_openTasks_iff hnamed⟩

/-- Tasks are added in the order of their names. Then the first one leaves and comes back, and what is asked for twice
is refused. -/
def idleHistory : List (Board × MembershipChange) :=
  [.add ⟨1⟩, .add ⟨2⟩, .add ⟨3⟩, .remove ⟨1⟩, .remove ⟨1⟩, .add ⟨1⟩, .add ⟨2⟩].map fun c => (idleBoard, c)

/-- The urgent task comes first, and the one that came back comes last. -/
theorem idle_history_in_order :
    (after ⟨1⟩ idleHistory).taskIds = [⟨2⟩, ⟨3⟩, ⟨1⟩] ∧
      ((after ⟨1⟩ idleHistory).openTasks idleBoard).Pairwise fun t u =>
        u.priority < t.priority ∨ t.priority = u.priority ∧ [t.id, u.id].Sublist [⟨2⟩, ⟨3⟩, ⟨1⟩] := by
  have hboard : idleBoard.Ranks fun t => if t = ⟨2⟩ then 9 else 5 :=
    ((Board.Ranks.empty.insert rfl).insert rfl).insert rfl
  have hboards : ∀ call ∈ idleHistory, call.1 = idleBoard := by
    intro call hcall
    obtain ⟨c, -, rfl⟩ := List.mem_map.mp hcall
    rfl
  obtain ⟨htasks, -, -, -, hopen⟩ := order_follows_slots ⟨1⟩ idleHistory
  obtain ⟨hordered, -, -⟩ := hopen _ idleBoard named_idleBoard hboard
    (fun call hcall => by rw [hboards call hcall]; exact hboard) (by decide)
  have harrived : arrivedAfter idleHistory = [⟨2⟩, ⟨3⟩, ⟨1⟩] := by decide +kernel
  rw [harrived] at hordered
  refine ⟨?_, hordered⟩
  rw [htasks]
  decide +kernel

end Scheduler

end TaskScript
