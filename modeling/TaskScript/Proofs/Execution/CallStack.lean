import TaskScript.Proofs.Execution.Stride
import TaskScript.Proofs.Execution.Dispatch
import TaskScript.Proofs.Program.Sealed

/-!
# `Proofs.Execution.CallStack`: where an execution stands

From outside, the position of an execution is its call stack and the progress of its statements. Inside, a
frame also remembers whether its action was requested. The two say the same of every execution that can come
about (`Standing`): the statements under way are those with progress `active`. So the action that an execution
waits for can be read off from outside (`pursuedAction?`), and a turn leaves the execution waiting for an
action exactly if it waited before, or has just requested it (`Standing.turn`).

Programs do not have to come from scripts here: it is enough that they were sealed, which puts a statement
after everything inside it.

## Contents
- `Execution.pursuedAction?`.
- `Frame.underWay`, `Standing`.
- `Goes`, `Standing.goes`: **what a step does to the stack**.
- `Standing.step`, `Standing.turn`: **steps and turns**.
-/

namespace TaskScript

/-- The action of a leaf that is one. -/
def Statement.action? : Statement → Option Action
  | .leaf (.action a) => some a
  | _ => none

/-- **The action that an execution waits for**: the topmost statement of its call stack, if that is an action
with progress `active`. -/
def Execution.pursuedAction? (e : Execution) : Option Action :=
  match e.callStack.getLast? with
  | none => none
  | some id =>
    if e.progress[id]? = some .active then (e.program.statement? id).bind (·.action?) else none

namespace Frame

/-- Whether the statement of a frame is under way: an action is once it was requested, every other statement
is from the start. -/
def underWay : Frame → Bool
  | .action _ started => started
  | _ => true

theorem enter_id (id : StatementId) (st : Option Statement) : (enter id st).id = id := by
  unfold enter
  split <;> rfl

/-- What is entered is under way, but for an action. -/
theorem underWay_enter (id : StatementId) (st : Option Statement) :
    (enter id st).underWay = !(enter id st).isAction := by
  unfold enter
  split <;> rfl

theorem underWay_of_not_isAction {frame : Frame} (h : frame.isAction = false) : frame.underWay = true := by
  cases frame <;> first | rfl | cases h

theorem leftByBreak_append_leaveLoop (frames : List Frame) : leftByBreak frames ++ leaveLoop frames = frames := by
  induction frames with
  | nil => rfl
  | cons frame rest ih =>
    unfold leftByBreak leaveLoop
    split
    · rfl
    · rw [List.cons_append, ih]

end Frame

namespace Execution

open TaskScript.Frame (Suits)

variable {e : Execution} {around : Surroundings} {actor : ActorId} {top : Frame} {rest : List Frame}

theorem getElem?_mark (p : Progress) (ids : List StatementId) (progress : Array Progress) (i : StatementId) :
    (mark p ids progress)[i]? = if i ∈ ids then progress[i]?.map fun _ => p else progress[i]? := by
  unfold mark
  induction ids generalizing progress with
  | nil => rw [if_neg List.not_mem_nil]; rfl
  | cons id ids ih =>
    rw [List.foldl_cons, ih, Array.getElem?_setIfInBounds]
    by_cases hid : id = i
    · subst hid
      rw [if_pos rfl, if_pos List.mem_cons_self]
      by_cases hlt : id < progress.size
      · rw [if_pos hlt, Array.getElem?_eq_getElem hlt]
        split <;> rfl
      · rw [if_neg hlt, Array.getElem?_eq_none (Nat.le_of_not_lt hlt)]
        split <;> rfl
    · rw [if_neg hid]
      simp only [List.mem_cons, Ne.symm hid, false_or]

theorem size_mark (p : Progress) (ids : List StatementId) (progress : Array Progress) :
    (mark p ids progress).size = progress.size := by
  unfold mark
  induction ids generalizing progress with
  | nil => rfl
  | cons id ids ih => rw [List.foldl_cons, ih, Array.size_setIfInBounds]

/-! ## Standing -/

/-- **Where an execution stands** before it is finished: its frames suit their statements, each is of a
statement inside the one below, only the topmost can be an action, and the statements under way are those with
progress `active`. -/
structure Standing (e : Execution) : Prop where
  ordered : e.program.Ordered
  size : e.progress.size = e.program.size
  unfinished : e.finished = false
  steps_pos : 1 ≤ e.maxSteps
  suits : ∀ frame ∈ e.stack, ∃ st, e.program.statement? frame.id = some st ∧ Suits st frame
  descends : e.stack.Pairwise (·.id < ·.id)
  outer : ∀ frame ∈ e.stack.tail, frame.isAction = false
  active_iff : ∀ i : StatementId,
    e.progress[i]? = some .active ↔ ∃ frame ∈ e.stack, frame.id = i ∧ frame.underWay = true

theorem standing_start {job : Job} (h : job.program.Sealed) (limit : UInt32) : (start job limit).Standing where
  ordered := h.ordered
  size := Array.size_replicate
  unfinished := rfl
  steps_pos := Nat.le_max_right _ _
  suits frame hframe := absurd hframe List.not_mem_nil
  descends := .nil
  outer frame hframe := absurd hframe List.not_mem_nil
  active_iff i := by
    constructor
    · intro hactive
      rw [show (start job limit).progress = Array.replicate job.program.size .notStarted from rfl,
        Array.getElem?_replicate] at hactive
      split at hactive <;> cases hactive
    · rintro ⟨frame, hframe, -⟩
      exact absurd hframe List.not_mem_nil

theorem pursuedAction?_nil (h : e.stack = []) : e.pursuedAction? = none := by
  rw [pursuedAction?, callStack, h]
  rfl

theorem pursuedAction?_cons (hstack : e.stack = top :: rest) {st : Statement}
    (hst : e.program.statement? top.id = some st) :
    e.pursuedAction? = if e.progress[top.id]? = some .active then st.action? else none := by
  rw [pursuedAction?, callStack, hstack, List.map_cons, List.reverse_cons, List.getLast?_append]
  dsimp only [List.getLast?_singleton, Option.some_or]
  rw [hst, Option.bind_some]

theorem Standing.started_pursued (h : e.Standing) {id : StatementId} {a : Action}
    (hstack : e.stack = .action id true :: rest) (hst : e.program.statement? id = some (.leaf (.action a))) :
    e.pursuedAction? = some a := by
  have hactive : e.progress[id]? = some .active :=
    (h.active_iff id).mpr ⟨.action id true, hstack ▸ List.mem_cons_self, rfl, rfl⟩
  rw [pursuedAction?_cons hstack hst]
  exact if_pos hactive

/-- An action on top of the stack that was not requested is not under way: else it would be one of a frame
further out. -/
theorem Standing.not_active (h : e.Standing) {id : StatementId} (hstack : e.stack = .action id false :: rest) :
    e.progress[id]? ≠ some .active := by
  intro hactive
  obtain ⟨frame, hframe, hid, hunder⟩ := (h.active_iff id).mp hactive
  have hdescends := h.descends
  rw [hstack] at hframe hdescends
  rcases List.mem_cons.mp hframe with rfl | hframe
  · cases hunder
  · exact absurd ((List.pairwise_cons.mp hdescends).1 frame hframe) (hid ▸ Nat.lt_irrefl id)

/-- An execution waits for no other action than one that it has requested. -/
theorem Standing.pursued_eq_none (h : e.Standing) (hidle : ∀ id rest, e.stack ≠ .action id true :: rest) :
    e.pursuedAction? = none := by
  cases hstack : e.stack with
  | nil => exact pursuedAction?_nil hstack
  | cons top rest =>
    obtain ⟨st, hst, hsuits⟩ := h.suits top (hstack ▸ List.mem_cons_self)
    rw [pursuedAction?_cons hstack hst]
    cases hsuits with
    | @action a id started =>
      cases started with
      | true => exact absurd hstack (hidle id rest)
      | false => exact if_neg (h.not_active hstack)
    | @simple l id hl =>
      cases l with
      | action a => exact absurd rfl (hl a)
      | _ => exact ite_self _
    | _ => exact ite_self _

theorem Standing.exists_started (h : e.Standing) {a : Action} (hpursued : e.pursuedAction? = some a) :
    ∃ id rest, e.stack = .action id true :: rest ∧ e.program.statement? id = some (.leaf (.action a)) := by
  by_cases hidle : ∃ id rest, e.stack = .action id true :: rest
  · obtain ⟨id, rest, hstack⟩ := hidle
    obtain ⟨st, hst, hsuits⟩ := h.suits (.action id true) (hstack ▸ List.mem_cons_self)
    cases hsuits with
    | action =>
      rw [h.started_pursued hstack hst] at hpursued
      cases hpursued
      exact ⟨id, rest, hstack, hst⟩
  · rw [h.pursued_eq_none fun id rest hstack => hidle ⟨id, rest, hstack⟩] at hpursued
    cases hpursued

/-! ## What a step can do -/

/-- **What a step does to the stack**, with `top` on it and `rest` below. -/
inductive Goes (around : Surroundings) (actor : ActorId) (e : Execution) : Frame → List Frame → Step → Prop
  /-- It enters a child, and forgets how far it and what is inside it had got. -/
  | enters {top top' : Frame} {rest child st deed} (forgotten : List StatementId) :
      top.isAction = false → top'.isAction = false → top'.id = top.id →
      e.program.statement? top.id = some st → Suits st top' → child ∈ st.children →
      (∀ i ∈ forgotten, i ≤ child) → deed.bind Deed.request? = none →
      Goes around actor e top rest
        ⟨({ e with stack := top' :: rest, progress := mark .notStarted forgotten e.progress }).enter child,
          deed, true⟩
  /-- It is done with the topmost statement, and maybe with some around it. -/
  | leaves {top : Frame} {left deed} (gone : List Frame) (env : Environment) :
      (top.isAction = true → top.underWay = true ∧ around.isFinished actor = true) →
      deed.bind Deed.request? = none →
      Goes around actor e top (gone ++ left)
        ⟨{ e with env, stack := left, progress := mark .completed ((top :: gone).map (·.id)) e.progress },
          deed, true⟩
  /-- A body is done, and its loop is not. -/
  | repeats {id : StatementId} {rest} :
      Goes around actor e (.whileDo id true) rest ⟨{ e with stack := .whileDo id false :: rest }, none, true⟩
  | requests {id : StatementId} {rest a r} :
      e.program.statement? id = some (.leaf (.action a)) →
      (e.scope around.toWorldView actor).request a = .ok r →
      Goes around actor e (.action id false) rest
        ⟨{ e with
            stack := .action id true :: rest
            progress := e.progress.setIfInBounds id .active
            allowance := 0.0 }, some (.requested id r), false⟩
  /-- It waits for an action, or for time to request one. -/
  | holds {id : StatementId} {started rest allowance} :
      (started = true → around.isFinished actor = false) →
      Goes around actor e (.action id started) rest ⟨{ e with allowance }, none, false⟩

/-- The moves of a step, by what they do to the stack. Progress is forgotten in a body only: a subtree has no later
names than its root. -/
theorem goes_of_stride (hordered : e.program.Ordered) {s : Step} (h : Stride around actor e top rest s) :
    Goes around actor e top rest s := by
  cases h with
  | enters hid htop hleads _ _ hdeed =>
    obtain ⟨st, hst, hsuits, hchild⟩ := hleads.exists_statement
    rw [hid] at hst
    exact .enters [] htop hleads.isAction hid hst hsuits hchild (fun i hi => absurd hi List.not_mem_nil) hdeed
  | loops hst =>
    exact .enters _ rfl rfl rfl hst .whileDo List.mem_cons_self (fun i hi => hordered.le_of_mem_subtree hi) rfl
  | repeats => exact .repeats
  | leaves env htop _ hdeed =>
    exact .leaves [] env (fun haction => absurd (htop.symm.trans haction) Bool.false_ne_true) hdeed
  | @breaks id rest _ =>
    have hleaves : Goes around actor e (.simple id) (Frame.leftByBreak rest ++ Frame.leaveLoop rest) ⟨_, none, true⟩ :=
      .leaves (Frame.leftByBreak rest) e.env Bool.noConfusion rfl
    rw [Frame.leftByBreak_append_leaveLoop] at hleaves
    exact hleaves
  | requests _ hst hrequest => exact .requests hst hrequest
  | @holds id rest _ =>
    have hholds : Goes around actor e (.action id false) rest ⟨{ e with allowance := e.allowance }, none, false⟩ :=
      .holds Bool.noConfusion
    exact hholds
  | awaits hbusy => exact .holds fun _ => hbusy
  | retires hfinished => exact .leaves [] e.env (fun _ => ⟨rfl, hfinished⟩) rfl

/-- **A step does one of these things**, whatever the statement is. -/
theorem Standing.goes (h : e.Standing) (hstack : e.stack = top :: rest) {s : Step}
    (hstep : e.step around actor top = .ok s) : Goes around actor e top rest s := by
  obtain ⟨st, hst, hsuits⟩ := h.suits top (hstack ▸ List.mem_cons_self)
  exact goes_of_stride h.ordered (stride hst hsuits hstack hstep)

/-- A turn is only given back with an action on top. -/
theorem Standing.ne_nil_of_yields (h : e.Standing) (hstack : e.stack = top :: rest) {s : Step}
    (hstep : e.step around actor top = .ok s) (hgo : s.goesOn = false) : s.execution.stack ≠ [] := by
  have hgoes := h.goes hstack hstep
  cases hgoes with
  | requests _ _ => exact List.cons_ne_nil _ _
  | holds _ => exact hstack ▸ List.cons_ne_nil _ _
  | enters => cases hgo
  | leaves => cases hgo
  | repeats => cases hgo

/-! ## Moves -/

/-- The memory of the topmost statement changes, and it goes on. -/
theorem Standing.replaceTop (h : e.Standing) (hstack : e.stack = top :: rest) (top' : Frame) {st : Statement}
    (htop : top.isAction = false) (htop' : top'.isAction = false) (hid : top'.id = top.id)
    (hst : e.program.statement? top.id = some st) (hsuits : Suits st top') :
    Standing { e with stack := top' :: rest } where
  ordered := h.ordered
  size := h.size
  unfinished := h.unfinished
  steps_pos := h.steps_pos
  suits frame hframe := by
    rcases List.mem_cons.mp hframe with rfl | hframe
    · exact ⟨st, hid ▸ hst, hsuits⟩
    · exact h.suits frame (hstack ▸ List.mem_cons_of_mem _ hframe)
  descends := by
    have hdescends := h.descends
    rw [hstack, List.pairwise_cons] at hdescends
    exact List.pairwise_cons.mpr ⟨hid ▸ hdescends.1, hdescends.2⟩
  outer := by
    have houter := h.outer
    rw [hstack] at houter
    exact houter
  active_iff i := by
    rw [h.active_iff i, hstack, List.exists_mem_cons_iff, List.exists_mem_cons_iff, hid,
      Frame.underWay_of_not_isAction htop, Frame.underWay_of_not_isAction htop']

/-- Progress is forgotten of statements inside all those that are run. -/
theorem Standing.forget (h : e.Standing) (ids : List StatementId)
    (hinside : ∀ i ∈ ids, ∀ frame ∈ e.stack, i < frame.id) :
    Standing { e with progress := mark .notStarted ids e.progress } where
  ordered := h.ordered
  size := (size_mark _ _ _).trans h.size
  unfinished := h.unfinished
  steps_pos := h.steps_pos
  suits := h.suits
  descends := h.descends
  outer := h.outer
  active_iff i := by
    rw [getElem?_mark]
    split
    · rename_i hi
      constructor
      · intro hactive
        obtain ⟨_, -, heq⟩ := Option.map_eq_some_iff.mp hactive
        cases heq
      · rintro ⟨frame, hframe, rfl, -⟩
        exact absurd (hinside _ hi frame hframe) (Nat.lt_irrefl _)
    · exact h.active_iff i

/-- A statement inside all those that are run is entered. -/
theorem Standing.enter (h : e.Standing) (child : StatementId) (hlt : child < e.program.size)
    (hinside : ∀ frame ∈ e.stack, child < frame.id ∧ frame.isAction = false) : (e.enter child).Standing := by
  obtain ⟨st, hst⟩ := Program.statement?_of_lt hlt
  rw [enter_eq, hst]
  have hid := Frame.enter_id child (some st)
  have hunder := Frame.underWay_enter child (some st)
  have hsuits := Frame.suits_enter child st
  generalize Frame.enter child (some st) = frame at hid hunder hsuits
  refine ⟨h.ordered, ?_, h.unfinished, h.steps_pos, ?_, ?_, ?_, ?_⟩
  · dsimp only
    split
    · exact h.size
    · exact Array.size_setIfInBounds.trans h.size
  · intro f hf
    rcases List.mem_cons.mp hf with rfl | hf
    · exact ⟨st, hid ▸ hst, hsuits⟩
    · exact h.suits f hf
  · exact List.pairwise_cons.mpr ⟨fun f hf => hid ▸ (hinside f hf).1, h.descends⟩
  · exact fun f hf => (hinside f hf).2
  · intro i
    dsimp only
    rw [List.exists_mem_cons_iff, ← h.active_iff i, hid, hunder]
    cases hact : frame.isAction with
    | true => simp
    | false =>
      -- only the new statement becomes active
      rw [if_neg Bool.false_ne_true, Array.getElem?_setIfInBounds, h.size, if_pos hlt]
      by_cases hchild : child = i
      · rw [if_pos hchild]
        exact iff_of_true rfl (.inl ⟨hchild, rfl⟩)
      · rw [if_neg hchild]
        simp [hchild]

/-- The innermost statements are done with. -/
theorem Standing.leave (h : e.Standing) (gone left : List Frame) (hstack : e.stack = gone ++ left)
    (env : Environment) :
    Standing { e with env, stack := left, progress := mark .completed (gone.map (·.id)) e.progress } where
  ordered := h.ordered
  size := (size_mark _ _ _).trans h.size
  unfinished := h.unfinished
  steps_pos := h.steps_pos
  suits frame hframe := h.suits frame (hstack ▸ List.mem_append_right _ hframe)
  descends := (List.pairwise_append.mp (hstack ▸ h.descends)).2.1
  outer frame hframe := by
    refine h.outer frame ?_
    rw [hstack]
    cases gone with
    | nil => exact hframe
    | cons top gone => exact List.mem_append_right _ (List.mem_of_mem_tail hframe)
  active_iff i := by
    have hapart := (List.pairwise_append.mp (hstack ▸ h.descends)).2.2
    rw [getElem?_mark]
    split
    · rename_i hi
      obtain ⟨f, hf, rfl⟩ := List.mem_map.mp hi
      constructor
      · intro hactive
        obtain ⟨_, -, heq⟩ := Option.map_eq_some_iff.mp hactive
        cases heq
      · rintro ⟨frame, hframe, hid, -⟩
        exact absurd (hapart f hf frame hframe) (hid ▸ Nat.lt_irrefl _)
    · rename_i hi
      rw [h.active_iff i, hstack]
      constructor
      · rintro ⟨frame, hframe, hid, hunder⟩
        rcases List.mem_append.mp hframe with hgone | hleft
        · exact absurd (List.mem_map.mpr ⟨frame, hgone, hid⟩) hi
        · exact ⟨frame, hleft, hid, hunder⟩
      · rintro ⟨frame, hframe, hid, hunder⟩
        exact ⟨frame, List.mem_append_right _ hframe, hid, hunder⟩

/-- The action on top of the stack is requested. -/
theorem Standing.request (h : e.Standing) {id : StatementId} (hstack : e.stack = .action id false :: rest)
    (allowance : Float) :
    Standing
      { e with
        stack := .action id true :: rest
        progress := e.progress.setIfInBounds id .active
        allowance } := by
  obtain ⟨st, hst, hsuits⟩ := h.suits (.action id false) (hstack ▸ List.mem_cons_self)
  have hlt := Program.lt_of_statement? hst
  have hdescends := h.descends
  have houter := h.outer
  rw [hstack] at hdescends houter
  refine ⟨h.ordered, Array.size_setIfInBounds.trans h.size, h.unfinished, h.steps_pos, ?_, ?_, houter, ?_⟩
  · intro frame hframe
    rcases List.mem_cons.mp hframe with rfl | hframe
    · cases hsuits with
      | action => exact ⟨_, hst, .action⟩
    · exact h.suits frame (hstack ▸ List.mem_cons_of_mem _ hframe)
  · exact List.pairwise_cons.mpr (List.pairwise_cons.mp hdescends)
  · intro i
    have hiff := h.active_iff i
    rw [hstack, List.exists_mem_cons_iff] at hiff
    dsimp only
    rw [List.exists_mem_cons_iff, Array.getElem?_setIfInBounds, h.size,
      if_pos (show id < e.program.size from hlt)]
    by_cases hid : id = i
    · rw [if_pos hid]
      exact iff_of_true rfl (.inl ⟨hid, rfl⟩)
    · rw [if_neg hid, hiff]
      simp [Frame.id, hid]

/-! ## Steps and turns -/

/-- **A step leaves an execution standing**, and one after which the turn goes on has requested nothing and
waits for nothing. -/
theorem Standing.step (h : e.Standing) (hstack : e.stack = top :: rest) {s : Step}
    (hgoes : Goes around actor e top rest s) :
    s.execution.Standing ∧
      (s.goesOn = true → s.execution.pursuedAction? = none ∧ s.deed.bind Deed.request? = none) := by
  cases hgoes with
  | @enters _ top' _ child st deed forgotten htop htop' hid hst hsuits hchild hforgotten hdeed =>
    have hdescends := h.descends
    rw [hstack, List.pairwise_cons] at hdescends
    have hlt := h.ordered.child_lt hst hchild
    have hinside : ∀ frame ∈ e.stack, child < frame.id := by
      intro frame hframe
      rw [hstack] at hframe
      rcases List.mem_cons.mp hframe with rfl | hframe
      · exact hlt
      · exact Nat.lt_trans hlt (hdescends.1 frame hframe)
    have hforgot := h.forget forgotten fun i hi frame hframe =>
      Nat.lt_of_le_of_lt (hforgotten i hi) (hinside frame hframe)
    have hmoved := hforgot.replaceTop hstack top' htop htop' hid hst hsuits
    have hentered := hmoved.enter child (Nat.lt_trans hlt (Program.lt_of_statement? hst)) ?_
    · refine ⟨hentered, fun _ => ⟨hentered.pursued_eq_none fun id rest hstack' => ?_, hdeed⟩⟩
      -- an action that is entered was not requested before
      rw [enter_eq] at hstack'
      have hstarted := (List.cons.inj hstack').1
      unfold Frame.enter at hstarted
      split at hstarted <;> cases hstarted
    · intro frame hframe
      rcases List.mem_cons.mp hframe with rfl | hframe
      · exact ⟨hid ▸ hlt, htop'⟩
      · refine ⟨hinside frame (hstack ▸ List.mem_cons_of_mem _ hframe), h.outer frame ?_⟩
        rw [hstack]
        exact hframe
  | @leaves _ left deed gone env _ hdeed =>
    have hleft := h.leave (top :: gone) left hstack env
    refine ⟨hleft, fun _ => ⟨hleft.pursued_eq_none fun id rest hstack' => ?_, hdeed⟩⟩
    -- only the topmost statement could be an action
    have hin : Frame.action id true ∈ e.stack.tail := by
      rw [hstack, List.tail_cons, show left = _ from hstack']
      exact List.mem_append_right _ List.mem_cons_self
    cases h.outer _ hin
  | @repeats id rest =>
    obtain ⟨st, hst, hsuits⟩ := h.suits (.whileDo id true) (hstack ▸ List.mem_cons_self)
    cases hsuits with
    | whileDo =>
      have hmoved := h.replaceTop hstack (.whileDo id false) rfl rfl rfl hst .whileDo
      refine ⟨hmoved, fun _ => ⟨hmoved.pursued_eq_none fun id' rest' hstack' => ?_, rfl⟩⟩
      cases (List.cons.inj hstack').1
  | requests _ _ => exact ⟨h.request hstack 0.0, Bool.noConfusion⟩
  | holds _ => exact ⟨{ h with }, Bool.noConfusion⟩

/-- **How a turn ends that finds nothing to wait for**, or finds it finished: without a request, and not
waiting for an action if it is to go on; or waiting for the one action that it has requested. -/
inductive Ends (around : Surroundings) (actor : ActorId) :
    Execution → List Request → Except Fault Outcome → Prop
  | rests {e r} : (r = .ok .suspended → e.Standing ∧ e.pursuedAction? = none) → Ends around actor e [] r
  | asks {e a request} (scope : Scope) :
      scope.self = actor → scope.request a = .ok request → e.Standing → e.pursuedAction? = some a →
      Ends around actor e [request] (.ok .suspended)

theorem Standing.turns {n : Nat} {ds : List Dispatch} {e' : Execution} {r : Except Fault Outcome}
    (hturns : Turns around actor n e ds e' r) (h : e.Standing)
    (hfree : e.pursuedAction? = none ∨ 0 < n ∧ around.isFinished actor = true) :
    Ends around actor e' ((ds.filterMap (·.step.deed)).filterMap Deed.request?) r := by
  induction hturns with
  | completed _ => exact .rests fun hr => by cases hr
  | exhausted _ => exact .rests fun _ => ⟨h, hfree.resolve_right fun hn => Nat.lt_irrefl 0 hn.1⟩
  | failed _ _ => exact .rests fun hr => by cases hr
  | goesOn hstack hstep hgo _ ih =>
    obtain ⟨hnext, hquiet⟩ := h.step hstack (h.goes hstack hstep)
    obtain ⟨hnone, hdeed⟩ := hquiet hgo
    have hrest := ih hnext (.inl hnone)
    rw [List.filterMap_filterMap] at hrest ⊢
    rw [List.filterMap_cons, hdeed]
    exact hrest
  | @yielded n e top rest s hstack hstep hgo =>
    have hgoes := h.goes hstack hstep
    have hnext := (h.step hstack hgoes).1
    cases hgoes with
    | @requests id rest a req hst hreq =>
      exact .asks (e.scope around.toWorldView actor) rfl hreq hnext (hnext.started_pursued rfl hst)
    | @holds id started rest allowance hwaits =>
      refine .rests fun _ => ⟨hnext, hnext.pursued_eq_none fun id' rest' hstack' => ?_⟩
      -- an action that was requested would hold the turn, but there is none, or it is finished
      cases hstack.symm.trans hstack'
      obtain ⟨st, hst, hsuits⟩ := h.suits (.action id true) (hstack ▸ List.mem_cons_self)
      cases hsuits with
      | action =>
        rcases hfree with hnone | ⟨-, hfinished⟩
        · rw [h.started_pursued hstack hst] at hnone
          cases hnone
        · exact absurd ((hwaits rfl).symm.trans hfinished) Bool.false_ne_true
    | enters => cases hgo
    | leaves => cases hgo
    | repeats => cases hgo

theorem Standing.wake (h : e.Standing) (dt : Float) :
    (e.wake dt).Standing ∧ (e.wake dt).pursuedAction? = e.pursuedAction? := by
  have hgiven : Standing { e with allowance := if 0.0 < dt then dt else 0.0 } := { h with }
  unfold Execution.wake
  dsimp only
  split
  · rename_i hempty
    have hstack : e.stack = [] := List.isEmpty_iff.mp hempty
    have hentered := hgiven.enter e.program.root h.ordered.root fun frame hframe => by
      rw [show Execution.stack { e with allowance := _ } = [] from hstack] at hframe
      cases hframe
    refine ⟨hentered, ?_⟩
    rw [pursuedAction?_nil hstack]
    refine hentered.pursued_eq_none fun id rest hstack' => ?_
    rw [enter_eq] at hstack'
    have hstarted := (List.cons.inj hstack').1
    unfold Frame.enter at hstarted
    split at hstarted <;> cases hstarted
  · exact ⟨hgiven, rfl⟩

/-- **A turn**: an execution that waits for an action goes on waiting as long as the actor has not finished,
and any other turn ends as `Ends` says. -/
theorem Standing.turn (h : e.Standing) (around : Surroundings) (actor : ActorId) (dt : Float) :
    (e.pursuedAction?.isSome = true ∧ around.isFinished actor = false ∧
        e.turn around actor dt = ⟨{ e with allowance := 0.0 }, [], .ok .suspended⟩) ∨
      (e.pursuedAction? = none ∨ around.isFinished actor = true) ∧
        Ends around actor (e.turn around actor dt).execution (e.turn around actor dt).requests
          (e.turn around actor dt).result := by
  obtain ⟨hwoken, hsame⟩ := h.wake dt
  rw [turn_eq_steps dt h.unfinished]
  cases hpursued : e.pursuedAction? with
  | none =>
    right
    rw [Turn.requests, deeds_steps]
    exact ⟨.inl rfl, hwoken.turns (turns_steps _ _ _ _ []) (.inl (hsame.trans hpursued))⟩
  | some a =>
    cases hfinished : around.isFinished actor with
    | true =>
      right
      rw [Turn.requests, deeds_steps]
      exact ⟨.inr rfl, hwoken.turns (turns_steps _ _ _ _ []) (.inr ⟨hwoken.steps_pos, hfinished⟩)⟩
    | false =>
      left
      obtain ⟨id, rest, hstack, hst⟩ := h.exists_started hpursued
      -- one step asks for the action that was started, finds it unfinished, and yields
      obtain ⟨n, hn⟩ : ∃ n, e.maxSteps = n + 1 := Nat.exists_eq_add_of_le' h.steps_pos
      have hwake : e.wake dt = { e with allowance := if 0.0 < dt then dt else 0.0 } := by
        rw [Execution.wake, hstack]
        rfl
      have hstack' : (e.wake dt).stack = .action id true :: rest := by rw [hwake]; exact hstack
      have hst' : (e.wake dt).program.statement? id = some (.leaf (.action a)) := by rw [hwake]; exact hst
      have hsteps : (e.wake dt).maxSteps = n + 1 := by rw [hwake]; exact hn
      refine ⟨rfl, rfl, ?_⟩
      rw [hsteps, steps_succ n [] hstack', step_action_started hst',
        if_neg (by rw [hfinished]; exact Bool.false_ne_true), hwake]
      rfl

end Execution

end TaskScript
