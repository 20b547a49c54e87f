import TaskScript.Proofs.Execution.Path

/-!
# `Proofs.Execution.Discipline`: progress keeps to the order of the program

How far a statement has got is noted in one table for all statements, whether they are being run, were run in an earlier
iteration of a loop, or are never reached. Here is what the table says of the statements around the one being run
(`Execution.InOrder`): what a sequence has passed is completed, what lies ahead of it has not been started, and of an `if`
one branch is run at most, the one that its condition has chosen.

`Untouched` says what lies ahead. What lies behind is a matter of each frame and the one on top of it: the children that
a frame has entered are completed, all but the one that is above (`Frame.Keeps`). So the invariant is a recursion down the
stack (`Kept`), and a step changes it at the top only: whatever is marked lies within the child that a frame below
leads to (`Kept.below`).

## Contents
- `lastDecision`, `Program.branch?`: **which branch was taken**.
- `Frame.Keeps`, `Kept`, `Kept.below`, `Kept.leave`: **what lies behind the frames**.
- `Paced`, `Rooted.paced_step`, `Rooted.paced_turns`, `Resting.paced_after`: **steps, turns and runs**.
- `InOrder`, `StartsAnew`, `progress_is_in_order`.
-/

namespace TaskScript

open TaskScript.Frame (Suits Leads)
open TaskScript.Execution (Path mark getElem?_mark)

variable {p : Program} {past past' : List Deed} {progress progress' : Array Progress} {id child : StatementId}
  {above : Option StatementId} {top : Frame} {rest : List Frame}

/-! ## Branches -/

/-- What was decided for a statement. -/
def Deed.decision? (id : StatementId) : Deed → Option Bool
  | .decided i holds => if i = id then some holds else none
  | _ => none

/-- What was decided last for a statement. -/
def lastDecision (past : List Deed) (id : StatementId) : Option Bool :=
  (past.filterMap (·.decision? id)).getLast?

theorem lastDecision_append {more : List Deed} (h : ∀ deed ∈ more, deed.decision? id = none) :
    lastDecision (past ++ more) id = lastDecision past id := by
  rw [lastDecision, List.filterMap_append, List.filterMap_eq_nil_iff.mpr h, List.append_nil]
  rfl

theorem lastDecision_decided (past : List Deed) (id : StatementId) (holds : Bool) :
    lastDecision (past ++ [.decided id holds]) id = some holds := by
  simp [lastDecision, Deed.decision?]

/-- The branch that an `if` takes, if its condition holds or does not. -/
def Program.branch? (p : Program) (id : StatementId) (holds : Bool) : Option StatementId :=
  match p.statement? id with
  | some (.ifThen _ thenId elseId) => if holds then some thenId else elseId
  | _ => none

theorem Program.branch?_eq {condition : Expr} {thenId : StatementId} {elseId : Option StatementId}
    (h : p.statement? id = some (.ifThen condition thenId elseId)) (holds : Bool) :
    p.branch? id holds = if holds then some thenId else elseId := by
  rw [branch?, h]

/-- What is listed below a child is what lies within it. -/
theorem Program.Sealed.mem_subtree_child_iff (h : p.Sealed) (hchild : child ∈ p.childrenOf id) {x : StatementId} :
    x ∈ p.subtree child ↔ p.Within x child := by
  obtain ⟨st, hst, -⟩ := Program.exists_of_mem_childrenOf hchild
  have hlt := Nat.lt_trans (h.ordered.lt_of_mem_childrenOf hchild) (Program.lt_of_statement? hst)
  exact h.mem_subtree_iff (Nat.le_of_lt hlt)

/-! ## Behind the frames -/

/-- **What lies behind a frame**, with a given statement above it, or none: the children that it has entered are completed,
all but the one above. An `if` that was decided has entered the branch that was chosen, and has not touched the other. -/
def Frame.Keeps (p : Program) (past : List Deed) (progress : Array Progress) (above : Option StatementId) : Frame → Prop
  | .sequence id next =>
    next ≤ (p.childrenOf id).length ∧
      ∀ c ∈ (p.childrenOf id).take next, above = some c ∨ progress[c]? = some .completed
  | .ifThen id true =>
    ∃ holds c, lastDecision past id = some holds ∧ p.branch? id holds = some c ∧
      (above = some c ∨ above = none ∧ progress[c]? = some .completed) ∧
      ∀ c' ∈ p.childrenOf id, c' ≠ c → ∀ x, p.Within x c' → progress[x]? = some .notStarted
  | _ => True

/-- **What lies behind all frames of a stack**, with a given statement above the top, or none. -/
def Kept (p : Program) (past : List Deed) (progress : Array Progress) : Option StatementId → List Frame → Prop
  | _, [] => True
  | above, frame :: rest => frame.Keeps p past progress above ∧ Kept p past progress (some frame.id) rest

/-- A statement that was just entered has nothing behind it. -/
theorem Frame.keeps_enter (id : StatementId) (st : Option Statement) : (enter id st).Keeps p past progress above := by
  unfold enter
  split
  · exact ⟨Nat.zero_le _, List.forall_mem_nil _⟩
  all_goals trivial

/-- **Changes within the child above a frame** do not matter to what lies behind, as long as the child is above, or is left
completed. -/
theorem Frame.Keeps.change (htree : p.Sealed) {outer : Frame} (hleads : Leads p outer child)
    (h : outer.Keeps p past progress (some child))
    (hprogress : ∀ x, ¬ p.Within x child → progress'[x]? = progress[x]?)
    (hpast : lastDecision past' outer.id = lastDecision past outer.id)
    (habove : above = some child ∨ above = none ∧ progress'[child]? = some .completed) :
    outer.Keeps p past' progress' above := by
  have hchild := hleads.mem_childrenOf
  cases outer with
  | sequence id next =>
    obtain ⟨hle, hentered⟩ := h
    refine ⟨hle, fun c hc => ?_⟩
    by_cases heq : c = child
    · rw [heq]
      exact habove.imp_right And.right
    · rcases hentered c hc with hsome | hcompleted
      · exact absurd (Option.some.inj hsome).symm heq
      · right
        rw [hprogress c fun hwithin => heq (htree.eq_of_within (List.mem_of_mem_take hc) hchild (p.within_self c) hwithin)]
        exact hcompleted
  | ifThen id entered =>
    cases entered with
    | false => trivial
    | true =>
      obtain ⟨holds, c, hdecision, hbranch, hsome | ⟨hnone, -⟩, hothers⟩ := h
      · obtain rfl := Option.some.inj hsome
        refine ⟨holds, child, hpast.trans hdecision, hbranch, habove, fun c' hc' hne x hx => ?_⟩
        rw [hprogress x fun hwithin => hne (htree.eq_of_within hc' hchild hx hwithin)]
        exact hothers c' hc' hne x hx
      · cases hnone
  | whileDo | action | simple => trivial

/-- **Changes within the statement on top of some frames** do not matter to what lies behind them, as long as the statement
is on top, or is left completed. -/
theorem Kept.below (htree : p.Sealed) (hpath : Path p (top :: rest)) (h : Kept p past progress (some top.id) rest)
    (hprogress : ∀ x, ¬ p.Within x top.id → progress'[x]? = progress[x]?)
    (hpast : ∀ frame ∈ rest, lastDecision past' frame.id = lastDecision past frame.id)
    (habove : above = some top.id ∨ above = none ∧ progress'[top.id]? = some .completed) :
    Kept p past' progress' above rest := by
  -- induction on the frames: what lies within the top lies within each statement below it
  induction rest generalizing top above with
  | nil => trivial
  | cons outer rest ih =>
    have hleads : Leads p outer top.id := (List.isChain_cons_cons.mp hpath.leads).1
    have houter : Path p ([top] ++ outer :: rest) := hpath
    obtain ⟨hkeeps, hrest⟩ := h
    refine ⟨hkeeps.change htree hleads hprogress (hpast outer List.mem_cons_self) habove, ?_⟩
    refine ih houter.leave hrest (fun x hx => hprogress x fun hwithin => hx ?_) (fun frame hframe => ?_) (.inl rfl)
    · exact htree.within_child hleads.mem_childrenOf hwithin
    · exact hpast frame (List.mem_cons_of_mem _ hframe)

theorem Kept.drop {gone left : List Frame} {frame : Frame} (h : Kept p past progress above (gone ++ frame :: left)) :
    Kept p past progress (some frame.id) left := by
  induction gone generalizing above with
  | nil => exact h.2
  | cons _ gone ih => exact ih h.2

/-- **Frames that are left are completed**, and what lies behind those below stays as it is. -/
theorem Kept.leave (htree : p.Sealed) {gone left : List Frame} (hgone : gone ≠ []) (hpath : Path p (gone ++ left))
    (h : Kept p past progress none (gone ++ left)) (hsize : ∀ frame ∈ gone, frame.id < progress.size)
    (hpast : ∀ frame ∈ left, lastDecision past' frame.id = lastDecision past frame.id) :
    Kept p past' (mark .completed (gone.map (·.id)) progress) none left := by
  obtain ⟨inner, outermost, rfl⟩ : ∃ inner outermost, gone = inner ++ [outermost] :=
    ⟨_, _, (List.dropLast_append_getLast hgone).symm⟩
  rw [List.append_assoc, List.singleton_append] at hpath h
  -- all frames that are left are within the outermost of them
  have hwithin : ∀ i ∈ (inner ++ [outermost]).map (·.id), p.Within i outermost.id := by
    intro i hi
    obtain ⟨frame, hframe, rfl⟩ := List.mem_map.mp hi
    rcases List.mem_append.mp hframe with hframe | hframe
    · have hapart := (List.pairwise_append.mp (hpath.pairwise htree)).2.2
      exact (hapart frame hframe outermost List.mem_cons_self).1
    · rw [List.mem_singleton.mp hframe]
      exact p.within_self outermost.id
  refine h.drop.below htree hpath.leave (fun x hx => ?_) hpast (.inr ⟨rfl, ?_⟩)
  · rw [getElem?_mark, if_neg fun hmem => hx (hwithin x hmem)]
  · have hmem : outermost ∈ inner ++ [outermost] := List.mem_append_right _ List.mem_cons_self
    rw [getElem?_mark, if_pos (List.mem_map_of_mem hmem), Array.getElem?_eq_getElem (hsize outermost hmem)]
    rfl

namespace Execution

variable {around : Surroundings} {actor : ActorId} {e : Execution} {s : Step}

/-! ## Steps -/

/-- **Progress so far**: what lies behind the frames, and that what cannot be reached from the root was not started. -/
structure Paced (e : Execution) (past : List Deed) : Prop where
  kept : Kept e.program past e.progress none e.stack
  unreached : ∀ x < e.program.size, ¬ e.program.Within x e.program.root → e.progress[x]? = some .notStarted

/-- A step decides for the statement on top only. -/
theorem step_decides (frame : Frame) :
    EndsIn (fun _ => True) (fun s : Step => ∀ i holds, s.deed = some (.decided i holds) → i = frame.id)
      (e.step around actor frame) := by
  have hany : ∀ {α : Type} (x : Except Fault α), EndsIn (fun _ => True) (fun _ => True) x := by
    intro α x
    cases x <;> trivial
  unfold step
  dsimp only
  -- a step that decides has evaluated a condition, that of an `if` or of a loop
  split
  · split <;> exact fun _ _ => nofun
  · refine (hany _).bind fun holds _ => ?_
    split <;> exact fun _ _ hdeed => by cases hdeed; rfl
  · refine (hany _).bind fun holds _ => ?_
    split <;> exact fun _ _ hdeed => by cases hdeed; rfl
  · exact fun _ _ => nofun
  · split
    · exact (hany _).bind fun _ _ => fun _ _ => nofun
    · exact fun _ _ => nofun
  · split <;> exact fun _ _ => nofun
  · exact (hany _).bind fun _ _ => fun _ _ => nofun
  · exact (hany _).bind fun _ _ => fun _ _ => nofun
  · exact fun _ _ => nofun
  · exact fun _ _ => nofun

/-- The decisions for the statements below the top stay as they are. -/
theorem Standing.lastDecision_eq (h : e.Standing) (hstack : e.stack = top :: rest)
    (hstep : e.step around actor top = .ok s) {frame : Frame} (hframe : frame ∈ rest) :
    lastDecision (past ++ s.deed.toList) frame.id = lastDecision past frame.id := by
  have hdescends := h.descends
  rw [hstack] at hdescends
  have hlt := (List.pairwise_cons.mp hdescends).1 frame hframe
  refine lastDecision_append fun deed hdeed => ?_
  have hdecides := (step_decides top).of_ok hstep
  cases deed with
  | decided i holds =>
    have htop := hdecides i holds (Option.mem_toList.mp hdeed)
    exact if_neg (htop ▸ Nat.ne_of_lt hlt)
  | _ => rfl

/-- To enter a statement changes the progress of no other. -/
theorem exists_enter_eq (e : Execution) (child : StatementId) :
    ∃ progress, (∀ x ≠ child, progress[x]? = e.progress[x]?) ∧
      e.enter child = { e with stack := Frame.enter child (e.program.statement? child) :: e.stack, progress } := by
  refine ⟨_, fun x hx => ?_, enter_eq child⟩
  split
  · rfl
  · exact Array.getElem?_setIfInBounds_ne (Ne.symm hx)

/-- **A child is entered** from the frame on top, after changes within the statement of the frame. -/
theorem Rooted.paced_enter (h : e.Rooted) (hpaced : e.Paced past) (hstack : e.stack = top :: rest) {top' : Frame}
    (hid : top'.id = top.id) (hchild : child ∈ e.program.childrenOf top.id)
    (hprogress : ∀ x, ¬ e.program.Within x top.id → progress[x]? = e.progress[x]?)
    (hpast : ∀ frame ∈ rest, lastDecision past' frame.id = lastDecision past frame.id)
    (hkeeps : ∀ progress', (∀ x ≠ child, progress'[x]? = progress[x]?) →
      top'.Keeps e.program past' progress' (some child)) :
    (Execution.enter { e with stack := top' :: rest, progress } child).Paced past' := by
  have hpath := h.path
  have hkept := hpaced.kept
  rw [hstack] at hpath hkept
  obtain ⟨progress', hothers, hentered⟩ := exists_enter_eq { e with stack := top' :: rest, progress } child
  have hinside : e.program.Within child top.id := h.tree.within_child hchild (e.program.within_self child)
  have hchange : ∀ x, ¬ e.program.Within x top.id → progress'[x]? = e.progress[x]? := by
    intro x hx
    have hne : x ≠ child := by
      rintro rfl
      exact hx hinside
    exact (hothers x hne).trans (hprogress x hx)
  rw [hentered]
  constructor
  · refine ⟨Frame.keeps_enter _ _, ?_, ?_⟩
    · rw [Frame.enter_id]
      exact hkeeps progress' hothers
    · rw [hid]
      exact hkept.2.below h.tree hpath hchange hpast (.inl rfl)
  · intro x hx hout
    exact (hchange x fun hwithin => hout (hwithin.trans (hpath.within_root h.tree))).trans (hpaced.unreached x hx hout)

/-- **Frames are left**, and what they were of is completed. -/
theorem Rooted.paced_leave (h : e.Rooted) (hpaced : e.Paced past) (gone : List Frame) {left : List Frame} (hgone : gone ≠ [])
    (hstack : e.stack = gone ++ left) (env : Environment)
    (hpast : ∀ frame ∈ left, lastDecision past' frame.id = lastDecision past frame.id) :
    Paced { e with env, stack := left, progress := mark .completed (gone.map (·.id)) e.progress } past' := by
  have hpath := h.path
  have hkept := hpaced.kept
  rw [hstack] at hpath hkept
  constructor
  · refine hkept.leave h.tree hgone hpath (fun frame hframe => ?_) hpast
    obtain ⟨st, hst, -⟩ := h.standing.suits frame (hstack ▸ List.mem_append_left left hframe)
    exact h.standing.size ▸ Program.lt_of_statement? hst
  · intro x hx hout
    show (mark .completed (gone.map (·.id)) e.progress)[x]? = some .notStarted
    rw [getElem?_mark, if_neg]
    · exact hpaced.unreached x hx hout
    · intro hmem
      obtain ⟨frame, hframe, rfl⟩ := List.mem_map.mp hmem
      obtain ⟨above, below, heq⟩ := List.append_of_mem hframe
      rw [heq, List.append_assoc] at hpath
      exact hout (hpath.leave.within_root h.tree)

/-- A sequence enters its next child, and the one before is completed. -/
theorem Rooted.paced_sequence (h : e.Rooted) (hpaced : e.Paced past) {ids : List StatementId} {next : Nat}
    (hst : e.program.statement? id = some (.sequence ids)) (hstack : e.stack = .sequence id next :: rest)
    (hstep : e.step around actor (.sequence id next) = .ok s) : s.execution.Paced (past ++ s.deed.toList) := by
  have hpast : ∀ frame ∈ rest, lastDecision (past ++ s.deed.toList) frame.id = lastDecision past frame.id :=
    fun frame hframe => h.standing.lastDecision_eq hstack hstep hframe
  have hids : e.program.childrenOf id = ids := Program.childrenOf_of_statement? hst
  have hkept := hpaced.kept
  rw [hstack] at hkept
  rw [step_sequence hst] at hstep
  split at hstep <;> cases hstep
  · rename_i child hnext
    rw [replaceTop_eq hstack]
    have hchild : child ∈ e.program.childrenOf id := hids ▸ List.mem_of_getElem? hnext
    refine h.paced_enter hpaced hstack rfl hchild (fun _ _ => rfl) hpast fun progress' hothers => ?_
    obtain ⟨⟨hle, hentered⟩, -⟩ := hkept
    rw [hids] at hle hentered
    show next + 1 ≤ (e.program.childrenOf id).length ∧ _
    rw [hids]
    refine ⟨(List.getElem?_eq_some_iff.mp hnext).1, fun c hc => ?_⟩
    rw [List.take_add_one, hnext] at hc
    by_cases heq : c = child
    · exact .inl (congrArg some heq.symm)
    · right
      rw [hothers c heq]
      rcases List.mem_append.mp hc with hc | hc
      · exact (hentered c hc).resolve_left (Option.some_ne_none c).symm
      · exact absurd (List.mem_singleton.mp hc) heq
  · rw [completeTop_eq hstack]
    exact h.paced_leave hpaced [.sequence id next] (List.cons_ne_nil _ _) hstack e.env hpast

/-- An `if` enters the branch that was chosen, and the other one is not touched. -/
theorem Rooted.paced_ifThen (h : e.Rooted) (hpaced : e.Paced past) {condition : Expr} {thenId : StatementId}
    {elseId : Option StatementId} {entered : Bool}
    (hst : e.program.statement? id = some (.ifThen condition thenId elseId))
    (hstack : e.stack = .ifThen id entered :: rest) (hstep : e.step around actor (.ifThen id entered) = .ok s) :
    s.execution.Paced (past ++ s.deed.toList) := by
  have hpast : ∀ frame ∈ rest, lastDecision (past ++ s.deed.toList) frame.id = lastDecision past frame.id :=
    fun frame hframe => h.standing.lastDecision_eq hstack hstep hframe
  have hchildren : e.program.childrenOf id = thenId :: elseId.toList := Program.childrenOf_of_statement? hst
  cases entered with
  | true =>
    rw [step_ifThen_entered, completeTop_eq hstack] at hstep
    cases hstep
    exact h.paced_leave hpaced [.ifThen id true] (List.cons_ne_nil _ _) hstack e.env hpast
  | false =>
    rw [step_ifThen hst] at hstep
    split at hstep
    · cases hstep
    · rename_i holds _
      split at hstep <;> cases hstep
      · rename_i branch hbranch
        have hchild : branch ∈ e.program.childrenOf id := by
          rw [hchildren]
          cases holds with
          | true =>
            cases hbranch
            exact List.mem_cons_self
          | false => exact List.mem_cons_of_mem _ (Option.mem_toList.mpr hbranch)
        rw [replaceTop_eq hstack]
        refine h.paced_enter hpaced hstack rfl hchild (fun _ _ => rfl) hpast fun progress' hothers => ?_
        refine ⟨holds, branch, lastDecision_decided past id holds, (Program.branch?_eq hst holds).trans hbranch,
          .inl rfl, fun c' hc' hne x hx => ?_⟩
        -- what the frame has not entered was not started, and of that only the branch is entered
        have hx' : x ≠ branch := by
          rintro rfl
          exact hne (h.tree.eq_of_within hc' hchild hx (e.program.within_self x))
        rw [hothers x hx']
        exact h.untouched (.ifThen id false) (hstack ▸ List.mem_cons_self) c' hc' x hx
      · rw [completeTop_eq hstack]
        exact h.paced_leave hpaced [.ifThen id false] (List.cons_ne_nil _ _) hstack e.env hpast

/-- **A step goes on with what is behind the frames**, whatever it does. -/
theorem Rooted.paced_step (h : e.Rooted) (hpaced : e.Paced past) (hstack : e.stack = top :: rest)
    (hstep : e.step around actor top = .ok s) : s.execution.Paced (past ++ s.deed.toList) := by
  obtain ⟨st, hst, hsuits⟩ := h.standing.suits top (hstack ▸ List.mem_cons_self)
  have hpast : ∀ frame ∈ rest, lastDecision (past ++ s.deed.toList) frame.id = lastDecision past frame.id :=
    fun frame hframe => h.standing.lastDecision_eq hstack hstep hframe
  have hstride := Execution.stride hst hsuits hstack hstep
  have hkept := hpaced.kept
  have hpath := h.path
  rw [hstack] at hkept hpath
  cases hstride with
  | @enters _ top' _ child deed _ haction _ hahead =>
    cases hsuits with
    | sequence => exact h.paced_sequence hpaced hst hstack hstep
    | ifThen => exact h.paced_ifThen hpaced hst hstack hstep
    | whileDo | simple => exact absurd hahead List.not_mem_nil
    | action => cases haction
  | @loops id _ condition body hloop =>
    have hchild : body ∈ e.program.childrenOf id := Program.mem_childrenOf hloop List.mem_cons_self
    -- the loop forgets the progress of its body, and nothing outside of it
    refine h.paced_enter hpaced hstack rfl hchild (fun x hx => ?_) hpast fun _ _ => trivial
    rw [getElem?_mark, if_neg]
    intro hmem
    exact hx (h.tree.within_child hchild ((h.tree.mem_subtree_child_iff hchild).mp hmem))
  | repeats =>
    refine ⟨⟨trivial, ?_⟩, hpaced.unreached⟩
    exact hkept.2.below h.tree hpath (fun _ _ => rfl) hpast (.inl rfl)
  | leaves env => exact h.paced_leave hpaced [top] (List.cons_ne_nil _ _) hstack env hpast
  | @breaks id =>
    have hsplit : e.stack = (.simple id :: Frame.leftByBreak rest) ++ Frame.leaveLoop rest := by
      rw [List.cons_append, Frame.leftByBreak_append_leaveLoop]
      exact hstack
    refine h.paced_leave hpaced (.simple id :: Frame.leftByBreak rest) (List.cons_ne_nil _ _) hsplit e.env ?_
    intro frame hframe
    exact hpast frame (Frame.leftByBreak_append_leaveLoop rest ▸ List.mem_append_right _ hframe)
  | @requests id _ a r =>
    -- a request marks the action itself, which lies within no statement that is kept
    have hchange : ∀ x, ¬ e.program.Within x id → (e.progress.setIfInBounds id .active)[x]? = e.progress[x]? := by
      intro x hx
      refine Array.getElem?_setIfInBounds_ne ?_
      rintro rfl
      exact hx (e.program.within_self id)
    constructor
    · exact ⟨trivial, hkept.2.below h.tree hpath hchange hpast (.inl rfl)⟩
    · intro x hx hout
      exact (hchange x fun hwithin => hout (hwithin.trans (hpath.within_root h.tree))).trans
        (hpaced.unreached x hx hout)
  | holds | awaits =>
    rw [show past ++ none.toList = past from List.append_nil past]
    exact ⟨hpaced.kept, hpaced.unreached⟩
  | @retires id => exact h.paced_leave hpaced [.action id true] (List.cons_ne_nil _ _) hstack e.env hpast

/-! ## Turns and calls -/

/-- **Before and after each step of a row**, the progress so far is what it should be. -/
def PacedAlong (past : List Deed) (ds : List Dispatch) : Prop :=
  ∀ done d more, ds = done ++ d :: more →
    d.before.Paced (past ++ deedsOf done) ∧ d.step.execution.Paced (past ++ deedsOf (done ++ [d]))

theorem pacedAlong_nil (past : List Deed) : PacedAlong past [] := by
  intro done d more h
  cases done <;> cases h

theorem PacedAlong.cons {d : Dispatch} {ds : List Dispatch} (hbefore : d.before.Paced past)
    (hafter : d.step.execution.Paced (past ++ d.step.deed.toList))
    (h : PacedAlong (past ++ d.step.deed.toList) ds) : PacedAlong past (d :: ds) := by
  intro done d' more heq
  cases done with
  | nil =>
    obtain ⟨rfl, -⟩ := List.cons.inj heq
    refine ⟨?_, ?_⟩
    · rw [deedsOf, List.filterMap_nil, List.append_nil]
      exact hbefore
    · rw [List.nil_append, deedsOf_cons, deedsOf, List.filterMap_nil, List.append_nil]
      exact hafter
  | cons first done =>
    obtain ⟨rfl, htail⟩ := List.cons.inj heq
    rw [List.cons_append, deedsOf_cons, deedsOf_cons, ← List.append_assoc, ← List.append_assoc]
    exact h done d' more htail

theorem Rooted.paced_turns {n : Nat} {ds : List Dispatch} {e' : Execution} {r : Except Fault Outcome}
    (hturns : Turns around actor n e ds e' r) (h : e.Rooted) (hpaced : e.Paced past) :
    PacedAlong past ds ∧ e'.Paced (past ++ deedsOf ds) := by
  induction hturns generalizing past with
  | completed _ | exhausted _ | failed _ _ =>
    rw [deedsOf, List.filterMap_nil, List.append_nil]
    exact ⟨pacedAlong_nil past, hpaced.kept, hpaced.unreached⟩
  | @yielded n e top rest s hstack hstep _ =>
    have hafter := h.paced_step hpaced hstack hstep
    rw [deedsOf_cons, deedsOf, List.filterMap_nil, List.append_nil]
    exact ⟨.cons hpaced hafter (pacedAlong_nil _), hafter⟩
  | @goesOn n e top rest s ds e' r hstack hstep _ _ ih =>
    have hafter := h.paced_step hpaced hstack hstep
    obtain ⟨halong, hlast⟩ := ih (h.step hstack hstep) hafter
    rw [deedsOf_cons, ← List.append_assoc]
    exact ⟨.cons hpaced hafter halong, hlast⟩

theorem Resting.paced_wake (h : e.Resting) (hunfinished : e.finished = false) (hpaced : e.Paced past) (dt : Float) :
    (e.wake dt).Paced past := by
  cases h with
  | @running _ h hstack =>
    unfold Execution.wake
    have hnonempty : ¬ e.stack.isEmpty = true := fun hempty => hstack (List.isEmpty_iff.mp hempty)
    dsimp only
    rw [if_neg hnonempty]
    exact ⟨hpaced.kept, hpaced.unreached⟩
  | @new _ h hstack hnew =>
    unfold Execution.wake
    dsimp only
    rw [if_pos (List.isEmpty_iff.mpr hstack)]
    generalize hgiven : ({ e with allowance := if 0.0 < dt then dt else 0.0 } : Execution) = given
    obtain ⟨progress', hothers, hentered⟩ := exists_enter_eq given e.program.root
    rw [hentered, ← hgiven]
    refine ⟨?_, fun x hx hout => ?_⟩
    · dsimp only
      rw [hstack]
      exact ⟨Frame.keeps_enter _ _, trivial⟩
    · have hne : x ≠ e.program.root := by
        rintro rfl
        exact hout (e.program.within_self _)
      have hsame := hothers x hne
      rw [← hgiven] at hsame
      exact hsame.trans (hpaced.unreached x hx hout)
  | done _ _ => cases hunfinished

theorem Resting.paced_call (h : e.Resting) (hpaced : e.Paced past) (c : Call) :
    PacedAlong past (e.dispatchesIn c) ∧ (e.call c).execution.Paced (past ++ (e.call c).deeds) := by
  rw [deeds_call]
  cases hfinished : e.finished with
  | true =>
    rw [Execution.call, turn_of_finished c.dt hfinished, dispatchesIn_of_finished c hfinished, List.filterMap_nil,
      List.append_nil]
    exact ⟨pacedAlong_nil past, hpaced⟩
  | false =>
    exact (h.wake hfinished c.dt).paced_turns (turns_call c hfinished) (h.paced_wake hfinished hpaced c.dt)

theorem Resting.paced_after (h : e.Resting) (hpaced : e.Paced past) (calls : List Call) :
    (e.after calls).Paced (past ++ e.deeds calls) := by
  induction calls generalizing e past with
  | nil =>
    rw [deeds, List.append_nil]
    exact hpaced
  | cons c calls ih =>
    rw [deeds, ← List.append_assoc]
    exact ih (h.call c).2 (h.paced_call hpaced c).2

theorem paced_start (job : Job) (limit : UInt32) : (start job limit).Paced [] :=
  ⟨trivial, fun _ hx _ => (Array.getElem?_replicate ..).trans (if_pos hx)⟩

/-! ## The order of the program -/

/-- **Progress keeps to the order of the program.** -/
structure InOrder (e : Execution) (past : List Deed) : Prop where
  /-- Of a sequence on the call stack of which `k` children were entered, the first `k - 1` are completed, the last of them
  is on the call stack or completed, and nothing of the others was started. -/
  sequence : ∀ id ∈ e.callStack, ∀ ids, e.program.statement? id = some (.sequence ids) →
    ∃ k ≤ ids.length, .sequence id k ∈ e.stack ∧ ∀ j c, ids[j]? = some c →
      (j + 1 < k → e.progress[c]? = some .completed) ∧
        (j + 1 = k → c ∈ e.callStack ∨ e.progress[c]? = some .completed) ∧
        (k ≤ j → ∀ x ∈ e.program.subtree c, e.progress[x]? = some .notStarted)
  /-- Of an `if` on the call stack, nothing of either branch was started before it was decided. After that, the branch that
  was chosen is on the call stack or completed, and nothing of the other one was started. -/
  ifThen : ∀ id ∈ e.callStack, ∀ condition thenId elseId,
    e.program.statement? id = some (.ifThen condition thenId elseId) →
      (.ifThen id false ∈ e.stack ∧
        ∀ c ∈ thenId :: elseId.toList, ∀ x ∈ e.program.subtree c, e.progress[x]? = some .notStarted) ∨
      (.ifThen id true ∈ e.stack ∧
        ∃ holds branch, lastDecision past id = some holds ∧ (if holds then some thenId else elseId) = some branch ∧
          (branch ∈ e.callStack ∨ e.progress[branch]? = some .completed) ∧
          ∀ c ∈ thenId :: elseId.toList, c ≠ branch →
            ∀ x ∈ e.program.subtree c, e.progress[x]? = some .notStarted)
  /-- What cannot be reached from the root is never started. -/
  unreached : ∀ x < e.program.size, x ∉ e.program.subtree e.program.root → e.progress[x]? = some .notStarted

/-- What lies behind any frame of the stack: the statement above is that of the next frame, to which the frame leads. -/
theorem Rooted.exists_keeps (h : e.Rooted) (hpaced : e.Paced past) {frame : Frame} (hframe : frame ∈ e.stack) :
    ∃ above, frame.Keeps e.program past e.progress above ∧
      ∀ c, above = some c → Leads e.program frame c ∧ c ∈ e.callStack := by
  obtain ⟨gone, left, hstack⟩ := List.append_of_mem hframe
  have hpath := h.path
  have hkept := hpaced.kept
  rw [hstack] at hpath hkept
  rcases List.eq_nil_or_concat gone with rfl | ⟨further, inner, rfl⟩
  · exact ⟨none, hkept.1, nofun⟩
  · rw [List.concat_eq_append, List.append_assoc, List.singleton_append] at hpath hkept
    refine ⟨some inner.id, hkept.drop.1, fun c hc => ?_⟩
    cases hc
    refine ⟨(List.isChain_cons_cons.mp hpath.leave.leads).1, mem_callStack_iff.mpr ⟨inner, ?_, rfl⟩⟩
    rw [hstack]
    simp

theorem Rooted.inOrder_sequence (h : e.Rooted) (hpaced : e.Paced past) {ids : List StatementId} {k : Nat}
    (hst : e.program.statement? id = some (.sequence ids)) (hframe : .sequence id k ∈ e.stack) :
    k ≤ ids.length ∧ ∀ j c, ids[j]? = some c →
      (j + 1 < k → e.progress[c]? = some .completed) ∧
        (j + 1 = k → c ∈ e.callStack ∨ e.progress[c]? = some .completed) ∧
        (k ≤ j → ∀ x ∈ e.program.subtree c, e.progress[x]? = some .notStarted) := by
  obtain ⟨above, hkeeps, habove⟩ := h.exists_keeps hpaced hframe
  have hids : e.program.childrenOf id = ids := Program.childrenOf_of_statement? hst
  have hnodup := h.tree.nodup_childrenOf id
  obtain ⟨hle, hentered⟩ := hkeeps
  rw [hids] at hle hentered hnodup
  refine ⟨hle, fun j c hc => ?_⟩
  obtain ⟨hj, hget⟩ := List.getElem?_eq_some_iff.mp hc
  have htake : j < k → c ∈ ids.take k := fun hlt => List.mem_take_iff_getElem.mpr ⟨j, by omega, hget⟩
  refine ⟨fun hlt => ?_, fun heq => ?_, fun hge x hx => ?_⟩
  · -- the statement above is the child that was entered last
    refine (hentered c (htake (by omega))).resolve_left fun hsome => ?_
    obtain ⟨hleads, -⟩ := habove c hsome
    cases hleads with
    | @sequence _ next ids' _ hst' hlast =>
      rw [hst] at hst'
      cases hst'
      obtain ⟨hnext, hget'⟩ := List.getElem?_eq_some_iff.mp hlast
      have hsame := (hnodup.getElem_inj_iff).mp (hget.trans hget'.symm)
      omega
  · rcases hentered c (htake (by omega)) with hsome | hcompleted
    · exact .inl (habove c hsome).2
    · exact .inr hcompleted
  · have hahead : c ∈ (Frame.sequence id k).ahead e.program := by
      rw [Frame.ahead, hids]
      exact List.mem_drop_iff_getElem.mpr ⟨j - k, by omega, by simpa [Nat.add_sub_cancel' hge] using hget⟩
    have hchild : c ∈ e.program.childrenOf id := hids ▸ List.mem_of_getElem? hc
    exact h.untouched _ hframe c hahead x ((h.tree.mem_subtree_child_iff hchild).mp hx)

theorem Rooted.inOrder_ifThen (h : e.Rooted) (hpaced : e.Paced past) {condition : Expr} {thenId : StatementId}
    {elseId : Option StatementId} {entered : Bool}
    (hst : e.program.statement? id = some (.ifThen condition thenId elseId)) (hframe : .ifThen id entered ∈ e.stack) :
    match entered with
    | false => ∀ c ∈ thenId :: elseId.toList, ∀ x ∈ e.program.subtree c, e.progress[x]? = some .notStarted
    | true =>
      ∃ holds branch, lastDecision past id = some holds ∧ (if holds then some thenId else elseId) = some branch ∧
        (branch ∈ e.callStack ∨ e.progress[branch]? = some .completed) ∧
        ∀ c ∈ thenId :: elseId.toList, c ≠ branch → ∀ x ∈ e.program.subtree c, e.progress[x]? = some .notStarted := by
  have hchildren : e.program.childrenOf id = thenId :: elseId.toList := Program.childrenOf_of_statement? hst
  rw [← hchildren]
  cases entered with
  | false =>
    intro c hc x hx
    exact h.untouched _ hframe c hc x ((h.tree.mem_subtree_child_iff hc).mp hx)
  | true =>
    obtain ⟨above, ⟨holds, branch, hdecision, hbranch, hentered, hothers⟩, habove⟩ := h.exists_keeps hpaced hframe
    rw [Program.branch?_eq hst] at hbranch
    refine ⟨holds, branch, hdecision, hbranch, ?_, fun c hc hne x hx => ?_⟩
    · rcases hentered with hsome | ⟨-, hcompleted⟩
      · exact .inl (habove branch hsome).2
      · exact .inr hcompleted
    · exact hothers c hc hne x ((h.tree.mem_subtree_child_iff hc).mp hx)

/-- **Rooted executions are in order.** -/
theorem Rooted.inOrder (h : e.Rooted) (hpaced : e.Paced past) : e.InOrder past where
  sequence id hid ids hst := by
    obtain ⟨frame, hframe, rfl⟩ := mem_callStack_iff.mp hid
    obtain ⟨st, hst', hsuits⟩ := h.standing.suits frame hframe
    rw [hst] at hst'
    cases hst'
    cases hsuits with
    | @sequence _ id k =>
      obtain ⟨hle, hchildren⟩ := h.inOrder_sequence hpaced hst hframe
      exact ⟨k, hle, hframe, hchildren⟩
  ifThen id hid condition thenId elseId hst := by
    obtain ⟨frame, hframe, rfl⟩ := mem_callStack_iff.mp hid
    obtain ⟨st, hst', hsuits⟩ := h.standing.suits frame hframe
    rw [hst] at hst'
    cases hst'
    cases hsuits with
    | @ifThen _ _ _ id entered =>
      have horder := h.inOrder_ifThen hpaced hst hframe
      cases entered with
      | false => exact .inl ⟨hframe, horder⟩
      | true => exact .inr ⟨hframe, horder⟩
  unreached x hx hout := by
    refine hpaced.unreached x hx fun hwithin => hout ?_
    exact (h.tree.mem_subtree_iff (Nat.le_of_lt h.standing.ordered.root)).mpr hwithin

theorem Resting.inOrder (h : e.Resting) (hpaced : e.Paced past) : e.InOrder past := by
  cases h with
  | running h _ => exact h.inOrder hpaced
  | new h _ _ => exact h.inOrder hpaced
  | done h _ => exact { h.inOrder ⟨hpaced.kept, hpaced.unreached⟩ with }

/-! ## Loops -/

/-- **A loop starts an iteration anew**: its body is on top of the stack, and nothing else within the body was started. -/
structure StartsAnew (e : Execution) (body : StatementId) : Prop where
  top : e.callStack.getLast? = some body
  within : ∀ x ∈ e.program.subtree body, x ≠ body → e.progress[x]? = some .notStarted

/-- A body that is entered afresh. -/
theorem Rooted.startsAnew (h : e.Rooted) {condition : Expr} {body : StatementId}
    (hst : e.program.statement? id = some (.whileDo condition body)) (stack : List Frame) :
    (Execution.enter { e with stack, progress := mark .notStarted (e.program.subtree body) e.progress } body).StartsAnew
      body := by
  have hchild : body ∈ e.program.childrenOf id := Program.mem_childrenOf hst List.mem_cons_self
  obtain ⟨progress', hothers, hentered⟩ := exists_enter_eq
    { e with stack, progress := mark .notStarted (e.program.subtree body) e.progress } body
  rw [hentered]
  constructor
  · rw [callStack_cons rfl, List.getLast?_concat, Frame.enter_id]
  · intro x hx hne
    -- the name of what is within the body is no larger than that of the body
    have hle : x ≤ body := h.tree.le_of_within ((h.tree.mem_subtree_child_iff hchild).mp hx)
    have hbody : body < e.progress.size := by
      rw [h.standing.size]
      exact Nat.lt_trans (h.standing.ordered.lt_of_mem_childrenOf hchild) (Program.lt_of_statement? hst)
    show progress'[x]? = some .notStarted
    rw [hothers x hne, getElem?_mark, if_pos hx, Array.getElem?_eq_getElem (Nat.lt_of_le_of_lt hle hbody)]
    rfl

/-- **Whatever earlier iterations have left behind**, the next one starts anew. -/
theorem Dispatched.startsAnew {d : Dispatch} (h : Dispatched around actor d top rest) {condition : Expr}
    {body : StatementId} (hst : d.before.program.statement? id = some (.whileDo condition body))
    (hdeed : d.step.deed = some (.decided id true)) : d.step.execution.StartsAnew body := by
  obtain ⟨before, s⟩ := d
  obtain ⟨hrooted, hstack, hstep⟩ := h
  dsimp only at hst hdeed hrooted hstack hstep ⊢
  obtain rfl := (step_decides top).of_ok hstep id true hdeed
  obtain ⟨st, hst', hsuits⟩ := hrooted.standing.suits top (hstack ▸ List.mem_cons_self)
  rw [hst] at hst'
  cases hst'
  cases hsuits with
  | @whileDo _ _ id inBody =>
    have hloop : before.program.statement? id = some (.whileDo condition body) := hst
    cases inBody with
    | true =>
      rw [step_whileDo_inBody hloop] at hstep
      cases hstep
      cases hdeed
    | false =>
      rw [step_whileDo hloop] at hstep
      split at hstep <;> cases hstep
      · have hfresh : (before.reset (before.program.subtree body)).stack = .whileDo id false :: rest := by
          rw [reset_eq]
          exact hstack
        rw [replaceTop_eq hfresh, reset_eq]
        exact hrooted.startsAnew hloop _
      · cases hdeed

/-! ## Runs -/

variable {job : Job}

/-- **Progress keeps to the order of the program.** Take any run of a job that was let pass. After any calls, and before
and after every step of a further call, the statements around the one being run are in order: what a sequence has passed
is completed, nothing of what it has not entered was started, and neither was anything of a branch that was not taken.
And each time that a loop starts an iteration, nothing of its body was started but the body itself. -/
theorem progress_is_in_order (hjob : job.Fresh) (limit : UInt32) (calls : List Call) :
    let e := (start job limit).after calls
    let past := (start job limit).deeds calls
    e.InOrder past ∧ ∀ c done d more, e.dispatchesIn c = done ++ d :: more →
      d.before.InOrder (past ++ deedsOf done) ∧ d.step.execution.InOrder (past ++ deedsOf (done ++ [d])) ∧
        ∀ id condition body, d.before.program.statement? id = some (.whileDo condition body) →
          d.step.deed = some (.decided id true) → d.step.execution.StartsAnew body := by
  have hresting := (resting_start hjob limit).after calls
  have hpaced := (resting_start hjob limit).paced_after (paced_start job limit) calls
  rw [List.nil_append] at hpaced
  refine ⟨hresting.inOrder hpaced, fun c done d more hd => ?_⟩
  obtain ⟨top, rest, hdispatched⟩ := (hresting.call c).1 d (hd ▸ List.mem_append_right _ List.mem_cons_self)
  obtain ⟨hbefore, hafter⟩ := (hresting.paced_call hpaced c).1 done d more hd
  exact ⟨hdispatched.before.inOrder hbefore, hdispatched.after.inOrder hafter,
    fun id condition body hst hdeed => hdispatched.startsAnew hst hdeed⟩

/-- The theorem applies, for instance to a loop whose body was left half done by a `break` in the iteration before. -/
theorem progress_is_in_order_of_loops :
    let s : Script := .whileDo (.bool (.literal true))
      (.sequence [.whileDo (.bool (.literal true)) (.sequence [.leaf .breakLoop, .leaf .noOp]),
        .leaf (.action (.work .here))])
    let job : Job := ⟨⟨1⟩, "work", 0, ⟨(s.nodes none 0).toArray, s.rootAt 0⟩, none⟩
    let c : Call := ⟨(Grid.addActor ⟨1, 1, 1, ∅, ∅, ∅, ∅, #[]⟩ ⟨1⟩ ⟨1⟩ ⟨0, 0, 0⟩).surroundings, ⟨1⟩, 1.0⟩
    let e := (start job 20).after [c]
    job.Fresh ∧ e.callStack = [6, 5, 4] ∧ e.InOrder ((start job 20).deeds [c]) ∧
      ∃ d ∈ e.dispatchesIn c, d.step.deed = some (.decided 6 true) ∧ d.before.progress[(3 : Nat)]? = some .completed ∧
        d.step.execution.StartsAnew 5 := by
  intro s job c e
  have hbuild : s.build = .ok job.program := Script.build_eq s
  have hfresh : job.Fresh := ⟨Script.sealed_of_build hbuild, .inl (by decide)⟩
  obtain ⟨d, hd, hst, hdeed, hleft⟩ : ∃ d ∈ e.dispatchesIn c,
      d.before.program.statement? 6 = some (.whileDo (.bool (.literal true)) 5) ∧
        d.step.deed = some (.decided 6 true) ∧ d.before.progress[(3 : Nat)]? = some .completed := by
    decide
  obtain ⟨done, more, hsplit⟩ := List.append_of_mem hd
  have horder := progress_is_in_order hfresh 20 [c]
  exact ⟨hfresh, by decide, horder.1, d, hd, hdeed, hleft, (horder.2 c done d more hsplit).2.2 6 _ 5 hst hdeed⟩

end Execution

end TaskScript
