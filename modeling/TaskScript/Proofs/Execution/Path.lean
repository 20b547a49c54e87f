import Mathlib.Data.List.Chain
import TaskScript.Grid
import TaskScript.Proofs.Execution.CallStack
import TaskScript.Proofs.Program.Preorder
import TaskScript.Proofs.Task.Fresh

/-!
# `Proofs.Execution.Path`: the call stack as a path

The tree of a program and the stack of an execution know nothing of each other: parents were noted by a builder, and
frames are pushed and popped by steps. Yet every frame leads to the one on top of it (`Path`), so that the stack is a
path in the tree, from the root down to the statement being run, and the frames below the top are its ancestors. That is
why a `break`, which the formation check has seen under a loop, finds that loop on the stack.

What makes the invariant last is what lies beside the path: the statements that a frame may still enter have not been
started (`Untouched`). They stay so as long as steps change the progress within other children only, which is what
`Frame.Apart` says, and a loop starts its body anew before it enters it.

## Contents
- `Frame.Apart`: frames with nothing in common but the way between them.
- `Path`, `Path.pairwise`, `Path.ancestors_eq`: **the stack in the tree**.
- `Untouched`, `Rooted`, `Rooted.step`, `Rooted.turns`: **steps and turns**.
- `InPlace`, `stack_is_path`: **the call stack is the chain of enclosing statements**.
-/

namespace TaskScript

open TaskScript.Frame (Suits Leads)

variable {p : Program} {top : Frame} {rest : List Frame} {child : StatementId}

/-! ## Frames on top of each other -/

namespace Frame

theorem Leads.mem_childrenOf {outer : Frame} (h : Leads p outer child) : child ∈ p.childrenOf outer.id := by
  obtain ⟨st, hst, -, hchild⟩ := h.exists_statement
  exact Program.mem_childrenOf hst hchild

/-- One frame is of a statement within that of the other, and apart from what the other may still enter. -/
def Apart (p : Program) (inner outer : Frame) : Prop :=
  p.Within inner.id outer.id ∧ ∀ x, p.Within x inner.id → ∀ c ∈ outer.ahead p, ¬ p.Within x c

theorem Apart.trans {f g h : Frame} (hfg : Apart p f g) (hgh : Apart p g h) : Apart p f h :=
  ⟨hfg.1.trans hgh.1, fun x hx => hgh.2 x (hx.trans hfg.1)⟩

instance : Trans (Apart p) (Apart p) (Apart p) := ⟨Apart.trans⟩

/-- **A frame is apart from the one that leads to it**: no child of a sequence is entered twice. -/
theorem Leads.apart (htree : p.Sealed) {inner outer : Frame} (h : Leads p outer inner.id) : Apart p inner outer := by
  have hinner := h.mem_childrenOf
  refine ⟨htree.within_child hinner (p.within_self _), fun x hx c hc hxc => ?_⟩
  generalize inner.id = child at h hinner hx
  cases h with
  | @sequence id next ids _ hst hchild =>
    have hids : p.childrenOf id = ids := Program.childrenOf_of_statement? hst
    have hnodup := htree.nodup_childrenOf id
    rw [Frame.ahead, hids] at hc
    rw [hids] at hnodup
    -- two children of which one was entered before the other are not the same
    have heq : child = c := htree.eq_of_within hinner (hids ▸ List.mem_of_mem_drop hc) hx hxc
    obtain ⟨k, hk, hck⟩ := List.mem_drop_iff_getElem.mp hc
    obtain ⟨hnext, hchild⟩ := List.getElem?_eq_some_iff.mp hchild
    have hsame := (hnodup.getElem_inj_iff).mp ((hchild.trans heq).trans hck.symm)
    omega
  | ifThen _ _ => exact absurd hc List.not_mem_nil
  | whileDo _ => exact absurd hc List.not_mem_nil

/-- What is left by a `break`, if there is a loop. -/
theorem leaveLoop_append {gone left : List Frame} {loop : Frame}
    (hgone : ∀ frame ∈ gone, frame.isLoop = false) (hloop : loop.isLoop = true) :
    leaveLoop (gone ++ loop :: left) = left := by
  induction gone with
  | nil => exact if_pos hloop
  | cons frame gone ih =>
    have hframe : ¬ frame.isLoop = true := by simp [hgone frame List.mem_cons_self]
    rw [List.cons_append, leaveLoop, if_neg hframe]
    exact ih fun f hf => hgone f (List.mem_cons_of_mem _ hf)

end Frame

/-- **A `break` of the given name is done with the statements on the stack up to the innermost loop around it**, and with
no others. -/
def Dispatch.LeavesLoop (d : Dispatch) (id : StatementId) : Prop :=
  ∃ gone loop, d.before.stack = gone ++ loop :: d.step.execution.stack ∧ loop.isLoop = true ∧
    (∀ frame ∈ gone, frame.isLoop = false) ∧
    (d.before.program.ancestors id).find? d.before.program.isLoop = some loop.id

namespace Execution

/-! ## Paths -/

/-- **A stack that is a path in the tree**: the outermost frame is that of the root, and every frame leads to the one on
top of it. -/
structure Path (p : Program) (stack : List Frame) : Prop where
  root : ∀ frame, stack.getLast? = some frame → frame.id = p.root
  leads : stack.IsChain fun inner outer => Leads p outer inner.id

theorem path_nil (p : Program) : Path p [] :=
  ⟨nofun, .nil⟩

theorem path_root {frame : Frame} (h : frame.id = p.root) : Path p [frame] := by
  refine ⟨fun f hf => ?_, .singleton frame⟩
  cases hf
  exact h

theorem Path.enter {frame outer : Frame} (h : Path p (outer :: rest)) (hleads : Leads p outer frame.id) :
    Path p (frame :: outer :: rest) := by
  refine ⟨fun f hf => h.root f ?_, .cons_cons hleads h.leads⟩
  rwa [List.getLast?_cons_cons] at hf

theorem Path.leave {gone left : List Frame} (h : Path p (gone ++ left)) : Path p left := by
  refine ⟨fun f hf => h.root f ?_, h.leads.right_of_append⟩
  rw [List.getLast?_append, hf]
  rfl

/-- What a frame remembers matters to the frames on top of it only. -/
theorem Path.replaceTop {top' : Frame} (h : Path p (top :: rest)) (hid : top'.id = top.id) :
    Path p (top' :: rest) := by
  cases rest with
  | nil => exact path_root (hid.trans (h.root top rfl))
  | cons outer rest =>
    have hleads : Leads p outer top.id := (List.isChain_cons_cons.mp h.leads).1
    have hleft : Path p ([top] ++ outer :: rest) := h
    exact hleft.leave.enter (hid ▸ hleads)

/-- **A frame is apart from all those below it.** -/
theorem Path.pairwise (htree : p.Sealed) {stack : List Frame} (h : Path p stack) :
    stack.Pairwise (Frame.Apart p) := by
  have hchain : stack.IsChain (Frame.Apart p) := h.leads.imp fun _ _ hleads => hleads.apart htree
  exact hchain.pairwise

/-- **The frames below the top are those of the ancestors**, the innermost first. -/
theorem Path.ancestors_eq (htree : p.Sealed) (h : Path p (top :: rest)) :
    p.ancestors top.id = rest.map (·.id) := by
  induction rest generalizing top with
  | nil =>
    have hroot := h.root top rfl
    rw [hroot, Program.ancestors_of_parent?_eq_none htree.parent?_root]
    rfl
  | cons outer rest ih =>
    have hleads : Leads p outer top.id := (List.isChain_cons_cons.mp h.leads).1
    have hparent := htree.parent?_eq_some_iff.mpr hleads.mem_childrenOf
    have houter : Path p ([top] ++ outer :: rest) := h
    rw [Program.ancestors_of_parent? htree.parentsAhead hparent, ih houter.leave, List.map_cons]

theorem Path.within_root (htree : p.Sealed) (h : Path p (top :: rest)) : p.Within top.id p.root := by
  induction rest generalizing top with
  | nil =>
    rw [h.root top rfl]
    exact p.within_self p.root
  | cons outer rest ih =>
    have hleads : Leads p outer top.id := (List.isChain_cons_cons.mp h.leads).1
    have houter : Path p ([top] ++ outer :: rest) := h
    exact (htree.within_child hleads.mem_childrenOf (p.within_self _)).trans (ih houter.leave)

/-! ## Beside the path -/

/-- **What the frames may still enter has not been started.** -/
def Untouched (p : Program) (stack : List Frame) (progress : Array Progress) : Prop :=
  ∀ frame ∈ stack, ∀ c ∈ frame.ahead p, ∀ x, p.Within x c → progress[x]? = some .notStarted

variable {progress : Array Progress}

/-- Statements that are marked within frames do not lie ahead of the frames below. -/
theorem Untouched.leave (htree : p.Sealed) {gone left : List Frame} (hpath : Path p (gone ++ left))
    (h : Untouched p (gone ++ left) progress) (q : Progress) :
    Untouched p left (mark q (gone.map (·.id)) progress) := by
  intro frame hframe c hc x hx
  have hapart := (List.pairwise_append.mp (hpath.pairwise htree)).2.2
  rw [getElem?_mark, if_neg]
  · exact h frame (List.mem_append_right _ hframe) c hc x hx
  · intro hmem
    obtain ⟨g, hg, rfl⟩ := List.mem_map.mp hmem
    exact (hapart g hg frame hframe).2 g.id (p.within_self g.id) c hc hx

/-- A frame that may enter no more than before changes nothing. -/
theorem Untouched.replaceTop {top' : Frame} (h : Untouched p (top :: rest) progress)
    (hsub : top'.ahead p ⊆ top.ahead p) : Untouched p (top' :: rest) progress := by
  intro frame hframe c hc
  rcases List.mem_cons.mp hframe with rfl | hframe
  · exact h top List.mem_cons_self c (hsub hc)
  · exact h frame (List.mem_cons_of_mem _ hframe) c hc

/-- Progress that is forgotten was not made. -/
theorem Untouched.forget {stack : List Frame} (h : Untouched p stack progress) (ids : List StatementId) :
    Untouched p stack (mark .notStarted ids progress) := by
  intro frame hframe c hc x hx
  have hbefore := h frame hframe c hc x hx
  rw [getElem?_mark, hbefore]
  exact ite_self _

/-- A statement that is entered may enter its children, and an action is ahead of itself. -/
theorem ahead_enter {c : StatementId} (hc : c ∈ (Frame.enter child (p.statement? child)).ahead p) :
    if (Frame.enter child (p.statement? child)).isAction then c = child else c ∈ p.childrenOf child := by
  unfold Frame.enter at hc ⊢
  split at hc
  · exact hc
  · exact hc
  · exact absurd hc List.not_mem_nil
  · exact List.mem_singleton.mp hc
  · exact absurd hc List.not_mem_nil
  · exact absurd hc List.not_mem_nil

/-! ## Rooted executions -/

/-- **The invariant of executions** of a sealed program that has passed the formation check: the stack is a path in its
tree, and what lies beside the path has not been started. -/
structure Rooted (e : Execution) : Prop where
  standing : e.Standing
  tree : e.program.Sealed
  checked : e.program.check = .ok ()
  path : Path e.program e.stack
  untouched : Untouched e.program e.stack e.progress

variable {e : Execution} {around : Surroundings} {actor : ActorId}

/-- A statement is entered that was not started, nor anything within it. -/
theorem rooted_enter (hstanding : (e.enter child).Standing) (htree : e.program.Sealed)
    (hchecked : e.program.check = .ok ())
    (hpath : Path e.program (Frame.enter child (e.program.statement? child) :: e.stack))
    (hnew : ∀ x, e.program.Within x child → e.progress[x]? = some .notStarted)
    (hold : Untouched e.program e.stack e.progress) : (e.enter child).Rooted := by
  have hid := Frame.enter_id child (e.program.statement? child)
  have hahead : ∀ c ∈ (Frame.enter child (e.program.statement? child)).ahead e.program,
      if (Frame.enter child (e.program.statement? child)).isAction then c = child
      else c ∈ e.program.childrenOf child := fun c hc => ahead_enter hc
  have hapart := (List.pairwise_cons.mp (hpath.pairwise htree)).1
  rw [enter_eq] at hstanding ⊢
  generalize Frame.enter child (e.program.statement? child) = entered at *
  refine ⟨hstanding, htree, hchecked, hpath, fun frame hframe c hc x hx => ?_⟩
  -- the statement itself is the only one whose progress changes
  have hbefore : e.progress[x]? = some .notStarted ∧ (entered.isAction = false → x ≠ child) := by
    rcases List.mem_cons.mp hframe with rfl | hframe
    · have hchild := hahead c hc
      split at hchild
      · rename_i haction
        exact ⟨hnew x (hchild ▸ hx), fun hno => absurd (hno.symm.trans haction) Bool.false_ne_true⟩
      · refine ⟨hnew x (htree.within_child hchild hx), fun _ hself => ?_⟩
        exact htree.not_within_child hchild (hself ▸ hx)
    · refine ⟨hold frame hframe c hc x hx, fun _ hself => ?_⟩
      exact (hapart frame hframe).2 x (hself ▸ hid ▸ e.program.within_self _) c hc hx
  dsimp only
  split
  · exact hbefore.1
  · rename_i haction
    rw [Array.getElem?_setIfInBounds_ne (Ne.symm (hbefore.2 (Bool.not_eq_true _ |>.mp haction)))]
    exact hbefore.1

/-- **A step keeps the stack a path**, whatever it does. -/
theorem Rooted.stride (h : e.Rooted) (hstack : e.stack = top :: rest) {s : Step}
    (hstride : Stride around actor e top rest s) : s.execution.Rooted := by
  have hstanding := (h.standing.step hstack (goes_of_stride h.standing.ordered hstride)).1
  have hpath := h.path
  have huntouched := h.untouched
  rw [hstack] at hpath huntouched
  cases hstride with
  | @enters _ top' _ child deed hid _ hleads hchild hsub _ =>
    refine rooted_enter hstanding h.tree h.checked ?_ (fun x => huntouched top List.mem_cons_self child hchild x) ?_
    · exact (hpath.replaceTop hid).enter ((Frame.enter_id _ _).symm ▸ hleads)
    · exact huntouched.replaceTop hsub
  | @loops id _ condition body hst =>
    have hbody : body < e.program.size :=
      Nat.lt_trans (h.standing.ordered.child_lt hst List.mem_cons_self) (Program.lt_of_statement? hst)
    refine rooted_enter hstanding h.tree h.checked ?_ (fun x hx => ?_) ?_
    · have hloop : Path e.program (.whileDo id true :: rest) := hpath.replaceTop rfl
      exact hloop.enter ((Frame.enter_id _ _).symm ▸ .whileDo hst)
    · -- the body starts anew
      have hx' : x < e.progress.size := h.standing.size ▸ Nat.lt_of_le_of_lt (h.tree.le_of_within hx) hbody
      have hmem : x ∈ e.program.subtree body := (h.tree.mem_subtree_iff (Nat.le_of_lt hbody)).mpr hx
      dsimp only
      rw [getElem?_mark, if_pos hmem, Array.getElem?_eq_getElem hx']
      rfl
    · exact (huntouched.replaceTop (List.nil_subset _)).forget _
  | @repeats id _ =>
    exact ⟨hstanding, h.tree, h.checked, hpath.replaceTop rfl, huntouched.replaceTop (List.nil_subset _)⟩
  | leaves env _ _ _ =>
    have hpath : Path e.program ([top] ++ rest) := hpath
    exact ⟨hstanding, h.tree, h.checked, hpath.leave, Untouched.leave h.tree hpath huntouched .completed⟩
  | @breaks id _ _ =>
    -- the frames that a `break` leaves are a piece at the top of the path
    rw [← Frame.leftByBreak_append_leaveLoop rest] at hpath huntouched
    have hpath : Path e.program ((Frame.simple id :: Frame.leftByBreak rest) ++ Frame.leaveLoop rest) := hpath
    exact ⟨hstanding, h.tree, h.checked, hpath.leave, Untouched.leave h.tree hpath huntouched .completed⟩
  | @requests id _ a r _ _ _ =>
    refine ⟨hstanding, h.tree, h.checked, hpath.replaceTop rfl, ?_⟩
    have hpath : Path e.program ([.action id false] ++ rest) := hpath
    -- the action becomes active where it is, which nothing below can tell
    have hbelow := Untouched.leave h.tree hpath huntouched .active
    intro frame hframe
    rcases List.mem_cons.mp hframe with rfl | hframe
    · exact List.forall_mem_nil _
    · exact hbelow frame hframe
  | holds _ => exact h
  | awaits _ => exact ⟨hstanding, h.tree, h.checked, h.path, h.untouched⟩
  | @retires id _ _ =>
    have hpath : Path e.program ([.action id true] ++ rest) := hpath
    exact ⟨hstanding, h.tree, h.checked, hpath.leave, Untouched.leave h.tree hpath huntouched .completed⟩

/-! ## Turns -/

theorem Rooted.step (h : e.Rooted) (hstack : e.stack = top :: rest) {s : Step}
    (hstep : e.step around actor top = .ok s) : s.execution.Rooted := by
  obtain ⟨st, hst, hsuits⟩ := h.standing.suits top (hstack ▸ List.mem_cons_self)
  exact h.stride hstack (Execution.stride hst hsuits hstack hstep)

/-- **An execution between two turns**: it is rooted, and it has either entered the program or started nothing of it; or
it is finished, and nothing of the program is being run. -/
inductive Resting : Execution → Prop
  | running {e : Execution} : e.Rooted → e.stack ≠ [] → Resting e
  | new {e : Execution} :
      e.Rooted → e.stack = [] → (∀ x < e.program.size, e.progress[x]? = some .notStarted) → Resting e
  | done {e : Execution} : e.Rooted → e.stack = [] → Resting { e with finished := true }

/-- A step that did not fail, of the frame on top of a rooted execution. -/
structure Dispatched (around : Surroundings) (actor : ActorId) (d : Dispatch) (top : Frame) (rest : List Frame) :
    Prop where
  before : d.before.Rooted
  stack : d.before.stack = top :: rest
  step : d.before.step around actor top = .ok d.step

theorem Dispatched.after {d : Dispatch} (h : Dispatched around actor d top rest) : d.step.execution.Rooted :=
  h.before.step h.stack h.step

/-- **The steps of a turn** are dispatched from rooted executions, and the turn leaves one behind. -/
theorem Rooted.turns {n : Nat} {ds : List Dispatch} {e' : Execution} {r : Except Fault Outcome}
    (hturns : Turns around actor n e ds e' r) (h : e.Rooted) :
    (∀ d ∈ ds, ∃ top rest, Dispatched around actor d top rest) ∧ Resting e' := by
  induction hturns with
  | completed hstack => exact ⟨List.forall_mem_nil _, .done h hstack⟩
  | exhausted hstack =>
    exact ⟨List.forall_mem_nil _, .running h (hstack ▸ List.cons_ne_nil _ _)⟩
  | failed hstack _ =>
    exact ⟨List.forall_mem_nil _, .running h (hstack ▸ List.cons_ne_nil _ _)⟩
  | @yielded n e top rest s hstack hstep hgo =>
    have hdispatched : Dispatched around actor ⟨e, s⟩ top rest := ⟨h, hstack, hstep⟩
    refine ⟨fun d hd => ?_, .running hdispatched.after (h.standing.ne_nil_of_yields hstack hstep hgo)⟩
    rw [List.mem_singleton.mp hd]
    exact ⟨top, rest, hdispatched⟩
  | @goesOn n e top rest s ds e' r hstack hstep _ _ ih =>
    have hdispatched : Dispatched around actor ⟨e, s⟩ top rest := ⟨h, hstack, hstep⟩
    obtain ⟨hrest, hresting⟩ := ih hdispatched.after
    refine ⟨fun d hd => ?_, hresting⟩
    rcases List.mem_cons.mp hd with rfl | hd
    · exact ⟨top, rest, hdispatched⟩
    · exact hrest d hd

/-- A turn starts with the root on the stack. -/
theorem Resting.wake (h : e.Resting) (hunfinished : e.finished = false) (dt : Float) : (e.wake dt).Rooted := by
  cases h with
  | @running _ h hstack =>
    have hstanding := (h.standing.wake dt).1
    unfold Execution.wake at hstanding ⊢
    have hnonempty : ¬ e.stack.isEmpty = true := fun hempty => hstack (List.isEmpty_iff.mp hempty)
    dsimp only at hstanding ⊢
    rw [if_neg hnonempty] at hstanding ⊢
    exact ⟨hstanding, h.tree, h.checked, h.path, h.untouched⟩
  | @new _ h hstack hnew =>
    have hstanding := (h.standing.wake dt).1
    unfold Execution.wake at hstanding ⊢
    dsimp only at hstanding ⊢
    rw [if_pos (List.isEmpty_iff.mpr hstack)] at hstanding ⊢
    refine rooted_enter hstanding h.tree h.checked ?_ (fun x hx => hnew x ?_) h.untouched
    · dsimp only
      rw [hstack]
      exact path_root (Frame.enter_id _ _)
    · exact Nat.lt_of_le_of_lt (h.tree.le_of_within hx) h.standing.ordered.root
  | done _ _ => cases hunfinished

theorem resting_start {job : Job} (hjob : job.Fresh) (limit : UInt32) : (start job limit).Resting := by
  refine .new ⟨standing_start hjob.1 limit, hjob.1, hjob.check, path_nil _, nofun⟩ rfl fun x hx => ?_
  exact (Array.getElem?_replicate ..).trans (if_pos hx)

/-- **A call**: its steps are dispatched from rooted executions, and it leaves one behind. -/
theorem Resting.call (h : e.Resting) (c : Call) :
    (∀ d ∈ e.dispatchesIn c, ∃ top rest, Dispatched c.around c.actor d top rest) ∧ (e.call c).execution.Resting := by
  cases hfinished : e.finished with
  | true =>
    rw [Execution.call, turn_of_finished c.dt hfinished, dispatchesIn_of_finished c hfinished]
    exact ⟨List.forall_mem_nil _, h⟩
  | false => exact (h.wake hfinished c.dt).turns (turns_call c hfinished)

theorem Resting.after (h : e.Resting) (calls : List Call) : (e.after calls).Resting := by
  induction calls generalizing e with
  | nil => exact h
  | cons c calls ih => exact ih (h.call c).2

/-! ## The call stack -/

/-- **The call stack is the chain of enclosing statements.** -/
structure InPlace (e : Execution) : Prop where
  /-- It starts at the root. -/
  root : e.callStack ≠ [] → e.callStack.head? = some e.program.root
  /-- Every further entry is a child of the one before. -/
  children : e.callStack.IsChain fun outer inner => inner ∈ e.program.childrenOf outer
  /-- It is the topmost statement after its ancestors. -/
  ancestors : ∀ id, e.callStack.getLast? = some id → e.callStack = (e.program.ancestors id).reverse ++ [id]
  /-- Every frame fits its statement, which there is. -/
  suits : ∀ frame ∈ e.stack, ∃ st, e.program.statement? frame.id = some st ∧ Suits st frame
  /-- Every frame below the top has entered the statement on top of it. -/
  leads : e.stack.IsChain fun inner outer => Leads e.program outer inner.id
  /-- The statements under way are those on the call stack, but for an action on top that was not requested yet. -/
  active_iff : ∀ i : StatementId,
    e.progress[i]? = some .active ↔ i ∈ e.callStack ∧ e.stack.head? ≠ some (.action i false)
  /-- Such an action was not started. -/
  unrequested : ∀ i : StatementId, e.stack.head? = some (.action i false) → e.progress[i]? = some .notStarted

theorem callStack_cons (hstack : e.stack = top :: rest) : e.callStack = (rest.map (·.id)).reverse ++ [top.id] := by
  rw [callStack, hstack, List.map_cons, List.reverse_cons]

theorem mem_callStack_iff {i : StatementId} : i ∈ e.callStack ↔ ∃ frame ∈ e.stack, frame.id = i := by
  rw [callStack, List.mem_reverse, List.mem_map]

/-- An action that was not requested can only be on top, and a frame that is not under way is one. -/
theorem Standing.underWay_iff (h : e.Standing) {i : StatementId} :
    (∃ frame ∈ e.stack, frame.id = i ∧ frame.underWay = true) ↔
      i ∈ e.callStack ∧ e.stack.head? ≠ some (.action i false) := by
  rw [mem_callStack_iff]
  cases hstack : e.stack with
  | nil => simp
  | cons top rest =>
    have hdescends := h.descends
    have houter := h.outer
    rw [hstack] at hdescends houter
    rw [List.head?_cons]
    constructor
    · rintro ⟨frame, hframe, hid, hunder⟩
      refine ⟨⟨frame, hframe, hid⟩, fun htop => ?_⟩
      obtain rfl := Option.some.inj htop
      rcases List.mem_cons.mp hframe with rfl | hframe
      · cases hunder
      · exact absurd ((List.pairwise_cons.mp hdescends).1 frame hframe) (hid ▸ Nat.lt_irrefl _)
    · rintro ⟨⟨frame, hframe, rfl⟩, htop⟩
      refine ⟨frame, hframe, rfl, ?_⟩
      rcases List.mem_cons.mp hframe with rfl | hframe
      · cases frame with
        | action id started =>
          cases started with
          | true => rfl
          | false => exact absurd rfl htop
        | _ => rfl
      · exact Frame.underWay_of_not_isAction (houter frame hframe)

/-- **Rooted executions are in place.** -/
theorem Rooted.inPlace (h : e.Rooted) : e.InPlace where
  root hne := by
    rw [callStack, List.head?_reverse, List.getLast?_map] at *
    cases hlast : e.stack.getLast? with
    | none =>
      rw [List.getLast?_eq_none_iff.mp hlast] at hne
      exact absurd rfl hne
    | some frame => rw [Option.map_some, h.path.root frame hlast]
  children := by
    rw [callStack, List.isChain_reverse, List.isChain_map]
    exact h.path.leads.imp fun _ _ hleads => hleads.mem_childrenOf
  ancestors id hid := by
    cases hstack : e.stack with
    | nil =>
      rw [callStack, hstack] at hid
      cases hid
    | cons top rest =>
      have hpath := h.path
      rw [hstack] at hpath
      rw [callStack_cons hstack, List.getLast?_concat, Option.some.injEq] at hid
      rw [callStack_cons hstack, ← hid, hpath.ancestors_eq h.tree]
  suits := h.standing.suits
  leads := h.path.leads
  active_iff i := (h.standing.active_iff i).trans h.standing.underWay_iff
  unrequested i htop := by
    obtain ⟨rest, hstack⟩ := List.head?_eq_some_iff.mp htop
    refine h.untouched (.action i false) (hstack ▸ List.mem_cons_self) i ?_ i (e.program.within_self i)
    exact List.mem_singleton.mpr rfl

theorem Resting.inPlace (h : e.Resting) : e.InPlace := by
  cases h with
  | running h _ => exact h.inPlace
  | new h _ _ => exact h.inPlace
  | done h _ => exact { h.inPlace with }

/-! ## Loops -/

theorem isLoop_eq {frame : Frame} {st : Statement} (hst : p.statement? frame.id = some st) (hsuits : Suits st frame) :
    p.isLoop frame.id = frame.isLoop := by
  rw [Program.isLoop, hst]
  cases hsuits <;> rfl

/-- **Around a `break` there is a loop on the stack**: the formation check has seen one among its ancestors. -/
theorem Rooted.exists_loop (h : e.Rooted) (hstack : e.stack = top :: rest)
    (hbreak : e.program.statement? top.id = some (.leaf .breakLoop)) :
    ∃ gone loop left, rest = gone ++ loop :: left ∧ loop.isLoop = true ∧ (∀ frame ∈ gone, frame.isLoop = false) ∧
      (e.program.ancestors top.id).find? e.program.isLoop = some loop.id := by
  have hpath := h.path
  have hsuits := h.standing.suits
  rw [hstack] at hpath hsuits
  have hancestors := hpath.ancestors_eq h.tree
  have hloops : ∀ frame ∈ rest, e.program.isLoop frame.id = frame.isLoop := by
    intro frame hframe
    obtain ⟨st, hst, hfits⟩ := hsuits frame (List.mem_cons_of_mem _ hframe)
    exact isLoop_eq hst hfits
  have hfound : ∃ frame ∈ rest, frame.isLoop = true := by
    have hdefect := h.tree.defectAt?_eq_none h.checked (hpath.within_root h.tree)
    rw [Program.defectAt?, hbreak, hancestors] at hdefect
    dsimp only at hdefect
    split at hdefect
    · rename_i hany
      obtain ⟨_, hmem, hloop⟩ := List.any_eq_true.mp hany
      obtain ⟨frame, hframe, rfl⟩ := List.mem_map.mp hmem
      exact ⟨frame, hframe, (hloops frame hframe).symm.trans hloop⟩
    · cases hdefect
  -- the first such frame is that of the innermost loop
  obtain ⟨loop, hfind⟩ := Option.isSome_iff_exists.mp (List.find?_isSome.mpr hfound)
  obtain ⟨hloop, gone, left, hrest, hgone⟩ := List.find?_eq_some_iff_append.mp hfind
  refine ⟨gone, loop, left, hrest, hloop, fun frame hframe => by simpa using hgone frame hframe, ?_⟩
  rw [hancestors, hrest, List.map_append, List.map_cons, List.find?_eq_some_iff_append]
  refine ⟨(hloops loop (hrest ▸ List.mem_append_right _ List.mem_cons_self)).trans hloop, gone.map (·.id),
    left.map (·.id), rfl, fun i hi => ?_⟩
  obtain ⟨frame, hframe, rfl⟩ := List.mem_map.mp hi
  rw [hloops frame (hrest ▸ List.mem_append_left _ hframe)]
  exact hgone frame hframe

/-- **A `break` finds its loop**, and leaves what is below it. -/
theorem Dispatched.leavesLoop {d : Dispatch} (h : Dispatched around actor d top rest)
    (hbreak : d.before.program.statement? top.id = some (.leaf .breakLoop)) : d.LeavesLoop top.id := by
  obtain ⟨gone, loop, left, hrest, hloop, hgone, hfind⟩ := h.before.exists_loop h.stack hbreak
  obtain ⟨st, hst, hsuits⟩ := h.before.standing.suits top (h.stack ▸ List.mem_cons_self)
  rw [hbreak] at hst
  cases hst
  have htop : top.isLoop = false := by
    cases hsuits
    rfl
  have hquiet : ∀ frame ∈ top :: gone, frame.isLoop = false := by
    intro frame hframe
    rcases List.mem_cons.mp hframe with rfl | hframe
    · exact htop
    · exact hgone frame hframe
  have hleft : d.step.execution.stack = left := by
    have hstep := h.step
    cases hsuits with
    | @simple _ id _ =>
      have hst : d.before.program.statement? id = some (.leaf .breakLoop) := hbreak
      rw [step_breakLoop hst, unwind_eq, h.stack, hrest] at hstep
      rw [← Except.ok.inj hstep]
      exact Frame.leaveLoop_append hgone hloop
  refine ⟨top :: gone, loop, ?_, hloop, hquiet, hfind⟩
  rw [h.stack, hrest, hleft]
  rfl

/-! ## Runs -/

variable {job : Job}

/-- **The call stack is the chain of enclosing statements, and a `break` always finds its loop**: before and after every
step of every call, and whatever has failed before. Jobs of factories are fresh, too. -/
theorem stack_is_path (hjob : job.Fresh) (limit : UInt32) (calls : List Call) :
    ((start job limit).after calls).InPlace ∧
      ∀ c, ∀ d ∈ ((start job limit).after calls).dispatchesIn c,
        d.before.InPlace ∧ d.step.execution.InPlace ∧
          ∃ top, d.before.stack.head? = some top ∧ d.before.step c.around c.actor top = .ok d.step ∧
            (d.before.program.statement? top.id = some (.leaf .breakLoop) → d.LeavesLoop top.id) := by
  have hresting := (resting_start hjob limit).after calls
  refine ⟨hresting.inPlace, fun c d hd => ?_⟩
  obtain ⟨top, rest, hdispatched⟩ := (hresting.call c).1 d hd
  refine ⟨hdispatched.before.inPlace, hdispatched.after.inPlace, top, ?_, hdispatched.step, hdispatched.leavesLoop⟩
  rw [hdispatched.stack, List.head?_cons]

/-- The theorem applies, for instance to a loop that is left by a `break` after some work. -/
theorem stack_is_path_of_loop :
    let s : Script := .whileDo (.bool (.literal true))
      (.sequence [.leaf (.action (.work .here)), .ifThen (.bool (.literal true)) (.leaf .breakLoop) none])
    let job : Job := ⟨⟨1⟩, "work", 0, ⟨(s.nodes none 0).toArray, s.rootAt 0⟩, none⟩
    let c : Call := ⟨(Grid.addActor ⟨1, 1, 1, ∅, ∅, ∅, ∅, #[]⟩ ⟨1⟩ ⟨1⟩ ⟨0, 0, 0⟩).surroundings, ⟨1⟩, 1.0⟩
    job.Fresh ∧ ((start job 9).after [c]).callStack = [4, 3, 0] ∧ ((start job 9).after [c]).InPlace := by
  intro s job c
  have hbuild : s.build = .ok job.program := Script.build_eq s
  have hfresh : job.Fresh := ⟨Script.sealed_of_build hbuild, .inl (by decide)⟩
  exact ⟨hfresh, by decide, (stack_is_path hfresh 9 [c]).1⟩

end Execution

end TaskScript
