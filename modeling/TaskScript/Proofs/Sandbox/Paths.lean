import Mathlib.Data.List.Chain
import TaskScript.Proofs.Cube.Metric
import TaskScript.Proofs.Sandbox.Activity

/-!
# `Proofs.Sandbox.Paths`: the cubes that a walk enters

A walk takes one step after the other until it has arrived, cannot pay for the next step, or finds its way blocked.
It is told here without a bound on the steps (`World.Goes`), along with the cubes that it enters. Credit is no bound
for it: a step may cost nothing, and there may be endless credit. But every step leads to a neighbour that is closer
to the goal by one, so a walk ends after as many steps as its goal is away, at the latest, and `World.walk` gives it
just that many.

Whether a step can be paid for is asked before anybody looks where it leads. So a walk rests in front of a rock
until it could pay for the step into it, and only then is it over (`rests_before_rock`).

## Contents
- `World.stepCost`, `World.Pays`, `World.Blocked`, `World.Goes`: **walks without a bound**.
- `Goes.unique`, `Goes.position_eq`, `Goes.isOver_iff`: where a walk ends.
- `World.Approaches`, `Goes.approaches`, `length_add_distance`: **the way of a walk**.
- `exists_goes`: **walks end**.
- `World.course?`, `advanceActivity_of_course`: activities that are walks.
- `World.StraightWalk`, `walks_end_on_straight_ways`: **all of it**.
-/

namespace TaskScript

open Std

namespace World

/-! ## Walks without a bound -/

/-- What a step costs. A negative price counts as none. -/
def stepCost (w : World) : Float :=
  if 0.0 < w.config.timings.moveSecondsPerCube then w.config.timings.moveSecondsPerCube else 0.0

/-- The credit pays for a step. -/
def Pays (w : World) (credit : Float) : Prop :=
  ¬ credit + timeSlack < w.stepCost

/-- The next cube on the way to the goal cannot be entered. -/
def Blocked (w : World) (goal position : Cube) : Prop :=
  ∃ next, position.stepTowards goal = .ok next ∧ w.isPassable next = false

/-- **A walk as it goes**, for as long as it goes: the cubes that it enters, and what has become of it. -/
inductive Goes (w : World) (arrived : Cube → Bool) (goal : Cube) : Cube → Float → List Cube → Walk → Prop
  | arrives {position credit} :
      arrived position = true → Goes w arrived goal position credit [] ⟨position, credit, true⟩
  | rests {position credit} :
      arrived position = false → ¬ w.Pays credit → Goes w arrived goal position credit [] ⟨position, credit, false⟩
  | stops {position credit} :
      arrived position = false → w.Pays credit → w.Blocked goal position →
      Goes w arrived goal position credit [] ⟨position, credit, true⟩
  | enters {position credit next path walk} :
      arrived position = false → w.Pays credit → position.stepTowards goal = .ok next →
      w.isPassable next = true → Goes w arrived goal next (credit - w.stepCost) path walk →
      Goes w arrived goal position credit (next :: path) walk

variable {w : World} {arrived : Cube → Bool} {goal position c next : Cube} {credit : Float} {path path' : List Cube}
  {walk walk' : Walk}

theorem not_blocked_of_passable (hstep : position.stepTowards goal = .ok next) (hpassable : w.isPassable next = true) :
    ¬ w.Blocked goal position := by
  rintro ⟨next', hstep', hsolid⟩
  cases hstep.symm.trans hstep'
  rw [hpassable] at hsolid
  cases hsolid

/-! ### Where a walk ends -/

/-- There is one way for a walk to go. -/
theorem Goes.unique (h : w.Goes arrived goal position credit path walk)
    (h' : w.Goes arrived goal position credit path' walk') : path' = path ∧ walk' = walk := by
  induction h generalizing path' with
  | arrives harrived =>
    cases h' with
    | arrives _ => exact ⟨rfl, rfl⟩
    | rests hon _ => exact absurd (harrived.symm.trans hon) Bool.noConfusion
    | stops hon _ _ => exact absurd (harrived.symm.trans hon) Bool.noConfusion
    | enters hon _ _ _ _ => exact absurd (harrived.symm.trans hon) Bool.noConfusion
  | rests hon hshort =>
    cases h' with
    | arrives harrived => exact absurd (harrived.symm.trans hon) Bool.noConfusion
    | rests _ _ => exact ⟨rfl, rfl⟩
    | stops _ hpays _ => exact absurd hpays hshort
    | enters _ hpays _ _ _ => exact absurd hpays hshort
  | stops hon hpays hblocked =>
    cases h' with
    | arrives harrived => exact absurd (harrived.symm.trans hon) Bool.noConfusion
    | rests _ hshort => exact absurd hpays hshort
    | stops _ _ _ => exact ⟨rfl, rfl⟩
    | enters _ _ hstep hpassable _ => exact absurd hblocked (not_blocked_of_passable hstep hpassable)
  | enters hon hpays hstep hpassable _ ih =>
    cases h' with
    | arrives harrived => exact absurd (harrived.symm.trans hon) Bool.noConfusion
    | rests _ hshort => exact absurd hpays hshort
    | stops _ _ hblocked => exact absurd hblocked (not_blocked_of_passable hstep hpassable)
    | enters _ _ hstep' _ hrest' =>
      -- both walks enter the same cube, and the rest is a walk from there
      cases hstep.symm.trans hstep'
      obtain ⟨rfl, rfl⟩ := ih hrest'
      exact ⟨rfl, rfl⟩

/-- A walk has come to the last of the cubes that it entered. -/
theorem Goes.position_eq (h : w.Goes arrived goal position credit path walk) :
    walk.position = (position :: path).getLast (List.cons_ne_nil position path) := by
  induction h with
  | arrives _ => rfl
  | rests _ _ => rfl
  | stops _ _ _ => rfl
  | enters _ _ _ _ _ ih =>
    rw [List.getLast_cons (List.cons_ne_nil _ _)]
    exact ih

/-- **When a walk is over.** -/
theorem Goes.isOver_iff (h : w.Goes arrived goal position credit path walk) :
    walk.isOver = true ↔ arrived walk.position = true ∨ w.Pays walk.credit ∧ w.Blocked goal walk.position := by
  induction h with
  | arrives harrived => exact iff_of_true rfl (.inl harrived)
  | rests hon hshort =>
    refine iff_of_false Bool.false_ne_true ?_
    rintro (harrived | ⟨hpays, -⟩)
    · exact absurd (harrived.symm.trans hon) Bool.noConfusion
    · exact hshort hpays
  | stops _ hpays hblocked => exact iff_of_true rfl (.inr ⟨hpays, hblocked⟩)
  | enters _ _ _ _ _ ih => exact ih

/-! ## The way of a walk -/

/-- **A step of a walk**: into a cube of the world that can be entered, next to the cube before it, and closer to
the goal by one. -/
structure Approaches (w : World) (goal c next : Cube) : Prop where
  inBounds : w.inBounds next = true
  passable : w.isPassable next = true
  neighbour : c.distance next = 1
  closer : next.distance goal + 1 = c.distance goal

theorem approaches_stepTowards (hreach : c.InReach goal) (hne : c ≠ goal) (hstep : c.stepTowards goal = .ok next)
    (hpassable : w.isPassable next = true) : w.Approaches goal c next := by
  obtain ⟨hgone, hleft, -⟩ := (Cube.closer_stepTowards hreach).of_ok hstep
  have haway : c.distance goal ≠ 0 := fun hzero => hne (Cube.eq_of_distance_eq_zero hzero)
  exact ⟨(Bool.and_eq_true_iff.mp hpassable).1, hpassable, by omega, by omega⟩

/-- **Every step of a walk approaches the goal**, if being there is a way to have arrived. -/
theorem Goes.approaches (h : w.Goes arrived goal position credit path walk) (harrived : arrived goal = true)
    (hreach : position.InReach goal) : (position :: path).IsChain (w.Approaches goal) := by
  induction h with
  | arrives _ => exact List.isChain_singleton _
  | rests _ _ => exact List.isChain_singleton _
  | stops _ _ _ => exact List.isChain_singleton _
  | @enters position _ next _ _ hon _ hstep hpassable _ ih =>
    have hne : position ≠ goal := by
      rintro rfl
      exact absurd (harrived.symm.trans hon) Bool.noConfusion
    exact List.isChain_cons_cons.mpr ⟨approaches_stepTowards hreach hne hstep hpassable,
      ih (Cube.inReach_stepTowards hreach hstep)⟩

/-- The steps of such a way and what is left of it make up the distance. -/
theorem length_add_distance (h : (position :: path).IsChain (w.Approaches goal)) :
    path.length + ((position :: path).getLast (List.cons_ne_nil position path)).distance goal =
      position.distance goal := by
  induction path generalizing position with
  | nil => exact Nat.zero_add _
  | cons next rest ih =>
    obtain ⟨hstep, hrest⟩ := List.isChain_cons_cons.mp h
    have hsum := ih hrest
    have hcloser := hstep.closer
    rw [List.getLast_cons (List.cons_ne_nil _ _), List.length_cons]
    omega

/-! ## Walks end -/

theorem walk_succ (w : World) (arrived : Cube → Bool) (goal : Cube) (n : Nat) (position : Cube) (credit : Float) :
    w.walk arrived goal (n + 1) position credit =
      if arrived position then .ok ⟨position, credit, true⟩
      else if credit + timeSlack < w.stepCost then .ok ⟨position, credit, false⟩
      else do
        let next ← position.stepTowards goal
        if w.isPassable next then w.walk arrived goal n next (credit - w.stepCost)
        else return ⟨position, credit, true⟩ :=
  rfl

/-- **Every walk ends**, whatever it costs and however much credit there is, and as many steps as the goal is away
are enough for it. The induction is on the distance, which a step makes smaller. -/
theorem exists_goes (w : World) (harrived : arrived goal = true) {n : Nat} (hreach : position.InReach goal)
    (hn : position.distance goal = n) (credit : Float) :
    ∃ path walk, w.Goes arrived goal position credit path walk ∧ w.walk arrived goal n position credit = .ok walk := by
  induction n generalizing position credit with
  | zero =>
    cases Cube.eq_of_distance_eq_zero hn
    exact ⟨[], _, .arrives harrived, rfl⟩
  | succ n ih =>
    rw [walk_succ]
    cases hon : arrived position with
    | true => exact ⟨[], _, .arrives hon, rfl⟩
    | false =>
      rw [if_neg Bool.false_ne_true]
      by_cases hshort : credit + timeSlack < w.stepCost
      · rw [if_pos hshort]
        exact ⟨[], _, .rests hon (not_not_intro hshort), rfl⟩
      · obtain ⟨next, hstep, -, hleft, -⟩ := (Cube.closer_stepTowards hreach).exists_ok
        rw [if_neg hshort, hstep]
        cases hpassable : w.isPassable next with
        | false =>
          refine ⟨[], _, .stops hon hshort ⟨next, hstep, hpassable⟩, ?_⟩
          simp only [bind, Except.bind, hpassable, Bool.false_eq_true, if_false]
          rfl
        | true =>
          obtain ⟨path, walk, hgoes, hwalk⟩ :=
            ih (Cube.inReach_stepTowards hreach hstep) (by omega) (credit - w.stepCost)
          refine ⟨next :: path, walk, .enters hon hshort hstep hpassable hgoes, ?_⟩
          simp only [bind, Except.bind, hpassable, if_true]
          exact hwalk

/-! ## Activities that are walks -/

/-- Where a walk leads, what ends it, what was saved up for it, and what to be busy with for it. -/
structure Course where
  goal : Cube
  arrived : Cube → Bool
  credit : Float
  goOn : Float → Activity

/-- **The walk that an activity is**, unless it is another kind of activity, or whoever is followed is gone. -/
def course? (w : World) : Activity → Option Course
  | .moving target credit => some ⟨target, (· == target), credit, .moving target⟩
  | .following target credit =>
    (w.living? target).map fun other =>
      ⟨other.position, (·.isAdjacent other.position), credit, .following target⟩
  | .idle => none
  | .working _ _ => none
  | .attacking _ _ => none

/-- Who stands on the goal has arrived. -/
theorem arrived_goal {activity : Activity} {course : Course} (h : w.course? activity = some course) :
    course.arrived course.goal = true := by
  cases activity with
  | moving target credit =>
    cases h
    exact beq_self_eq_true target
  | following target credit =>
    obtain ⟨other, -, rfl⟩ := Option.map_eq_some_iff.mp h
    show decide (other.position.distance other.position ≤ 1) = true
    rw [Cube.distance_self]
    rfl
  | idle => cases h
  | working _ _ => cases h
  | attacking _ _ => cases h

theorem advanceActivity_of_course {actor : ActorId} {a : ActorState} {course : Course} (dt : Float)
    (hliving : w.living? actor = some a) (hcourse : w.course? a.activity = some course) :
    w.advanceActivity actor dt = do
      let walk ← w.walk course.arrived course.goal (a.position.distance course.goal) a.position (course.credit + dt)
      return w.settleWalk actor walk course.goOn := by
  unfold advanceActivity
  rw [hliving]
  cases hactivity : a.activity with
  | moving target credit =>
    rw [hactivity] at hcourse
    cases hcourse
    simp only [hactivity]
    rfl
  | following target credit =>
    rw [hactivity] at hcourse
    obtain ⟨other, hother, rfl⟩ := Option.map_eq_some_iff.mp hcourse
    simp only [hactivity, advanceFollow, hother]
  | idle =>
    rw [hactivity] at hcourse
    cases hcourse
  | working _ _ =>
    rw [hactivity] at hcourse
    cases hcourse
  | attacking _ _ =>
    rw [hactivity] at hcourse
    cases hcourse

/-! ## All of it -/

/-- **A walk on a straight way**: it goes there and nowhere else, in no more steps than the goal is away, and it
is over exactly if it has arrived, or could pay for a step that is blocked. -/
structure StraightWalk (w : World) (arrived : Cube → Bool) (goal start : Cube) (credit : Float) (path : List Cube)
    (walk : Walk) : Prop where
  goes : w.Goes arrived goal start credit path walk
  unique : ∀ path' walk', w.Goes arrived goal start credit path' walk' → path' = path ∧ walk' = walk
  length_le : path.length ≤ start.distance goal
  approaches : (start :: path).IsChain (w.Approaches goal)
  position_eq : walk.position = (start :: path).getLast (List.cons_ne_nil start path)
  isOver_iff : walk.isOver = true ↔ arrived walk.position = true ∨ w.Pays walk.credit ∧ w.Blocked goal walk.position

theorem exists_straightWalk (w : World) {start : Cube} (harrived : arrived goal = true) (hreach : start.InReach goal)
    (credit : Float) :
    ∃ path walk, w.StraightWalk arrived goal start credit path walk ∧
      w.walk arrived goal (start.distance goal) start credit = .ok walk := by
  obtain ⟨path, walk, hgoes, hwalk⟩ := w.exists_goes harrived hreach rfl credit
  have happroaches := hgoes.approaches harrived hreach
  have hlength := length_add_distance happroaches
  exact ⟨path, walk,
    ⟨hgoes, fun _ _ h' => hgoes.unique h', by omega, happroaches, hgoes.position_eq, hgoes.isOver_iff⟩, hwalk⟩

/-- **Walks end on straight ways**. From every cube from which the differences to the goal can be computed, with
every credit and every price of a step, and whatever counts as arrived (being at the goal, or next to it) as long
as the goal does, a walk ends after at most as many steps as the goal is away. Each of the cubes that it enters is
one of the world that can be entered, a neighbour of the one before, and closer to the goal by one. It is over
exactly if it has arrived or could pay for another step, which is blocked. What a living actor does over time that
moves, or follows somebody who lives, is such a walk, and finishes when that is over. -/
theorem walks_end_on_straight_ways (w : World) :
    (∀ (arrived : Cube → Bool) (goal start : Cube) (credit : Float), arrived goal = true → start.InReach goal →
      ∃ path walk, w.StraightWalk arrived goal start credit path walk ∧
        w.walk arrived goal (start.distance goal) start credit = .ok walk) ∧
    ∀ (actor : ActorId) (a : ActorState) (course : Course) (dt : Float), w.living? actor = some a →
      w.course? a.activity = some course → a.position.InReach course.goal →
      ∃ path walk w', w.StraightWalk course.arrived course.goal a.position (course.credit + dt) path walk ∧
        w.advanceActivity actor dt = .ok (w', walk.isOver) ∧
        w' = w.withActor actor
          { a with position := walk.position,
                   activity := if walk.isOver then .idle else course.goOn walk.credit } := by
  refine ⟨fun _ _ _ credit harrived hreach => w.exists_straightWalk harrived hreach credit, ?_⟩
  intro actor a course dt hliving hcourse hreach
  obtain ⟨path, walk, hstraight, hwalk⟩ :=
    w.exists_straightWalk (arrived_goal hcourse) hreach (course.credit + dt)
  refine ⟨path, walk, _, hstraight, ?_, rfl⟩
  rw [advanceActivity_of_course dt hliving hcourse, hwalk]
  exact congrArg Except.ok (settleWalk_eq (living?_eq_some_iff.mp hliving).1 walk course.goOn)

/-- An actor on its way, with a rock in front of it. -/
def rockAhead : World where
  config := {}
  terrain := (∅ : ExtTreeMap Cube Terrain).insert ⟨1, 0, 0⟩ .rock
  actors := (∅ : ExtTreeMap ActorId ActorState).insert ⟨1⟩
    { group := ⟨1⟩, position := ⟨0, 0, 0⟩, activity := .moving ⟨2, 0, 0⟩ 0.25 }

theorem rockAhead_walks_straight :
    (∃ path walk, rockAhead.StraightWalk (·.isAdjacent ⟨9, 3, 0⟩) ⟨9, 3, 0⟩ ⟨0, 5, 0⟩ 2.0 path walk ∧
      rockAhead.walk (·.isAdjacent ⟨9, 3, 0⟩) ⟨9, 3, 0⟩ 9 ⟨0, 5, 0⟩ 2.0 = .ok walk) ∧
    ∃ path walk w', rockAhead.StraightWalk (· == ⟨2, 0, 0⟩) ⟨2, 0, 0⟩ ⟨0, 0, 0⟩ (0.25 + 0.5) path walk ∧
      rockAhead.advanceActivity ⟨1⟩ 0.5 = .ok (w', walk.isOver) := by
  have hreach : Cube.InReach ⟨0, 5, 0⟩ ⟨9, 3, 0⟩ ∧ Cube.InReach ⟨0, 0, 0⟩ ⟨2, 0, 0⟩ := by
    unfold Cube.InReach Coordinate.InReach
    decide
  obtain ⟨hwalks, hadvances⟩ := walks_end_on_straight_ways rockAhead
  refine ⟨hwalks _ ⟨9, 3, 0⟩ ⟨0, 5, 0⟩ 2.0 rfl hreach.1, ?_⟩
  obtain ⟨path, walk, w', hstraight, hadvance, -⟩ := hadvances ⟨1⟩ _ _ 0.5 rfl rfl hreach.2
  exact ⟨path, walk, w', hstraight, hadvance⟩

/-- **Who cannot pay rests**, and does not notice the rock ahead. -/
theorem rests_before_rock :
    Cube.InReach ⟨0, 0, 0⟩ ⟨2, 0, 0⟩ ∧
    ∃ walk, rockAhead.walk (· == ⟨2, 0, 0⟩) ⟨2, 0, 0⟩ (Cube.distance ⟨0, 0, 0⟩ ⟨2, 0, 0⟩) ⟨0, 0, 0⟩ 0.25 = .ok walk ∧
      ¬ (walk.isOver = true ↔ (walk.position == ⟨2, 0, 0⟩) = true ∨ rockAhead.Blocked ⟨2, 0, 0⟩ walk.position) := by
  have hreach : Cube.InReach ⟨0, 0, 0⟩ ⟨2, 0, 0⟩ := by
    unfold Cube.InReach Coordinate.InReach
    decide
  refine ⟨hreach, ⟨⟨0, 0, 0⟩, 0.25, false⟩, rfl, fun hiff => ?_⟩
  have hblocked : rockAhead.Blocked ⟨2, 0, 0⟩ ⟨0, 0, 0⟩ := ⟨⟨1, 0, 0⟩, rfl, rfl⟩
  exact Bool.false_ne_true (hiff.mpr (.inr hblocked))

end World

end TaskScript
