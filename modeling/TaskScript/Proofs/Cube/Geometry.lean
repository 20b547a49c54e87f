import TaskScript.Proofs.Cube.Metric

/-!
# `Proofs.Cube.Geometry`: how far the operations on cubes agree

Distances are taken of any two cubes. The neighbours of a cube exist unless it lies at an edge of the coordinate range,
and a step towards a goal exists as long as the differences to the goal are coordinates themselves. Where they exist,
they are as the metric has it: the neighbours are the cubes at distance one, in ascending order, and steps lead to the
goal in as many steps as it is away.

The neighbours ascend because the directions do: a sum of coordinates does not wrap, so it grows with each of its parts.

## Contents
- `Coordinate.IsInner`, `Cube.IsInner`, `Cube.exists_neighbours_of_isInner`: **the neighbours exist**.
- `Offset.Before`, `Cube.compare_eq_lt_iff`, `Cube.pairwise_neighbours`: **they ascend**.
- `Cube.stepsTowards`, `Cube.succeeds_stepsTowards`: **steps in a row**.
- `Cube.operations_share_metric`: **all of it**.
-/

namespace TaskScript

/-! ## Coordinates -/

namespace Coordinate

variable {c : Int32}

/-- A coordinate with another one on either side. -/
def IsInner (c : Int32) : Prop :=
  c ≠ Int32.minValue ∧ c ≠ Int32.maxValue

instance (c : Int32) : Decidable (IsInner c) :=
  inferInstanceAs (Decidable (_ ∧ _))

/-- A world without extent asks for no more room than a coordinate on either side. -/
theorem IsInner.hasRoom (h : IsInner c) : HasRoom 0 c := by
  have hlow := Int32.le_toInt c
  have hhigh := Int32.toInt_lt c
  have hmin : c.toInt ≠ -2147483648 := fun heq => h.1 (Int32.toInt_inj.mp heq)
  have hmax : c.toInt ≠ 2147483647 := fun heq => h.2 (Int32.toInt_inj.mp heq)
  refine ⟨by omega, by omega, ?_⟩
  show (0 : Int) - 2147483649 ≤ c.toInt
  omega

/-- Two coordinates are no further apart than the range is long. -/
theorem distance_lt (a b : Int32) : distance a b < 4294967296 := by
  have ha := And.intro (Int32.le_toInt a) (Int32.toInt_lt a)
  have hb := And.intro (Int32.le_toInt b) (Int32.toInt_lt b)
  unfold distance
  omega

end Coordinate

/-! ## Directions -/

/-- A direction comes before another one by `dx`, then by `dy`, then by `dz`. -/
def Offset.Before (o o' : Offset) : Prop :=
  o.dx < o'.dx ∨ o.dx = o'.dx ∧ (o.dy < o'.dy ∨ o.dy = o'.dy ∧ o.dz < o'.dz)

instance (o o' : Offset) : Decidable (o.Before o') :=
  inferInstanceAs (Decidable (_ ∨ _))

theorem Offset.pairwise_all : all.Pairwise Before := by
  decide

namespace Cube

variable {a b c n n' goal : Cube} {ns : List Cube}

theorem distance_lt (a b : Cube) : a.distance b < 4294967296 := by
  have hx := Coordinate.distance_lt a.x b.x
  have hy := Coordinate.distance_lt a.y b.y
  have hz := Coordinate.distance_lt a.z b.z
  unfold distance
  omega

/-! ## Neighbours -/

/-- A cube with others on either side of it, along every axis. -/
def IsInner (c : Cube) : Prop :=
  Coordinate.IsInner c.x ∧ Coordinate.IsInner c.y ∧ Coordinate.IsInner c.z

instance (c : Cube) : Decidable c.IsInner :=
  inferInstanceAs (Decidable (_ ∧ _ ∧ _))

theorem exists_neighbours_of_isInner (h : c.IsInner) : ∃ ns, c.neighbours = .ok ns := by
  have hroom : c.HasRoom ⟨0, 0, 0⟩ := ⟨h.1.hasRoom, h.2.1.hasRoom, h.2.2.hasRoom⟩
  exact exists_neighbours hroom

theorem compare_eq_lt_iff : compare a b = .lt ↔ a.x < b.x ∨ a.x = b.x ∧ (a.y < b.y ∨ a.y = b.y ∧ a.z < b.z) := by
  show compareLex (compareOn Cube.x) (compareLex (compareOn Cube.y) (compareOn Cube.z)) a b = .lt ↔ _
  simp only [compareLex, compareOn, Ordering.then_eq_lt, Std.compare_eq_lt, Std.LawfulEqOrd.compare_eq_iff_eq]

/-- A later direction leads to a greater cube. -/
theorem compare_shifted {o o' : Offset} (ho : o.Before o') (hn : c.shifted o = .ok n) (hn' : c.shifted o' = .ok n') :
    compare n n' = .lt := by
  obtain ⟨hx, hy, hz⟩ := shifted_eq_ok_iff.mp hn
  obtain ⟨hx', hy', hz'⟩ := shifted_eq_ok_iff.mp hn'
  rw [compare_eq_lt_iff]
  simp only [Int32.lt_iff_toInt_lt, ← Int32.toInt_inj, hx, hy, hz, hx', hy', hz']
  unfold Offset.Before at ho
  omega

/-- **The neighbours of a cube ascend.** -/
theorem pairwise_neighbours (h : c.neighbours = .ok ns) : ns.Pairwise fun n n' => compare n n' = .lt :=
  pairwise_of_mapM h Offset.pairwise_all fun _ _ _ _ => compare_shifted

/-! ## Steps -/

/-- Where a number of steps towards a goal lead. -/
def stepsTowards (goal : Cube) : Nat → Cube → Except Overflow Cube
  | 0, c => .ok c
  | n + 1, c => do stepsTowards goal n (← c.stepTowards goal)

/-- **Every step takes one off the distance**, as long as there is any. -/
theorem succeeds_stepsTowards {k : Nat} (h : c.InReach goal) (hk : k ≤ c.distance goal) :
    Succeeds (fun n => n.distance goal = c.distance goal - k) (stepsTowards goal k c) := by
  induction k generalizing c with
  | zero => exact rfl
  | succ k ih =>
    obtain ⟨n, hstep, -, hleft, -⟩ := (closer_stepTowards h).exists_ok
    have hrest := ih (inReach_stepTowards h hstep) (by omega)
    rw [stepsTowards, hstep]
    refine hrest.mono fun n' hn' => ?_
    rw [hn', hleft]
    omega

/-- A step towards another cube leads to a neighbour that is closer. -/
theorem exists_stepTowards (h : a.InReach b) (hne : a ≠ b) :
    ∃ n, a.stepTowards b = .ok n ∧ a.distance n = 1 ∧ n.distance b = a.distance b - 1 := by
  obtain ⟨n, hstep, hgone, hleft, -⟩ := (closer_stepTowards h).exists_ok
  have haway : a.distance b ≠ 0 := fun hzero => hne (eq_of_distance_eq_zero hzero)
  exact ⟨n, hstep, by omega, hleft⟩

/-- The goal is reached with the last of the steps that it is away, and not before. -/
theorem exists_stepsTowards {k : Nat} (h : a.InReach b) (hk : k ≤ a.distance b) :
    ∃ n, stepsTowards b k a = .ok n ∧ (n = b ↔ k = a.distance b) := by
  obtain ⟨n, hsteps, hleft⟩ := (succeeds_stepsTowards h hk).exists_ok
  refine ⟨n, hsteps, fun heq => ?_, fun heq => eq_of_distance_eq_zero (by omega)⟩
  rw [heq, distance_self] at hleft
  omega

/-- **Distances, neighbours and steps are of one metric.** Distances make a metric on all cubes and fit 32 bits. The
neighbours of a cube that lies at no edge of the range exist; they are the cubes at distance one, in ascending order
and hence each once. A step towards another cube whose differences are coordinates leads to a neighbour that is closer
by one, so that the goal is reached after as many steps as it is away. -/
theorem operations_share_metric :
    (∀ a b : Cube, a.distance b = b.distance a ∧ (a.distance b = 0 ↔ a = b) ∧ a.distance b < 4294967296) ∧
      (∀ a b c : Cube, a.distance c ≤ a.distance b + b.distance c) ∧
      (∀ a : Cube, a.IsInner → ∃ ns, a.neighbours = .ok ns ∧ (∀ n, n ∈ ns ↔ a.distance n = 1) ∧ ns.Nodup ∧
        ns.Pairwise fun n n' => compare n n' = .lt) ∧
      ∀ a b : Cube, a.InReach b → a ≠ b →
        (∃ n, a.stepTowards b = .ok n ∧ a.distance n = 1 ∧ n.distance b = a.distance b - 1) ∧
          ∀ k ≤ a.distance b, ∃ n, stepsTowards b k a = .ok n ∧ (n = b ↔ k = a.distance b) := by
  refine ⟨fun a b => ⟨distance_comm a b, ?_, distance_lt a b⟩, distance_triangle, ?_, ?_⟩
  · constructor
    · exact eq_of_distance_eq_zero
    · rintro rfl
      exact distance_self a
  · intro a ha
    obtain ⟨ns, hns⟩ := exists_neighbours_of_isInner ha
    have hascending := pairwise_neighbours hns
    refine ⟨ns, hns, fun n => mem_neighbours_iff hns, hascending.imp ?_, hascending⟩
    rintro n _ hlt rfl
    have hself : compare n n = .eq := Std.ReflCmp.compare_self
    cases hself.symm.trans hlt
  · intro a b hreach hne
    exact ⟨exists_stepTowards hreach hne, fun k hk => exists_stepsTowards hreach hk⟩

/-- The cube in the last corner that has all its neighbours, and a way through half of the range. -/
theorem outermost_operations_share_metric :
    IsInner ⟨2147483646, 2147483646, 2147483646⟩ ∧
      (∃ ns, neighbours ⟨2147483646, 2147483646, 2147483646⟩ = .ok ns ∧ ⟨2147483647, 2147483645, 2147483646⟩ ∈ ns) ∧
      InReach ⟨-1, 7, 0⟩ ⟨2147483646, -3, 0⟩ ∧
      stepsTowards ⟨2147483646, -3, 0⟩ 2147483647 ⟨-1, 7, 0⟩ = .ok ⟨2147483646, -3, 0⟩ := by
  obtain ⟨-, -, hneighbours, hsteps⟩ := operations_share_metric
  have hinner : IsInner ⟨2147483646, 2147483646, 2147483646⟩ := by decide
  have hreach : InReach ⟨-1, 7, 0⟩ ⟨2147483646, -3, 0⟩ := by
    unfold InReach Coordinate.InReach
    decide
  obtain ⟨ns, hns, hmem, -⟩ := hneighbours _ hinner
  obtain ⟨n, hn, hgoal⟩ := (hsteps _ _ hreach (by decide)).2 2147483647 (by decide)
  refine ⟨hinner, ⟨ns, hns, (hmem _).mpr (by decide)⟩, hreach, ?_⟩
  rw [hn, hgoal.mpr (by decide)]

end Cube

end TaskScript
