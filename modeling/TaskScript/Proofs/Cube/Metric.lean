import TaskScript.Proofs.Cube.Room

/-!
# `Proofs.Cube.Metric`: distances, neighbours and steps

Three operations on cubes are computed in three ways: the distance by differences of coordinates, the neighbours by
sums, and a step by the sign of a difference. They agree on one metric. The neighbours of a cube are the cubes at
distance one, and a step towards a cube leads to a neighbour that is closer by one.

A step ends between the cube it starts from and the one it leads to, so it does not leave a box that holds both.

## Contents
- `Coordinate.shift_eq_ok_iff`, `Coordinate.closer_stepTowards`: **coordinates**.
- `Cube.distance_comm`, `Cube.distance_self`, `Cube.distance_triangle`: **the metric**.
- `Cube.exists_neighbours`, `Cube.mem_neighbours_iff`: **neighbours**.
- `Cube.closer_stepTowards`, `Cube.inReach_stepTowards`, `Extent.exists_closer`: **steps**.
-/

namespace TaskScript

/-! ## Coordinates -/

/-- What adding the sign of a difference does: it goes at most one on, takes one off the distance if there is one,
and stays between the two numbers. -/
theorem add_sign_sub (a b : Int) :
    (a - (a + (b - a).sign)).natAbs = min 1 (a - b).natAbs ∧
      (a + (b - a).sign - b).natAbs = (a - b).natAbs - 1 ∧
      min a b ≤ a + (b - a).sign ∧ a + (b - a).sign ≤ max a b := by
  rcases Int.lt_trichotomy (b - a) 0 with hneg | hzero | hpos
  · rw [Int.sign_eq_neg_one_of_neg hneg]
    omega
  · rw [hzero, Int.sign_zero]
    omega
  · rw [Int.sign_eq_one_of_pos hpos]
    omega

namespace Coordinate

variable {a b c : Int32} {cause : Overflow}

theorem distance_comm (a b : Int32) : distance a b = distance b a := by
  unfold distance
  omega

theorem distance_triangle (a b c : Int32) : distance a c ≤ distance a b + distance b c := by
  unfold distance
  omega

theorem ofInt_eq_ok_iff {n : Int} : ofInt cause n = .ok c ↔ c.toInt = n := by
  have hlow := Int32.le_toInt c
  have hhigh := Int32.toInt_lt c
  unfold ofInt
  constructor
  · intro h
    split at h
    · rename_i hrange
      cases h
      exact Int32.toInt_ofInt_of_le hrange.1 (Int.lt_add_one_of_le hrange.2)
    · cases h
  · intro h
    subst h
    rw [if_pos (by omega), Int32.ofInt_toInt]

theorem shift_eq_ok_iff {d : Int} : shift a d = .ok c ↔ c.toInt = a.toInt + d :=
  ofInt_eq_ok_iff

/-- The difference of two coordinates can be computed. -/
def InReach (a b : Int32) : Prop :=
  -2147483648 ≤ b.toInt - a.toInt ∧ b.toInt - a.toInt ≤ 2147483647

/-- **A step along one axis**: it is no longer than one, it takes one off the distance if there is one, and it ends
between the two coordinates. -/
structure Closer (a b c : Int32) : Prop where
  gone : distance a c = min 1 (distance a b)
  left : distance c b = distance a b - 1
  low : min a.toInt b.toInt ≤ c.toInt
  high : c.toInt ≤ max a.toInt b.toInt

/-- Only the difference can overflow, since the sum lies between two coordinates. -/
theorem closer_stepTowards (h : InReach a b) : Succeeds (Closer a b) (stepTowards a b) := by
  have hway : Succeeds (fun way => way.toInt = b.toInt - a.toInt) (difference a b) := succeeds_ofInt h.1 h.2
  refine hway.bind fun way heq => ?_
  obtain ⟨hgone, hleft, hlow, hhigh⟩ := add_sign_sub a.toInt b.toInt
  have ha := And.intro (Int32.le_toInt a) (Int32.toInt_lt a)
  have hb := And.intro (Int32.le_toInt b) (Int32.toInt_lt b)
  have hsum : Succeeds (fun c => c.toInt = a.toInt + (b.toInt - a.toInt).sign) (shift a way.toInt.sign) := by
    rw [heq]
    exact succeeds_ofInt (by omega) (by omega)
  refine hsum.mono fun c hc => ?_
  rw [← hc] at hgone hleft hlow hhigh
  exact ⟨hgone, hleft, hlow, hhigh⟩

/-- A coordinate between two that are covered is covered. -/
theorem Closer.covers {bound : UInt32} (h : Closer a b c) (ha : Extent.covers bound a = true)
    (hb : Extent.covers bound b = true) : Extent.covers bound c = true := by
  have hlow := h.low
  have hhigh := h.high
  simp only [Extent.covers, Bool.and_eq_true, decide_eq_true_eq] at ha hb ⊢
  omega

/-- From a coordinate in between the difference is smaller. -/
theorem Closer.inReach (h : Closer a b c) (hreach : InReach a b) : InReach c b := by
  have hlow := h.low
  have hhigh := h.high
  obtain ⟨hmin, hmax⟩ := hreach
  unfold InReach
  omega

/-- Between the coordinates of a box there is always a way. -/
theorem inReach_of_covers {bound : UInt32} (ha : Extent.covers bound a = true) (hb : Extent.covers bound b = true) :
    InReach a b := by
  have hhigh := Int32.toInt_lt a
  have hhigh' := Int32.toInt_lt b
  simp only [Extent.covers, Bool.and_eq_true, decide_eq_true_eq] at ha hb
  unfold InReach
  omega

theorem distance_lt_of_covers {bound : UInt32} (ha : Extent.covers bound a = true)
    (hb : Extent.covers bound b = true) : distance a b < bound.toNat := by
  simp only [Extent.covers, Bool.and_eq_true, decide_eq_true_eq] at ha hb
  unfold distance
  omega

end Coordinate

namespace Cube

variable {a b c n goal : Cube}

/-! ## The metric -/

theorem ext_toInt (hx : a.x.toInt = b.x.toInt) (hy : a.y.toInt = b.y.toInt) (hz : a.z.toInt = b.z.toInt) :
    a = b := by
  cases a
  cases b
  simp only [Int32.toInt_inj] at hx hy hz
  simp [hx, hy, hz]

theorem distance_comm (a b : Cube) : a.distance b = b.distance a := by
  simp only [distance, Coordinate.distance_comm a.x, Coordinate.distance_comm a.y, Coordinate.distance_comm a.z]

theorem distance_self (a : Cube) : a.distance a = 0 := by
  simp [distance, Coordinate.distance]

theorem eq_of_distance_eq_zero (h : a.distance b = 0) : a = b := by
  simp only [distance, Coordinate.distance] at h
  apply ext_toInt <;> omega

theorem distance_triangle (a b c : Cube) : a.distance c ≤ a.distance b + b.distance c := by
  have hx := Coordinate.distance_triangle a.x b.x c.x
  have hy := Coordinate.distance_triangle a.y b.y c.y
  have hz := Coordinate.distance_triangle a.z b.z c.z
  unfold distance
  omega

/-! ## Neighbours -/

theorem shifted_eq_ok_iff {o : Offset} :
    c.shifted o = .ok n ↔
      n.x.toInt = c.x.toInt + o.dx ∧ n.y.toInt = c.y.toInt + o.dy ∧ n.z.toInt = c.z.toInt + o.dz := by
  constructor
  · intro h
    obtain ⟨x, hx, h⟩ := bind_eq_ok h
    obtain ⟨y, hy, h⟩ := bind_eq_ok h
    obtain ⟨z, hz, h⟩ := bind_eq_ok h
    cases h
    exact ⟨Coordinate.shift_eq_ok_iff.mp hx, Coordinate.shift_eq_ok_iff.mp hy, Coordinate.shift_eq_ok_iff.mp hz⟩
  · rintro ⟨hx, hy, hz⟩
    rw [shifted, Coordinate.shift_eq_ok_iff.mpr hx, Coordinate.shift_eq_ok_iff.mpr hy,
      Coordinate.shift_eq_ok_iff.mpr hz]
    rfl

/-- The directions are those that lead at most one on along each axis, but not back to where one is. -/
theorem mem_all_iff {o : Offset} :
    o ∈ Offset.all ↔
      (-1 ≤ o.dx ∧ o.dx ≤ 1) ∧ (-1 ≤ o.dy ∧ o.dy ≤ 1) ∧ (-1 ≤ o.dz ∧ o.dz ≤ 1) ∧
        ¬(o.dx = 0 ∧ o.dy = 0 ∧ o.dz = 0) := by
  have hrange : ∀ d : Int, d ∈ [-1, 0, 1] ↔ -1 ≤ d ∧ d ≤ 1 := by
    intro d
    simp only [List.mem_cons, List.not_mem_nil, or_false]
    omega
  obtain ⟨dx, dy, dz⟩ := o
  simp only [Offset.all, List.mem_flatMap, List.mem_filterMap, hrange]
  constructor
  · rintro ⟨dx', hx, dy', hy, dz', hz, h⟩
    split at h
    · cases h
    · cases h
      exact ⟨hx, hy, hz, ‹_›⟩
  · rintro ⟨hx, hy, hz, hne⟩
    exact ⟨dx, hx, dy, hy, dz, hz, if_neg hne⟩

/-- A cube with room has all its neighbours. -/
theorem exists_neighbours {size : Extent} (h : c.HasRoom size) : ∃ ns, c.neighbours = .ok ns := by
  refine exists_mapM fun o ho => ?_
  obtain ⟨n, hn, -⟩ := (succeeds_shifted h ho).exists_ok
  exact ⟨n, hn⟩

/-- **The neighbours of a cube are the cubes at distance one.** -/
theorem mem_neighbours_iff {ns : List Cube} (h : c.neighbours = .ok ns) : n ∈ ns ↔ c.distance n = 1 := by
  rw [mem_iff_of_mapM h]
  unfold distance Coordinate.distance
  constructor
  · rintro ⟨o, ho, hn⟩
    have hoffset := mem_all_iff.mp ho
    have hcoordinates := shifted_eq_ok_iff.mp hn
    omega
  · intro hone
    -- the direction is the difference of the two cubes
    refine ⟨⟨n.x.toInt - c.x.toInt, n.y.toInt - c.y.toInt, n.z.toInt - c.z.toInt⟩, ?_, ?_⟩
    · rw [mem_all_iff]
      dsimp only
      omega
    · rw [shifted_eq_ok_iff]
      dsimp only
      omega

/-! ## Steps -/

/-- The differences of two cubes can be computed. -/
def InReach (a b : Cube) : Prop :=
  Coordinate.InReach a.x b.x ∧ Coordinate.InReach a.y b.y ∧ Coordinate.InReach a.z b.z

/-- **A step towards a cube** leads to a neighbour that is closer by one, and stays in every box that holds both. -/
theorem closer_stepTowards (h : c.InReach goal) :
    Succeeds (fun n => c.distance n = min 1 (c.distance goal) ∧ n.distance goal = c.distance goal - 1 ∧
      ∀ size : Extent, size.contains c = true → size.contains goal = true → size.contains n = true)
      (c.stepTowards goal) := by
  refine (Coordinate.closer_stepTowards h.1).bind fun x hx => ?_
  refine (Coordinate.closer_stepTowards h.2.1).bind fun y hy => ?_
  refine (Coordinate.closer_stepTowards h.2.2).bind fun z hz => ⟨?_, ?_, ?_⟩
  · simp only [distance, hx.gone, hy.gone, hz.gone]
    omega
  · simp only [distance, hx.left, hy.left, hz.left]
    omega
  · intro size hc hgoal
    rw [Extent.contains_iff] at hc hgoal ⊢
    exact ⟨hx.covers hc.1 hgoal.1, hy.covers hc.2.1 hgoal.2.1, hz.covers hc.2.2 hgoal.2.2⟩

/-- On the way to a cube its differences can always be computed. -/
theorem inReach_stepTowards (h : c.InReach goal) (hstep : c.stepTowards goal = .ok n) : n.InReach goal := by
  obtain ⟨x, hx, hstep⟩ := bind_eq_ok hstep
  obtain ⟨y, hy, hstep⟩ := bind_eq_ok hstep
  obtain ⟨z, hz, hstep⟩ := bind_eq_ok hstep
  cases hstep
  exact ⟨((Coordinate.closer_stepTowards h.1).of_ok hx).inReach h.1,
    ((Coordinate.closer_stepTowards h.2.1).of_ok hy).inReach h.2.1,
    ((Coordinate.closer_stepTowards h.2.2).of_ok hz).inReach h.2.2⟩

end Cube

namespace Extent

variable {size : Extent} {a b origin c : Cube}

theorem inReach_of_contains (ha : size.contains a = true) (hb : size.contains b = true) : a.InReach b := by
  rw [contains_iff] at ha hb
  exact ⟨Coordinate.inReach_of_covers ha.1 hb.1, Coordinate.inReach_of_covers ha.2.1 hb.2.1,
    Coordinate.inReach_of_covers ha.2.2 hb.2.2⟩

/-- The largest extent of a world along an axis. -/
def diameter (size : Extent) : Nat :=
  max (max size.x.toNat size.y.toNat) size.z.toNat

theorem distance_lt_diameter (ha : size.contains a = true) (hb : size.contains b = true) :
    a.distance b < size.diameter := by
  rw [contains_iff] at ha hb
  have hx := Coordinate.distance_lt_of_covers ha.1 hb.1
  have hy := Coordinate.distance_lt_of_covers ha.2.1 hb.2.1
  have hz := Coordinate.distance_lt_of_covers ha.2.2 hb.2.2
  unfold Cube.distance diameter
  omega

/-- **Every cube of a world is reached in the world**: on the way to it from another, the last cube is one of the
world, too. -/
theorem exists_closer {k : Nat} (horigin : size.contains origin = true) (hc : size.contains c = true)
    (hdistance : origin.distance c = k + 1) :
    ∃ b, size.contains b = true ∧ origin.distance b = k ∧ b.distance c = 1 := by
  obtain ⟨b, -, hgone, hleft, hinside⟩ := (Cube.closer_stepTowards (inReach_of_contains hc horigin)).exists_ok
  rw [Cube.distance_comm c origin, hdistance] at hgone hleft
  refine ⟨b, hinside size hc horigin, ?_, ?_⟩
  · rw [Cube.distance_comm, hleft, Nat.add_sub_cancel]
  · rw [Cube.distance_comm, hgone]
    omega

end Extent

end TaskScript
