import TaskScript.Config
import TaskScript.Proofs.Except
import TaskScript.Scan

/-!
# `Proofs.Cube.Room`: cubes that leave room for arithmetic

Coordinates are computed before it is asked whether the result belongs to the world. A cube has room in a world of a
given size (`Cube.HasRoom`) if nothing goes wrong by that: all its neighbours have coordinates, and it can be walked to
from every cube of the world.

If the world is no larger than the coordinates reach, its own cubes have room (`hasRoom_of_contains`). So a search of
the world succeeds, since it computes nothing but neighbours of its cubes, and so does a step from one of its cubes.

## Contents
- `Coordinate.HasRoom`, `Cube.HasRoom`, `Extent.Roomy`.
- `succeeds_shifted`, `succeeds_findNeighbour`, `succeeds_stepTowards`: **neighbours and steps**.
- `Search.InWorld`, `succeeds_scan`, `succeeds_nearest?`: **searches**.
-/

namespace TaskScript

/-! ## Coordinates -/

namespace Coordinate

/-- A coordinate with one on either side of it, to which there is a way from every coordinate from zero up to an
exclusive bound. -/
def HasRoom (bound : UInt32) (c : Int32) : Prop :=
  -2147483648 < c.toInt ∧ c.toInt < 2147483647 ∧ (bound.toNat : Int) - 2147483649 ≤ c.toInt

instance (bound : UInt32) (c : Int32) : Decidable (HasRoom bound c) :=
  inferInstanceAs (Decidable (_ ∧ _ ∧ _))

variable {bound : UInt32} {a c : Int32} {cause : Overflow}

theorem hasRoom_of_covers (hbound : bound.toNat ≤ 2147483647) (h : Extent.covers bound c = true) :
    HasRoom bound c := by
  rw [Extent.covers, Bool.and_eq_true, decide_eq_true_eq, decide_eq_true_eq] at h
  unfold HasRoom
  omega

theorem succeeds_ofInt {n : Int} (hlow : -2147483648 ≤ n) (hhigh : n ≤ 2147483647) :
    Succeeds (fun c => c.toInt = n) (ofInt cause n) := by
  rw [ofInt, if_pos ⟨hlow, hhigh⟩]
  exact Int32.toInt_ofInt_of_le hlow (Int.lt_add_one_of_le hhigh)

theorem succeeds_shift (h : HasRoom bound c) {d : Int} (hd : -1 ≤ d ∧ d ≤ 1) :
    Succeeds (fun _ => True) (shift c d) := by
  obtain ⟨hlow, hhigh, -⟩ := h
  have hsum : Succeeds (fun c' => c'.toInt = c.toInt + d) (shift c d) := succeeds_ofInt (by omega) (by omega)
  exact hsum.mono fun _ _ => trivial

/-- The difference is taken first, and it has to be a coordinate too. -/
theorem succeeds_stepTowards (hbound : bound.toNat ≤ 2147483647) (ha : Extent.covers bound a = true)
    (hc : HasRoom bound c) : Succeeds (fun _ => True) (stepTowards a c) := by
  have hroom := hasRoom_of_covers hbound ha
  rw [Extent.covers, Bool.and_eq_true, decide_eq_true_eq, decide_eq_true_eq] at ha
  obtain ⟨-, hhigh, hreach⟩ := hc
  have hway : Succeeds (fun way => way.toInt = c.toInt - a.toInt) (difference a c) :=
    succeeds_ofInt (by omega) (by omega)
  refine hway.bind fun way _ => succeeds_shift hroom ?_
  rcases Int.lt_trichotomy way.toInt 0 with h | h | h
  · rw [Int.sign_eq_neg_one_of_neg h]
    decide
  · rw [h]
    decide
  · rw [Int.sign_eq_one_of_pos h]
    decide

end Coordinate

/-! ## Cubes -/

/-- A cube that leaves room for arithmetic in a world of a given size. -/
def Cube.HasRoom (size : Extent) (c : Cube) : Prop :=
  Coordinate.HasRoom size.x c.x ∧ Coordinate.HasRoom size.y c.y ∧ Coordinate.HasRoom size.z c.z

instance (size : Extent) (c : Cube) : Decidable (c.HasRoom size) :=
  inferInstanceAs (Decidable (_ ∧ _ ∧ _))

/-- A world that is no larger than the coordinates reach. -/
def Extent.Roomy (size : Extent) : Prop :=
  size.x.toNat ≤ 2147483647 ∧ size.y.toNat ≤ 2147483647 ∧ size.z.toNat ≤ 2147483647

instance (size : Extent) : Decidable size.Roomy :=
  inferInstanceAs (Decidable (_ ∧ _ ∧ _))

variable {size : Extent} {c goal : Cube}

theorem Extent.contains_iff :
    size.contains c = true ↔
      covers size.x c.x = true ∧ covers size.y c.y = true ∧ covers size.z c.z = true := by
  rw [contains, Bool.and_eq_true, Bool.and_eq_true, and_assoc]

namespace Cube

/-- **The cubes of the world have room.** -/
theorem hasRoom_of_contains (hsize : size.Roomy) (h : size.contains c = true) : c.HasRoom size := by
  obtain ⟨hx, hy, hz⟩ := Extent.contains_iff.mp h
  obtain ⟨hsizeX, hsizeY, hsizeZ⟩ := hsize
  exact ⟨Coordinate.hasRoom_of_covers hsizeX hx, Coordinate.hasRoom_of_covers hsizeY hy,
    Coordinate.hasRoom_of_covers hsizeZ hz⟩

/-! ## Neighbours and steps -/

/-- Directions lead one cube on along each axis. -/
theorem offset_mem_all {o : Offset} (h : o ∈ Offset.all) :
    (-1 ≤ o.dx ∧ o.dx ≤ 1) ∧ (-1 ≤ o.dy ∧ o.dy ≤ 1) ∧ (-1 ≤ o.dz ∧ o.dz ≤ 1) := by
  revert o
  decide

theorem succeeds_shifted (h : c.HasRoom size) {o : Offset} (ho : o ∈ Offset.all) :
    Succeeds (fun _ => True) (c.shifted o) := by
  obtain ⟨hx, hy, hz⟩ := h
  obtain ⟨hdx, hdy, hdz⟩ := offset_mem_all ho
  refine (Coordinate.succeeds_shift hx hdx).bind fun x _ => ?_
  refine (Coordinate.succeeds_shift hy hdy).bind fun y _ => ?_
  exact (Coordinate.succeeds_shift hz hdz).bind fun z _ => trivial

/-- **The neighbours of a cube with room can be searched.** -/
theorem succeeds_findNeighbour (h : c.HasRoom size) (p : Cube → Bool) :
    Succeeds (fun found => ∀ n, found = some n → p n = true) (c.findNeighbour p) := by
  have hgo : ∀ os : List Offset, (∀ o ∈ os, o ∈ Offset.all) →
      Succeeds (fun found => ∀ n, found = some n → p n = true) (findNeighbour.go c p os) := by
    intro os
    induction os with
    | nil => exact fun _ n hn => nomatch hn
    | cons o rest ih =>
      intro hos
      refine (succeeds_shifted h (hos o List.mem_cons_self)).bind fun n _ => ?_
      by_cases hn : p n = true
      · rw [if_pos hn]
        intro n' hn'
        cases hn'
        exact hn
      · rw [if_neg hn]
        exact ih fun o' ho' => hos o' (List.mem_cons_of_mem _ ho')
  exact hgo Offset.all fun _ => id

/-- **From a cube of the world there is a step towards every cube with room.** -/
theorem succeeds_stepTowards (hsize : size.Roomy) (hc : size.contains c = true) (hgoal : goal.HasRoom size) :
    Succeeds (fun _ => True) (c.stepTowards goal) := by
  obtain ⟨hsizeX, hsizeY, hsizeZ⟩ := hsize
  obtain ⟨hcx, hcy, hcz⟩ := Extent.contains_iff.mp hc
  obtain ⟨hx, hy, hz⟩ := hgoal
  refine (Coordinate.succeeds_stepTowards hsizeX hcx hx).bind fun x _ => ?_
  refine (Coordinate.succeeds_stepTowards hsizeY hcy hy).bind fun y _ => ?_
  exact (Coordinate.succeeds_stepTowards hsizeZ hcz hz).bind fun z _ => trivial

end Cube

/-! ## Searches -/

namespace Search

variable {inBounds p : Cube → Bool} {s : Search}

/-- The next shell of a search lies in the world. -/
def InWorld (inBounds : Cube → Bool) (s : Search) : Prop :=
  ∀ c ∈ s.next, inBounds c = true

theorem InWorld.discover (h : s.InWorld inBounds) (c : Cube) : (s.discover inBounds c).InWorld inBounds := by
  unfold Search.discover
  split
  · rename_i hnew
    intro c' hc'
    rcases List.mem_cons.mp hc' with rfl | hc'
    · exact (Bool.and_eq_true_iff.mp hnew).1
    · exact h c' hc'
  · exact h

theorem InWorld.expand (h : s.InWorld inBounds) (hc : c.HasRoom size) :
    Succeeds (InWorld inBounds) (s.expand inBounds c) := by
  refine endsIn_foldlM (fun s₁ o ho hs₁ => ?_) h
  exact (Cube.succeeds_shifted hc ho).bind fun n _ => hs₁.discover n

variable (hroom : ∀ c, inBounds c = true → c.HasRoom size)

include hroom

/-- A shell of the world is tested to its end, and what it finds is of the world. -/
theorem InWorld.sweep {cubes : List Cube} (hcubes : ∀ c ∈ cubes, inBounds c = true) (h : s.InWorld inBounds) :
    Succeeds (fun result => (∀ c, result.1 = some c → inBounds c = true) ∧ result.2.InWorld inBounds)
      (sweep inBounds p cubes s) := by
  induction cubes generalizing s with
  | nil => exact ⟨fun c hc => (nomatch hc), h⟩
  | cons c rest ih =>
    have hc := hcubes c List.mem_cons_self
    unfold Search.sweep
    dsimp only
    split
    · refine ⟨fun c' hc' => ?_, h⟩
      cases hc'
      exact hc
    · have htested : InWorld inBounds { s with tested := c :: s.tested } := h
      refine (htested.expand (hroom c hc)).bind fun s₁ hs₁ => ?_
      exact ih (fun c' hc' => hcubes c' (List.mem_cons_of_mem _ hc')) hs₁

theorem succeeds_shells (n : Nat) {cubes : List Cube} (hcubes : ∀ c ∈ cubes, inBounds c = true) (s : Search) :
    Succeeds (fun result => ∀ c, result.1 = some c → inBounds c = true) (shells inBounds p n cubes s) := by
  induction n generalizing cubes s with
  | zero => exact fun c hc => nomatch hc
  | succ n ih =>
    have hstart : InWorld inBounds { s with next := [] } := List.forall_mem_nil _
    refine (hstart.sweep hroom hcubes).bind fun result hresult => ?_
    obtain ⟨found?, s₁⟩ := result
    obtain ⟨hfound, hnext⟩ := hresult
    dsimp only
    split
    · exact hfound
    · exact ih (fun c hc => hnext c (List.mem_reverse.mp hc)) s₁

/-- **A search of a world whose cubes have room succeeds**, and what it finds is of the world. -/
theorem succeeds_nearest? (origin : Cube) :
    Succeeds (fun found => ∀ c, found = some c → inBounds c = true) (nearest? inBounds p origin) := by
  have hscan : Succeeds (fun result => ∀ c, result.found = some c → inBounds c = true)
      (scan inBounds p origin) := by
    unfold scan
    split
    · rename_i horigin
      have hfirst : ∀ c ∈ [origin], inBounds c = true := by
        intro c hc
        rwa [List.mem_singleton.mp hc]
      exact (succeeds_shells hroom Cube.count hfirst _).bind fun result hresult => hresult
    · exact fun c hc => nomatch hc
  exact hscan.bind fun result hresult => hresult

end Search

end TaskScript
