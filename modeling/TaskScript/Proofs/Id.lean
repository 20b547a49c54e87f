import TaskScript.Id

/-!
# `Proofs.Id`: numbers that are counted up

Names, ticks and the events of a tick are numbered by `successor`, which stops at the largest number. Until then
the numbers are those of a count: `ordinal n` is the number that comes after `n` others.

## Contents
- `le_successor`, `toNat_successor`, `eq_largest_of_successor_le`: **one step**.
- `ordinal`, `toNat_ordinal`, `ordinal_lt`: **many steps**.
-/

namespace TaskScript

/-- The largest number is its own successor, so numbers need not grow, but they never shrink. -/
theorem le_successor (n : UInt64) : n ≤ successor n := by
  unfold successor
  split
  · exact UInt64.le_refl n
  · rename_i hn
    rw [UInt64.le_iff_toNat_le, UInt64.toNat_add]
    have hlt := UInt64.toNat_lt n
    have hne : n.toNat ≠ 18446744073709551615 := fun h => hn (UInt64.toNat_inj.mp h)
    have hone : (1 : UInt64).toNat = 1 := rfl
    omega

/-- Up to the largest number, successors count. -/
theorem toNat_successor {n : UInt64} (h : n.toNat + 1 < 18446744073709551616) :
    (successor n).toNat = n.toNat + 1 := by
  have hne : n ≠ 18446744073709551615 := by
    intro heq
    rw [heq] at h
    exact absurd h (by decide)
  have hone : (1 : UInt64).toNat = 1 := rfl
  rw [successor, if_neg hne, UInt64.toNat_add]
  omega

/-- Only the largest number has no successor. -/
theorem eq_largest_of_successor_le {n : UInt64} (h : successor n ≤ n) : n.toNat = 18446744073709551615 := by
  have hlt := UInt64.toNat_lt n
  by_cases hroom : n.toNat + 1 < 18446744073709551616
  · rw [UInt64.le_iff_toNat_le, toNat_successor hroom] at h
    omega
  · omega

/-- The number that comes after `n` others. -/
def ordinal : Nat → UInt64
  | 0 => 0
  | n + 1 => successor (ordinal n)

theorem toNat_ordinal {n : Nat} (h : n < 18446744073709551616) : (ordinal n).toNat = n := by
  induction n with
  | zero => rfl
  | succ n ih =>
    have hn := ih (by omega)
    rw [ordinal, toNat_successor (by omega), hn]

/-- Counting does not repeat a number as long as the numbers last. -/
theorem ordinal_lt {n m : Nat} (h : n < m) (hm : m < 18446744073709551616) : ordinal n < ordinal m := by
  rw [UInt64.lt_iff_toNat_lt, toNat_ordinal (by omega), toNat_ordinal hm]
  exact h

end TaskScript
