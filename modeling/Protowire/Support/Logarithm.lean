import Mathlib.Tactic.Common
import Mathlib.Tactic.Ring

/-!
The decimal logarithm of two in whole numbers. A power of two is squared again and again with its
twenty leading digits kept, once cut and once rounded up, which bounds `2 ^ 2 ^ k` by powers of ten.
-/

namespace Support

def squared (up : Nat) (n : Nat × Nat) : Nat × Nat :=
  let s := if n.1 * n.1 < 10 ^ 39 then 19 else 20
  (n.1 * n.1 / 10 ^ s + up, 2 * n.2 + s)

def towerDigits (up k : Nat) : Nat × Nat := (squared up)^[k] (2 ^ 64, 0)

theorem towerDigits_succ (up k : Nat) : towerDigits up (k + 1) = squared up (towerDigits up k) :=
  Function.iterate_succ_apply' ..

theorem tower_succ (k : Nat) : 2 ^ 2 ^ (k + 1 + 6) = 2 ^ 2 ^ (k + 6) * 2 ^ 2 ^ (k + 6) := by
  rw [← Nat.pow_add, ← Nat.two_mul, Nat.add_right_comm, Nat.pow_succ (n := 2) (m := k + 6), Nat.mul_comm]

theorem towerDigits_le (k : Nat) :
    (towerDigits 0 k).1 * 10 ^ (towerDigits 0 k).2 ≤ 2 ^ 2 ^ (k + 6) := by
  induction k with
  | zero => exact Nat.le_refl _
  | succ k ih =>
    rw [towerDigits_succ, tower_succ, squared]
    generalize towerDigits 0 k = n at *
    generalize (if n.1 * n.1 < 10 ^ 39 then 19 else 20) = s
    calc (n.1 * n.1 / 10 ^ s + 0) * 10 ^ (2 * n.2 + s)
        = n.1 * n.1 / 10 ^ s * 10 ^ s * 10 ^ (2 * n.2) := by ring
      _ ≤ n.1 * n.1 * 10 ^ (2 * n.2) := Nat.mul_le_mul_right _ (Nat.div_mul_le_self ..)
      _ = n.1 * 10 ^ n.2 * (n.1 * 10 ^ n.2) := by ring
      _ ≤ _ := Nat.mul_le_mul ih ih

theorem le_towerDigits (k : Nat) :
    2 ^ 2 ^ (k + 6) ≤ (towerDigits 1 k).1 * 10 ^ (towerDigits 1 k).2 := by
  induction k with
  | zero => exact Nat.le_refl _
  | succ k ih =>
    rw [towerDigits_succ, tower_succ, squared]
    generalize towerDigits 1 k = n at *
    generalize (if n.1 * n.1 < 10 ^ 39 then 19 else 20) = s
    have up : n.1 * n.1 ≤ (n.1 * n.1 / 10 ^ s + 1) * 10 ^ s :=
      (Nat.lt_mul_of_div_lt (Nat.lt_succ_self _) (Nat.pow_pos (by decide))).le
    calc 2 ^ 2 ^ (k + 6) * 2 ^ 2 ^ (k + 6)
        ≤ n.1 * 10 ^ n.2 * (n.1 * 10 ^ n.2) := Nat.mul_le_mul ih ih
      _ = n.1 * n.1 * 10 ^ (2 * n.2) := by ring
      _ ≤ (n.1 * n.1 / 10 ^ s + 1) * 10 ^ s * 10 ^ (2 * n.2) := Nat.mul_le_mul_right _ up
      _ = _ := by ring

theorem ten_pow_le {k p n : Nat} (full : 10 ^ 19 ≤ (towerDigits 0 k).1)
    (low : n * 2 ^ (k + 6) ≤ p * ((towerDigits 0 k).2 + 19)) : 10 ^ n ≤ 2 ^ p := by
  have tower := towerDigits_le k
  have positive := Nat.two_pow_pos (k + 6)
  generalize towerDigits 0 k = d at *
  generalize 2 ^ (k + 6) = t at *
  have wide : 10 ^ (d.2 + 19) ≤ 2 ^ t :=
    calc 10 ^ (d.2 + 19) = 10 ^ 19 * 10 ^ d.2 := by rw [Nat.pow_add, Nat.mul_comm]
      _ ≤ d.1 * 10 ^ d.2 := Nat.mul_le_mul_right _ full
      _ ≤ 2 ^ t := tower
  rw [← Nat.pow_le_pow_iff_left positive.ne']
  calc (10 ^ n) ^ t = 10 ^ (n * t) := (Nat.pow_mul ..).symm
    _ ≤ 10 ^ (p * (d.2 + 19)) := Nat.pow_le_pow_right (by decide) low
    _ = (10 ^ (d.2 + 19)) ^ p := by rw [Nat.mul_comm, Nat.pow_mul]
    _ ≤ (2 ^ t) ^ p := Nat.pow_le_pow_left wide p
    _ = (2 ^ p) ^ t := Nat.pow_right_comm ..

theorem le_of_ten_pow_le {k p n : Nat} (full : (towerDigits 1 k).1 ≤ 10 ^ 20)
    (high : 10 ^ n ≤ 2 ^ p) : n * 2 ^ (k + 6) ≤ p * ((towerDigits 1 k).2 + 20) := by
  have tower := le_towerDigits k
  generalize towerDigits 1 k = d at *
  generalize 2 ^ (k + 6) = t at *
  have wide : 2 ^ t ≤ 10 ^ (d.2 + 20) :=
    calc 2 ^ t ≤ d.1 * 10 ^ d.2 := tower
      _ ≤ 10 ^ 20 * 10 ^ d.2 := Nat.mul_le_mul_right _ full
      _ = 10 ^ (d.2 + 20) := by rw [Nat.pow_add, Nat.mul_comm]
  rw [← Nat.pow_le_pow_iff_right (a := 10) (by decide)]
  calc 10 ^ (n * t) = (10 ^ n) ^ t := Nat.pow_mul ..
    _ ≤ (2 ^ p) ^ t := Nat.pow_le_pow_left high t
    _ = (2 ^ t) ^ p := Nat.pow_right_comm ..
    _ ≤ (10 ^ (d.2 + 20)) ^ p := Nat.pow_le_pow_left wide p
    _ = 10 ^ (p * (d.2 + 20)) := by rw [Nat.mul_comm, Nat.pow_mul]

end Support
