import Mathlib.Algebra.Order.Ring.Nat
import Mathlib.Data.Nat.Bitwise
import Mathlib.Tactic.Common
import Mathlib.Tactic.Ring

/-!
Rounding a natural number to a multiple of another, half to even, and the length of a number in
bits. Dropping low bits by looking at the bits themselves is this rounding by a power of two.
-/

namespace Support

def halfEven (n d : Nat) : Nat :=
  if 2 * (n % d) < d then n / d
  else if d < 2 * (n % d) then n / d + 1
  else n / d + n / d % 2

def bitLength (n : Nat) : Nat := if n = 0 then 0 else n.log2 + 1

theorem bitLength_le {n k : Nat} : bitLength n ≤ k ↔ n < 2 ^ k := by
  rw [bitLength]
  split
  · rename_i zero
    simp [zero]
  · rename_i nonzero
    rw [Nat.succ_le_iff, Nat.log2_lt nonzero]

theorem lt_bitLength {n k : Nat} : k < bitLength n ↔ 2 ^ k ≤ n := by
  rw [← Nat.not_le, bitLength_le, Nat.not_lt]

theorem bitLength_pos {n : Nat} (nonzero : n ≠ 0) : 0 < bitLength n := by
  rw [lt_bitLength]
  omega

theorem bitLength_eq {n k : Nat} (low : 2 ^ k ≤ n) (high : n < 2 ^ (k + 1)) :
    bitLength n = k + 1 :=
  Nat.le_antisymm (bitLength_le.mpr high) (lt_bitLength.mpr low)

theorem exists_bitLength {n : Nat} (nonzero : n ≠ 0) :
    ∃ b, bitLength n = b + 1 ∧ 2 ^ b ≤ n ∧ n < 2 ^ (b + 1) := by
  obtain ⟨b, bits⟩ : ∃ b, bitLength n = b + 1 := ⟨_, (Nat.succ_pred (bitLength_pos nonzero).ne').symm⟩
  exact ⟨b, bits, lt_bitLength.mp (by omega), bitLength_le.mp (by omega)⟩

theorem bitLength_mul_two_pow {n : Nat} (nonzero : n ≠ 0) (k : Nat) :
    bitLength (n * 2 ^ k) = bitLength n + k := by
  obtain ⟨b, bits, low, high⟩ := exists_bitLength nonzero
  have scaled : bitLength (n * 2 ^ k) = (b + k) + 1 := by
    apply bitLength_eq
    · rw [Nat.pow_add]
      exact Nat.mul_le_mul_right _ low
    · rw [Nat.add_right_comm, Nat.pow_add]
      exact Nat.mul_lt_mul_of_pos_right high (Nat.two_pow_pos k)
  omega

theorem halfEven_mul (n : Nat) {d : Nat} (positive : 0 < d) : halfEven (n * d) d = n := by
  rw [halfEven, Nat.mul_mod_left, if_pos (by omega), Nat.mul_div_cancel _ positive]

theorem halfEven_double {n d : Nat} (half : Bool) (positive : 0 < d)
    (split_ : n % (2 * d) = n % d + d * half.toNat) :
    (if half && (decide (n % d ≠ 0) || decide (n / (2 * d) % 2 = 1)) then n / (2 * d) + 1
      else n / (2 * d)) = halfEven n (2 * d) := by
  have below : n % d < d := Nat.mod_lt _ positive
  cases half
  · simp only [Bool.toNat_false, Nat.mul_zero, Nat.add_zero] at split_
    have down : halfEven n (2 * d) = n / (2 * d) := by rw [halfEven, if_pos (by omega)]
    simp [down]
  · simp only [Bool.toNat_true, Nat.mul_one] at split_
    by_cases tie : n % d = 0
    · have even : halfEven n (2 * d) = n / (2 * d) + n / (2 * d) % 2 := by
        rw [halfEven, if_neg (by omega), if_neg (by omega)]
      rcases Nat.mod_two_eq_zero_or_one (n / (2 * d)) with zero | one
      · simp [even, tie, zero]
      · simp [even, tie, one]
    · have up : halfEven n (2 * d) = n / (2 * d) + 1 := by
        rw [halfEven, if_neg (by omega), if_pos (by omega)]
      simp [up, tie]

theorem halfEven_testBit (n k : Nat) :
    (if n.testBit k && (decide (n % 2 ^ k ≠ 0) || decide (n / 2 ^ (k + 1) % 2 = 1)) then
        n / 2 ^ (k + 1) + 1
      else n / 2 ^ (k + 1)) = halfEven n (2 ^ (k + 1)) := by
  have double : 2 ^ (k + 1) = 2 * 2 ^ k := by rw [Nat.pow_succ, Nat.mul_comm]
  rw [double]
  apply halfEven_double _ (Nat.two_pow_pos k)
  rw [Nat.mul_comm 2, Nat.mod_mul, Nat.testBit_eq_decide_div_mod_eq]
  rcases Nat.mod_two_eq_zero_or_one (n / 2 ^ k) with even | odd
  · simp [even]
  · simp [odd]

theorem le_halfEven (n d : Nat) : n / d ≤ halfEven n d := by
  rw [halfEven]
  split
  · exact Nat.le_refl _
  · split <;> omega

theorem halfEven_le (n d : Nat) : halfEven n d ≤ n / d + 1 := by
  rw [halfEven]
  split
  · omega
  · split <;> omega

theorem halfEven_bits {n p s : Nat} (bits : bitLength n = p + 1 + s) :
    2 ^ p ≤ halfEven n (2 ^ s) ∧ halfEven n (2 ^ s) ≤ 2 ^ (p + 1) := by
  have low : 2 ^ (p + s) ≤ n := lt_bitLength.mp (by omega)
  have high : n < 2 ^ (p + 1 + s) := bitLength_le.mp (by omega)
  have positive := Nat.two_pow_pos s
  constructor
  · refine Nat.le_trans ?_ (le_halfEven n (2 ^ s))
    rw [Nat.le_div_iff_mul_le positive, ← Nat.pow_add]
    exact low
  · refine Nat.le_trans (halfEven_le n (2 ^ s)) ?_
    rw [Nat.succ_le_iff, Nat.div_lt_iff_lt_mul positive, ← Nat.pow_add]
    exact high

end Support
