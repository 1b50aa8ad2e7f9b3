import Mathlib.Data.Nat.Digits.Lemmas
import Protowire.Pb.BigMessageCore
import Protowire.Support.Logarithm

/-!
The digit count of a power of two. The code multiplies by the first 64 bits of the logarithm. That
this is never one too few needs that no fraction with a 32-bit denominator lies between those bits
and the logarithm itself.
-/

namespace Protowire.Pb.Native

open Support

theorem towerDigits_low : towerDigits 0 58 = (18975658597342430944, 5553023288523357113) := by
  decide +kernel

theorem towerDigits_high : towerDigits 1 61 = (18515570342432075823, 44424186308186857039) := by
  decide +kernel

/-- 1054128743/3501739887 and 579001193/1923400330 are neighbours with the logarithm between them,
so a fraction between them has a denominator past 32 bits. -/
theorem no_fraction_between {p n : Nat} (small : p < 2 ^ 32)
    (above : p * 5553023288523357132 < n * 2 ^ 64)
    (below : n * 2 ^ 67 ≤ p * 44424186308186857059) : False := by
  have left : 1054128743 * p + 1 ≤ 3501739887 * n := by omega
  have right : 1923400330 * n + 1 ≤ 579001193 * p := by omega
  omega

/-- The number of decimal digits of `2 ^ p` is computed exactly, for every precision. -/
theorem pow2Digits_eq (p : UInt32) :
    pow2Digits p.toNat = (Nat.digits 10 (2 ^ p.toNat)).length := by
  have small := p.toNat_lt
  generalize p.toNat = p at *
  obtain ⟨n, count⟩ : ∃ n, pow2Digits p = n + 1 := ⟨_, rfl⟩
  have product : n * 2 ^ 64 ≤ p * 5553023288523357132 ∧
      p * 5553023288523357132 < (n + 1) * 2 ^ 64 := by
    rw [pow2Digits] at count
    omega
  have low : 10 ^ n ≤ 2 ^ p := by
    refine ten_pow_le (k := 58) ?_ ?_
    · rw [towerDigits_low]; decide
    · rw [towerDigits_low]; exact product.1
  have high : 2 ^ p < 10 ^ (n + 1) := by
    by_contra reached
    have bound := le_of_ten_pow_le (k := 61) (by rw [towerDigits_high]; decide) (Nat.le_of_not_lt reached)
    rw [towerDigits_high] at bound
    exact no_fraction_between small product.2 bound
  rw [Nat.length_digits 10 _ (by decide) (Nat.two_pow_pos p).ne', count, Nat.log_eq_of_pow_le_of_lt_pow low high]

end Protowire.Pb.Native
