import Mathlib.Algebra.Order.Ring.Int
import Mathlib.Tactic.Common
import Mathlib.Tactic.Positivity

/-!
Two's complement: an integer as the bits of an unsigned type, and back.
-/

namespace Support

def asUnsigned (bits : Nat) (v : Int) : Nat := (v % 2 ^ bits).toNat

def asSigned (bits : Nat) (v : Int) : Int := v.bmod (2 ^ bits)

def FitsSigned (bits : Nat) (v : Int) : Prop := -2 ^ (bits - 1) ≤ v ∧ v < 2 ^ (bits - 1)

instance (bits : Nat) (v : Int) : Decidable (FitsSigned bits v) :=
  inferInstanceAs (Decidable (_ ∧ _))

theorem asUnsigned_cast (bits : Nat) (v : Int) : (asUnsigned bits v : Int) = v % 2 ^ bits :=
  Int.toNat_of_nonneg (Int.emod_nonneg _ (by positivity))

theorem asUnsigned_lt (bits : Nat) (v : Int) : asUnsigned bits v < 2 ^ bits := by
  have below : v % 2 ^ bits < 2 ^ bits := Int.emod_lt_of_pos _ (by positivity)
  have cast := asUnsigned_cast bits v
  have power : ((2 ^ bits : Nat) : Int) = 2 ^ bits := by simp
  omega

theorem asSigned_asUnsigned {bits wide : Nat} (positive : 0 < bits) (narrower : bits ≤ wide)
    {v : Int} (fits : FitsSigned bits v) : asSigned bits (asUnsigned wide v) = v := by
  obtain ⟨low, high⟩ := fits
  obtain ⟨half, rfl⟩ : ∃ half, bits = half + 1 := ⟨bits - 1, by omega⟩
  have power : ((2 ^ (half + 1) : Nat) : Int) = 2 * 2 ^ half := by
    rw [Nat.pow_succ, Nat.mul_comm]
    simp
  rw [Nat.add_sub_cancel] at low high
  rw [asSigned, asUnsigned_cast, Int.bmod_eq_iff (Nat.two_pow_pos _)]
  refine ⟨by omega, by omega, ?_⟩
  have divides : (2 : Int) ^ (half + 1) ∣ 2 ^ wide := pow_dvd_pow 2 narrower
  have multiple : (2 : Int) ^ wide ∣ v - v % 2 ^ wide := Int.dvd_self_sub_emod
  simpa using divides.trans multiple

theorem asUnsigned_asSigned {bits n : Nat} (small : n < 2 ^ bits) :
    asUnsigned bits (asSigned bits n) = n := by
  have power : ((2 ^ bits : Nat) : Int) = 2 ^ bits := by simp
  rw [asUnsigned, asSigned, ← power, Int.bmod_emod, ← Int.natCast_emod, Nat.mod_eq_of_lt small,
    Int.toNat_natCast]

theorem asSigned_self {bits : Nat} (positive : 0 < bits) {v : Int} (fits : FitsSigned bits v) :
    asSigned bits v = v := by
  obtain ⟨low, high⟩ := fits
  obtain ⟨half, rfl⟩ : ∃ half, bits = half + 1 := ⟨bits - 1, by omega⟩
  have power : ((2 ^ (half + 1) : Nat) : Int) = 2 * 2 ^ half := by
    rw [Nat.pow_succ, Nat.mul_comm]
    simp
  rw [Nat.add_sub_cancel] at low high
  exact Int.bmod_eq_of_le (by omega) (by omega)

theorem asSigned_of_lt {bits n : Nat} (positive : 0 < bits) (small : n < 2 ^ bits) :
    asSigned bits n = if n < 2 ^ (bits - 1) then (n : Int) else n - 2 ^ bits := by
  obtain ⟨half, rfl⟩ : ∃ half, bits = half + 1 := ⟨bits - 1, by omega⟩
  have power : (2 : Nat) ^ (half + 1) = 2 * 2 ^ half := by rw [Nat.pow_succ, Nat.mul_comm]
  have cast : (2 : Int) ^ (half + 1) = ((2 * 2 ^ half : Nat) : Int) := by
    rw [← power]
    simp
  rw [asSigned, Nat.add_sub_cancel, cast, power]
  rw [power] at small
  generalize 2 ^ half = h at *
  split
  · exact Int.bmod_eq_of_le (by omega) (by omega)
  · rw [Int.bmod_eq_iff (by omega)]
    exact ⟨by omega, by omega, ⟨-1, by omega⟩⟩

end Support
