import Protowire.Detail.FloatConvertCore

/-!
`double` holds every `float`: widening is exact, and narrowing what was widened gives back the
`float`, unless it is a NaN, which stays a NaN.
-/

namespace Protowire

open Support

namespace Binary32

theorem ofParts_self (bits : UInt32) : ofParts (sign bits) (magnitude bits) = bits := by
  rw [ofParts, sign, magnitude, Nat.div_add_mod', UInt32.ofNat_toNat]

theorem magnitude_ofParts (bits : UInt64) {m : Nat} (bound : m < 2 ^ 31) :
    magnitude (ofParts (Binary64.sign bits) m) = m := by
  have fits : bits.toNat < 2 ^ 64 := bits.toNat_lt
  have whole : (ofParts (Binary64.sign bits) m).toNat = Binary64.sign bits * 2 ^ 31 + m := by
    apply UInt32.toNat_ofNat_of_lt'
    simp only [Binary64.sign, UInt32.size]
    omega
  rw [magnitude, whole]
  omega

theorem significand_sum (m : Nat) : (significand m).2 * 2 ^ 23 + (significand m).1 = m := by
  rw [significand]
  split <;> simp only <;> omega

theorem significand_bounds (m : Nat) :
    (significand m).1 < 2 ^ 24 ∧ ((significand m).2 = 0 ∨ 2 ^ 23 ≤ (significand m).1) := by
  rw [significand]
  split
  · exact ⟨by simp only; omega, .inl rfl⟩
  · exact ⟨by simp only; omega, .inr (by simp only; omega)⟩

theorem significand_exponent {m : Nat} (finite : m < infinity) : (significand m).2 ≤ 253 := by
  have sum := significand_sum m
  have normal := (significand_bounds m).2
  rw [infinity] at finite
  omega

end Binary32

namespace Binary64

theorem magnitude_ofParts (bits : UInt32) {m : Nat} (bound : m < 2 ^ 63) :
    magnitude (ofParts (Binary32.sign bits) m) = m := by
  have fits : bits.toNat < 2 ^ 32 := bits.toNat_lt
  have whole : (ofParts (Binary32.sign bits) m).toNat = Binary32.sign bits * 2 ^ 63 + m := by
    apply UInt64.toNat_ofNat_of_lt'
    simp only [Binary32.sign, UInt64.size]
    omega
  rw [magnitude, whole]
  omega

theorem sign_ofParts (bits : UInt32) {m : Nat} (bound : m < 2 ^ 63) :
    sign (ofParts (Binary32.sign bits) m) = Binary32.sign bits := by
  have fits : bits.toNat < 2 ^ 32 := bits.toNat_lt
  have whole : (ofParts (Binary32.sign bits) m).toNat = Binary32.sign bits * 2 ^ 63 + m := by
    apply UInt64.toNat_ofNat_of_lt'
    simp only [Binary32.sign, UInt64.size]
    omega
  rw [sign, whole]
  omega

theorem significand_normal {n e : Nat} (low : 2 ^ 52 ≤ n) (high : n < 2 ^ 53) :
    significand (e * 2 ^ 52 + n) = (n, e) := by
  rw [significand, if_neg (by omega)]
  congr 1 <;> omega

end Binary64

theorem shifted_bounds {n : Nat} (nonzero : n ≠ 0) (high : n < 2 ^ 24) :
    29 ≤ 53 - bitLength n ∧ 53 - bitLength n ≤ 52 ∧
      2 ^ 52 ≤ n * 2 ^ (53 - bitLength n) ∧ n * 2 ^ (53 - bitLength n) < 2 ^ 53 := by
  have short : bitLength n ≤ 24 := bitLength_le.mpr high
  have some_ : 0 < bitLength n := bitLength_pos nonzero
  have bits := bitLength_mul_two_pow nonzero (53 - bitLength n)
  have total : bitLength n + (53 - bitLength n) = 53 := by omega
  rw [total] at bits
  exact ⟨by omega, by omega, lt_bitLength.mp (by omega), bitLength_le.mp (by omega)⟩

theorem widenMagnitude_finite {m : Nat} (finite : m < Binary32.infinity)
    (nonzero : (Binary32.significand m).1 ≠ 0) :
    widenMagnitude m =
      ((Binary32.significand m).2 + exponentGap - (53 - bitLength (Binary32.significand m).1))
          * 2 ^ 52 +
        (Binary32.significand m).1 * 2 ^ (53 - bitLength (Binary32.significand m).1) := by
  rw [widenMagnitude, if_neg (by omega), if_neg (by omega)]
  simp only [if_neg nonzero]

theorem widenMagnitude_zero {m : Nat} (finite : m < Binary32.infinity)
    (zero : (Binary32.significand m).1 = 0) : m = 0 ∧ widenMagnitude m = 0 := by
  have sum := Binary32.significand_sum m
  have normal := (Binary32.significand_bounds m).2
  refine ⟨by omega, ?_⟩
  rw [widenMagnitude, if_neg (by omega), if_neg (by omega)]
  simp only [if_pos zero]

theorem widenMagnitude_le {m : Nat} (finite : m < Binary32.infinity) :
    widenMagnitude m ≤ largestFloat := by
  by_cases zero : (Binary32.significand m).1 = 0
  · rw [(widenMagnitude_zero finite zero).2]
    exact Nat.zero_le _
  · have bounds := Binary32.significand_bounds m
    have exponent := Binary32.significand_exponent finite
    obtain ⟨least, most, -, top⟩ := shifted_bounds zero bounds.1
    rw [widenMagnitude_finite finite zero, largestFloat]
    simp only [exponentGap]
    rcases Nat.lt_or_ge 29 (53 - bitLength (Binary32.significand m).1) with more | exact_
    · generalize 53 - bitLength (Binary32.significand m).1 = shift at *
      generalize (Binary32.significand m).1 * 2 ^ shift = n at *
      omega
    · rw [show 53 - bitLength (Binary32.significand m).1 = 29 by omega]
      omega

theorem widenMagnitude_lt (m : Nat) : widenMagnitude m < 2 ^ 63 := by
  rcases Nat.lt_trichotomy m Binary32.infinity with finite | inf | nan
  · have := widenMagnitude_le finite
    rw [largestFloat] at this
    omega
  · simp [widenMagnitude, inf, Binary64.infinity]
  · rw [widenMagnitude, if_pos nan, Binary64.infinity]
    omega

theorem narrowMagnitude_lt (m : Nat) : narrowMagnitude m < 2 ^ 31 := by
  rw [narrowMagnitude]
  split
  · rw [Binary32.infinity]
    omega
  · split
    · decide
    · simp only [Binary32.infinity]
      omega

theorem narrowMagnitude_finite {m n e last : Nat} (finite : m < Binary64.infinity)
    (parts : Binary64.significand m = (n, e))
    (kept : max (e + bitLength n - 24) exponentGap = last) (above : e < last) :
    narrowMagnitude m =
      min ((last - exponentGap) * 2 ^ 23 + halfEven n (2 ^ (last - e))) Binary32.infinity := by
  rw [narrowMagnitude, if_neg (by omega), if_neg (by omega), parts]
  simp only [kept, if_neg (Nat.not_le.mpr above)]

theorem narrowMagnitude_zero : narrowMagnitude 0 = 0 := by
  have none_ := halfEven_mul 0 (Nat.two_pow_pos (exponentGap - 0))
  rw [Nat.zero_mul] at none_
  have parts : Binary64.significand 0 = (0, 0) := by decide
  have kept : max (0 + bitLength 0 - 24) exponentGap = exponentGap := by decide
  rw [narrowMagnitude_finite (by decide) parts kept (by decide), none_, Nat.sub_self, Nat.zero_mul,
    Nat.zero_min]

theorem narrowMagnitude_shifted {n e shift : Nat} (low : 2 ^ 52 ≤ n * 2 ^ shift)
    (top : n * 2 ^ shift < 2 ^ 53) (least : 29 ≤ shift) (most : shift ≤ 52)
    (normal : e = 0 ∨ shift = 29) (small : e * 2 ^ 23 + n < Binary32.infinity) :
    narrowMagnitude ((e + exponentGap - shift) * 2 ^ 52 + n * 2 ^ shift) = e * 2 ^ 23 + n := by
  have bits : bitLength (n * 2 ^ shift) = 53 := bitLength_eq low top
  have gap : exponentGap = 925 := rfl
  have kept : max (e + exponentGap - shift + bitLength (n * 2 ^ shift) - 24) exponentGap =
      e + exponentGap := by
    omega
  have finite : (e + exponentGap - shift) * 2 ^ 52 + n * 2 ^ shift < Binary64.infinity := by
    have exponent : e ≤ 254 := by
      rw [Binary32.infinity] at small
      omega
    have below : e + exponentGap - shift ≤ 1150 := by omega
    calc _ < 1150 * 2 ^ 52 + 2 ^ 53 := Nat.add_lt_add_of_le_of_lt (Nat.mul_le_mul_right _ below) top
      _ ≤ Binary64.infinity := by decide
  have moved : e + exponentGap - (e + exponentGap - shift) = shift := by omega
  rw [narrowMagnitude_finite finite (Binary64.significand_normal low top) kept (by omega), moved,
    halfEven_mul n (Nat.two_pow_pos _), Nat.add_sub_cancel, Nat.min_eq_left (Nat.le_of_lt small)]

theorem narrowMagnitude_widenMagnitude {m : Nat} (number : m ≤ Binary32.infinity) :
    narrowMagnitude (widenMagnitude m) = m := by
  rcases Nat.lt_or_eq_of_le number with finite | inf
  · have sum := Binary32.significand_sum m
    have bounds := Binary32.significand_bounds m
    by_cases zero : (Binary32.significand m).1 = 0
    · obtain ⟨none_, widened⟩ := widenMagnitude_zero finite zero
      rw [widened, none_]
      exact narrowMagnitude_zero
    · obtain ⟨least, most, low, top⟩ := shifted_bounds zero bounds.1
      have normal : (Binary32.significand m).2 = 0 ∨
          53 - bitLength (Binary32.significand m).1 = 29 := by
        refine bounds.2.imp_right fun large => ?_
        rw [bitLength_eq large bounds.1]
      rw [widenMagnitude_finite finite zero,
        narrowMagnitude_shifted low top least most normal (by omega), sum]
  · simp [inf, widenMagnitude, narrowMagnitude]

theorem magnitude_widen (bits : UInt32) :
    Binary64.magnitude (widen bits) = widenMagnitude (Binary32.magnitude bits) :=
  Binary64.magnitude_ofParts bits (widenMagnitude_lt _)

theorem isNaN_widen (bits : UInt32) : Binary64.isNaN (widen bits) = Binary32.isNaN bits := by
  rw [Binary64.isNaN, Binary32.isNaN, magnitude_widen, decide_eq_decide]
  change Binary64.infinity < _ ↔ Binary32.infinity < _
  rcases Nat.lt_trichotomy (Binary32.magnitude bits) Binary32.infinity with finite | inf | nan
  · have := widenMagnitude_le finite
    rw [largestFloat] at this
    simp only [Binary64.infinity]
    omega
  · simp [widenMagnitude, inf]
  · rw [widenMagnitude, if_pos nan]
    simp only [nan, iff_true]
    omega

theorem isNaN_narrow (bits : UInt64) : Binary32.isNaN (narrow bits) = Binary64.isNaN bits := by
  rw [Binary64.isNaN, Binary32.isNaN, narrow,
    Binary32.magnitude_ofParts bits (narrowMagnitude_lt _), decide_eq_decide]
  change Binary32.infinity < _ ↔ Binary64.infinity < _
  rw [narrowMagnitude]
  split
  · rename_i nan
    simp only [nan, iff_true]
    omega
  · rename_i number
    split
    · simp [number]
    · simp only [number, iff_false]
      omega

theorem narrow_widen {bits : UInt32} (number : Binary32.isNaN bits = false) :
    narrow (widen bits) = bits := by
  rw [Binary32.isNaN, decide_eq_false_iff_not, Nat.not_lt] at number
  rw [narrow, magnitude_widen, narrowMagnitude_widenMagnitude number, widen,
    Binary64.sign_ofParts bits (widenMagnitude_lt _),
    Binary32.ofParts_self]

end Protowire
