import Mathlib.Algebra.Order.Field.Power
import Mathlib.Data.Rat.Cast.Order
import Mathlib.Tactic.FieldSimp
import Mathlib.Tactic.Linarith
import Protowire.Support.Rounding

/-!
Numbers of a binary precision. A rational is rounded to `prec` bits by scaling it to an integer
part of that many bits, taking the nearest integer, the even one of two as near, and scaling back.
-/

namespace Support

def IsHalfEven (x : ℚ) (q : ℕ) : Prop := |x - q| ≤ 1 / 2 ∧ (|x - q| = 1 / 2 → Even q)

theorem IsHalfEven.self (n : ℕ) : IsHalfEven n n := by
  constructor
  · simp
  · intro half
    simp at half

theorem isHalfEven_halfEven (n : ℕ) {d : ℕ} (positive : 0 < d) :
    IsHalfEven ((n : ℚ) / d) (halfEven n d) := by
  have divisor : (0 : ℚ) < d := by exact_mod_cast positive
  have whole : (n : ℚ) = d * (n / d : ℕ) + (n % d : ℕ) := by exact_mod_cast (Nat.div_add_mod n d).symm
  have ratio : (n : ℚ) / d = (n / d : ℕ) + (n % d : ℕ) / d := by
    rw [whole, add_div, mul_div_cancel_left₀ _ divisor.ne']
  rw [ratio, halfEven]
  generalize n / d = k
  have part : (0 : ℚ) ≤ (n % d : ℕ) / d := div_nonneg (Nat.cast_nonneg _) divisor.le
  have below : ((n % d : ℕ) : ℚ) / d < 1 := by
    rw [div_lt_one₀ divisor]
    exact_mod_cast Nat.mod_lt n positive
  split_ifs with low high
  · have less : ((n % d : ℕ) : ℚ) / d < 1 / 2 := by
      rw [div_lt_div_iff₀ divisor (by norm_num)]
      exact_mod_cast (by omega : n % d * 2 < 1 * d)
    have distance : |(k : ℚ) + (n % d : ℕ) / d - k| = (n % d : ℕ) / d := by
      rw [add_sub_cancel_left, abs_of_nonneg part]
    rw [IsHalfEven, distance]
    exact ⟨less.le, fun tie => absurd tie less.ne⟩
  · have more : (1 : ℚ) / 2 < (n % d : ℕ) / d := by
      rw [div_lt_div_iff₀ (by norm_num) divisor]
      exact_mod_cast (by omega : 1 * d < n % d * 2)
    have distance : |(k : ℚ) + (n % d : ℕ) / d - (k + 1 : ℕ)| = 1 - (n % d : ℕ) / d := by
      push_cast
      rw [abs_of_nonpos (by linarith)]
      ring
    rw [IsHalfEven, distance]
    exact ⟨by linarith, fun tie => absurd tie (by linarith)⟩
  · have half : ((n % d : ℕ) : ℚ) / d = 1 / 2 := by
      rw [div_eq_div_iff divisor.ne' (by norm_num)]
      exact_mod_cast (by omega : n % d * 2 = 1 * d)
    rw [half]
    rcases Nat.mod_two_eq_zero_or_one k with even | odd
    · rw [even, Nat.add_zero]
      exact ⟨by rw [add_sub_cancel_left]; norm_num, fun _ => Nat.even_iff.mpr even⟩
    · rw [odd]
      refine ⟨?_, fun _ => Nat.even_iff.mpr (by omega)⟩
      push_cast
      rw [abs_of_nonpos (by linarith)]
      linarith

theorem IsHalfEven.le_of_le {x : ℚ} {q n : ℕ} (near : IsHalfEven x q) (low : (n : ℚ) ≤ x) : n ≤ q := by
  by_contra below
  have step : (q : ℚ) + 1 ≤ n := by exact_mod_cast Nat.lt_of_not_le below
  have bound := (abs_le.mp near.1).2
  linarith

theorem IsHalfEven.ge_of_ge {x : ℚ} {q n : ℕ} (near : IsHalfEven x q) (high : x ≤ n) : q ≤ n := by
  by_contra above
  have step : (n : ℚ) + 1 ≤ q := by exact_mod_cast Nat.lt_of_not_le above
  have bound := (abs_le.mp near.1).1
  linarith

theorem IsHalfEven.eq_even_iff {x : ℚ} {q n : ℕ} (near : IsHalfEven x q) (even : Even n)
    (below : x < n) : q = n ↔ (n : ℚ) ≤ x + 1 / 2 := by
  constructor
  · rintro rfl
    have bound := (abs_le.mp near.1).1
    linarith
  · intro reached
    have high := near.ge_of_ge below.le
    by_contra different
    have step : (q : ℚ) + 1 ≤ n := by exact_mod_cast Nat.lt_of_le_of_ne high different
    have bound := (abs_le.mp near.1).2
    have tie := near.2 (by rw [abs_of_nonneg (by linarith)]; linarith)
    have next : n = q + 1 := by
      have bound : (n : ℚ) ≤ q + 1 := by linarith
      have bound : n ≤ q + 1 := by exact_mod_cast bound
      omega
    rw [next] at even
    exact absurd even (by simpa [Nat.even_add_one] using tie)

def keptBits (m shift : ℕ) (sticky : Bool) : ℕ :=
  if m.testBit (shift - 1) && ((sticky || decide (m % 2 ^ (shift - 1) ≠ 0)) ||
      decide (m / 2 ^ shift % 2 = 1)) then
    m / 2 ^ shift + 1
  else m / 2 ^ shift

theorem isHalfEven_keptBits {m shift : ℕ} (positive : 0 < shift) {x : ℚ} (low : (m : ℚ) ≤ x)
    (high : x < m + 1) {sticky : Bool} (more : sticky = true ↔ (m : ℚ) < x) :
    IsHalfEven (x / 2 ^ shift) (keptBits m shift sticky) := by
  obtain ⟨s, rfl⟩ : ∃ s, shift = s + 1 := ⟨shift - 1, by omega⟩
  rw [keptBits, Nat.add_sub_cancel]
  have split_ := Nat.div_add_mod m (2 ^ (s + 1))
  have lower := Nat.mod_lt m (Nat.pow_pos (n := s) (show 0 < 2 by decide))
  have top : m % 2 ^ (s + 1) = 2 ^ s * (m.testBit s).toNat + m % 2 ^ s := by
    rw [Nat.pow_succ, Nat.mod_mul, Nat.toNat_testBit, Nat.add_comm]
  generalize m / 2 ^ (s + 1) = k at *
  generalize m % 2 ^ s = t at *
  have power : (0 : ℚ) < 2 ^ (s + 1) := by positivity
  have half : (2 : ℚ) ^ (s + 1) = 2 ^ s * 2 := pow_succ 2 s
  have below : (t : ℚ) + 1 ≤ 2 ^ s := by exact_mod_cast lower
  cases bit : m.testBit s with
  | false =>
    have parts : (m : ℚ) = 2 ^ (s + 1) * k + t := by
      rw [bit] at top
      simp only [Bool.toNat_false, Nat.mul_zero, Nat.zero_add] at top
      rw [top] at split_
      exact_mod_cast split_.symm
    have ratio : x / 2 ^ (s + 1) = k + (x - 2 ^ (s + 1) * k) / 2 ^ (s + 1) := by
      field_simp
      ring
    have small : (x - 2 ^ (s + 1) * k) / 2 ^ (s + 1) < 1 / 2 := by
      rw [div_lt_div_iff₀ power (by norm_num)]
      linarith
    have part : 0 ≤ (x - 2 ^ (s + 1) * k) / 2 ^ (s + 1) := by
      apply div_nonneg _ power.le
      have : (0 : ℚ) ≤ t := Nat.cast_nonneg t
      linarith
    simp only [Bool.false_and, Bool.false_eq_true, if_false]
    rw [ratio, IsHalfEven, add_sub_cancel_left, abs_of_nonneg part]
    exact ⟨small.le, fun tie => absurd tie small.ne⟩
  | true =>
    have parts : (m : ℚ) = 2 ^ (s + 1) * k + 2 ^ s + t := by
      rw [bit] at top
      simp only [Bool.toNat_true, Nat.mul_one] at top
      rw [top, ← Nat.add_assoc] at split_
      exact_mod_cast split_.symm
    have ratio : x / 2 ^ (s + 1) = k + 1 / 2 + (x - 2 ^ (s + 1) * k - 2 ^ s) / 2 ^ (s + 1) := by
      rw [half]
      field_simp
      ring
    have positive : (0 : ℚ) ≤ t := Nat.cast_nonneg t
    by_cases exact_ : (x : ℚ) = 2 ^ (s + 1) * k + 2 ^ s
    · -- halfway: nothing is below the bit, and the even neighbour is taken
      have none : t = 0 := by
        have bound : (t : ℚ) ≤ 0 := by linarith
        exact_mod_cast le_antisymm bound positive
      have unsticky : sticky = false := by
        rw [← Bool.not_eq_true, more]
        intro less
        rw [none, Nat.cast_zero, add_zero] at parts
        linarith
      have tie : x / 2 ^ (s + 1) = k + 1 / 2 := by
        rw [ratio, exact_]
        ring
      rw [none, unsticky, tie]
      simp only [Bool.true_and, ne_eq, not_true_eq_false, decide_false, Bool.or_false, Bool.false_or,
        decide_eq_true_eq]
      split
      · rename_i odd
        constructor
        · rw [abs_of_nonpos (by push_cast; linarith)]
          push_cast
          linarith
        · intro
          exact Nat.even_iff.mpr (by omega)
      · rename_i even
        constructor
        · rw [abs_of_nonneg (by linarith)]
          linarith
        · intro
          exact Nat.even_iff.mpr (by omega)
    · have past : 2 ^ (s + 1) * k + 2 ^ s < x := by
        refine lt_of_le_of_ne ?_ (Ne.symm exact_)
        linarith
      have rest : (sticky || decide (t ≠ 0)) = true := by
        rw [Bool.or_eq_true, more, decide_eq_true_eq]
        by_cases none : t = 0
        · left
          rw [none, Nat.cast_zero, add_zero] at parts
          linarith
        · exact .inr none
      have part : 0 < (x - 2 ^ (s + 1) * k - 2 ^ s) / 2 ^ (s + 1) := by
        apply div_pos _ power
        linarith
      have small : (x - 2 ^ (s + 1) * k - 2 ^ s) / 2 ^ (s + 1) < 1 / 2 := by
        rw [div_lt_div_iff₀ power (by norm_num)]
        linarith
      rw [rest]
      simp only [Bool.true_or, Bool.true_and, if_true]
      rw [ratio, IsHalfEven]
      push_cast
      rw [abs_of_nonpos (by linarith)]
      exact ⟨by linarith, fun tie => absurd tie (by linarith)⟩

def RoundsTo (prec : ℕ) (x y : ℚ) : Prop :=
  ∃ (e : ℤ) (q : ℕ), 2 ^ prec ≤ 2 * (x / 2 ^ e) ∧ x / 2 ^ e < 2 ^ prec ∧ IsHalfEven (x / 2 ^ e) q ∧
    y = q * 2 ^ e

theorem place_unique {prec : ℕ} {x : ℚ} {e f : ℤ} (low : 2 ^ prec ≤ 2 * (x / 2 ^ e))
    (high : x / 2 ^ f < 2 ^ prec) : e ≤ f := by
  by_contra past
  have two : (0 : ℚ) < 2 := by norm_num
  have scale : (2 : ℚ) ^ f * 2 ≤ 2 ^ e := by
    rw [← zpow_add_one₀ two.ne']
    exact zpow_le_zpow_right₀ (by norm_num) (by omega)
  have weight : (0 : ℚ) < 2 ^ f := zpow_pos two f
  have weight' : (0 : ℚ) < 2 ^ e := zpow_pos two e
  rw [div_lt_iff₀ weight] at high
  have low : (2 : ℚ) ^ prec * 2 ^ e ≤ 2 * x := by
    have scaled := mul_le_mul_of_nonneg_right low weight'.le
    rwa [mul_assoc, div_mul_cancel₀ _ weight'.ne'] at scaled
  have power : (0 : ℚ) < 2 ^ prec := by positivity
  nlinarith [mul_le_mul_of_nonneg_left scale power.le]

section

variable {prec : ℕ} {x : ℚ} {e : ℤ} {q : ℕ}

theorem rounded_bounds (positive : prec ≠ 0) (low : 2 ^ prec ≤ 2 * (x / 2 ^ e))
    (high : x / 2 ^ e < 2 ^ prec) (near : IsHalfEven (x / 2 ^ e) q) :
    2 ^ (prec - 1) ≤ q ∧ q ≤ 2 ^ prec := by
  obtain ⟨p, rfl⟩ : ∃ p, prec = p + 1 := ⟨prec - 1, by omega⟩
  constructor
  · refine near.le_of_le ?_
    rw [pow_succ] at low
    push_cast
    linarith
  · refine near.ge_of_ge ?_
    push_cast
    exact high.le

theorem RoundsTo.pos {y : ℚ} (rounds : RoundsTo prec x y) (positive : prec ≠ 0) : 0 < y := by
  obtain ⟨e, q, low, high, near, rfl⟩ := rounds
  have least := (rounded_bounds positive low high near).1
  have some_ : 0 < q := (Nat.two_pow_pos _).trans_le least
  exact mul_pos (by exact_mod_cast some_) (zpow_pos (by norm_num) _)

theorem roundsTo_self {m : ℕ} (nonzero : m ≠ 0) (fits : bitLength m ≤ prec) (e : ℤ) :
    RoundsTo prec (m * 2 ^ e) (m * 2 ^ e) := by
  obtain ⟨shift, rfl⟩ := Nat.exists_eq_add_of_le fits
  have bits := bitLength_mul_two_pow nonzero shift
  have least : 2 ^ (bitLength m + shift - 1) ≤ m * 2 ^ shift :=
    lt_bitLength.mp (by have := bitLength_pos nonzero; omega)
  have most : m * 2 ^ shift < 2 ^ (bitLength m + shift) := bitLength_le.mp (by omega)
  have top : 2 ^ (bitLength m + shift) = 2 * 2 ^ (bitLength m + shift - 1) := by
    rw [← Nat.pow_succ', Nat.succ_eq_add_one, Nat.sub_add_cancel]
    have := bitLength_pos nonzero
    omega
  have place : (m * 2 ^ e : ℚ) = (m * 2 ^ shift : ℕ) * 2 ^ (e - shift) := by
    push_cast
    rw [mul_assoc, ← zpow_natCast, ← zpow_add₀ (by norm_num), add_sub_cancel]
  have scaled : (m * 2 ^ e : ℚ) / 2 ^ (e - shift) = (m * 2 ^ shift : ℕ) := by
    rw [place, mul_div_cancel_right₀ _ (zpow_ne_zero _ (by norm_num))]
  refine ⟨e - shift, m * 2 ^ shift, ?_, ?_, ?_, place⟩
  · rw [scaled]
    exact_mod_cast top.le.trans (Nat.mul_le_mul_left 2 least)
  · rw [scaled]
    exact_mod_cast most
  · rw [scaled]
    exact IsHalfEven.self _

def normalized (prec q : ℕ) (e : ℤ) : ℕ × ℤ := if prec < bitLength q then (q / 2, e + 1) else (q, e)

theorem normalized_spec (positive : prec ≠ 0) (low : 2 ^ prec ≤ 2 * (x / 2 ^ e))
    (high : x / 2 ^ e < 2 ^ prec) (near : IsHalfEven (x / 2 ^ e) q) :
    bitLength (normalized prec q e).1 = prec ∧
      RoundsTo prec x ((normalized prec q e).1 * 2 ^ (normalized prec q e).2) ∧
      (normalized prec q e).2 = if 2 ^ prec ≤ x / 2 ^ e + 1 / 2 then e + 1 else e := by
  obtain ⟨least, most⟩ := rounded_bounds positive low high near
  have reached := near.eq_even_iff (n := 2 ^ prec) (Nat.even_pow.mpr ⟨by decide, positive⟩)
    (by push_cast; exact high)
  push_cast at reached
  have wide := lt_bitLength (n := q) (k := prec)
  rw [normalized]
  by_cases carried : q = 2 ^ prec
  · rw [if_pos (wide.mpr carried.ge), if_pos (reached.mp carried)]
    obtain ⟨p, rfl⟩ : ∃ p, prec = p + 1 := ⟨prec - 1, by omega⟩
    have halved : q / 2 = 2 ^ p := by rw [carried, Nat.pow_succ, Nat.mul_div_cancel _ (by decide)]
    refine ⟨?_, ⟨e, q, low, high, near, ?_⟩, rfl⟩
    · rw [halved]
      exact bitLength_eq (Nat.le_refl _) (Nat.pow_lt_pow_right (by decide) (by omega))
    · rw [halved, carried, zpow_add_one₀ (by norm_num)]
      push_cast
      ring
  · rw [if_neg (fun up => carried (le_antisymm most (wide.mp up))),
      if_neg (fun up => carried (reached.mpr up))]
    obtain ⟨p, rfl⟩ : ∃ p, prec = p + 1 := ⟨prec - 1, by omega⟩
    exact ⟨bitLength_eq least (by omega), ⟨e, q, low, high, near, rfl⟩, rfl⟩

theorem keptBits_spec {m : ℕ} {scale : ℤ} {sticky : Bool} (wide : prec < bitLength m)
    (low : (m : ℚ) ≤ x * 2 ^ scale) (high : x * 2 ^ scale < m + 1)
    (more : sticky = true ↔ (m : ℚ) < x * 2 ^ scale) (placed : e = (bitLength m - prec : ℕ) - scale) :
    2 ^ prec ≤ 2 * (x / 2 ^ e) ∧ x / 2 ^ e < 2 ^ prec ∧
      IsHalfEven (x / 2 ^ e) (keptBits m (bitLength m - prec) sticky) := by
  obtain ⟨shift, bits⟩ : ∃ shift, bitLength m = prec + shift := ⟨bitLength m - prec, by omega⟩
  have dropped : bitLength m - prec = shift := by omega
  rw [dropped] at placed ⊢
  have scaled : x / 2 ^ e = x * 2 ^ scale / 2 ^ shift := by
    rw [placed, zpow_sub₀ (by norm_num), zpow_natCast]
    field_simp
  have power : (0 : ℚ) < 2 ^ shift := by positivity
  have least : 2 ^ (prec + shift - 1) ≤ m := lt_bitLength.mp (by omega)
  have most : m + 1 ≤ 2 ^ (prec + shift) := bitLength_le.mp (by omega)
  rw [scaled]
  refine ⟨?_, ?_, isHalfEven_keptBits (by omega) low high more⟩
  · have top : 2 ^ (prec + shift - 1) * 2 = 2 ^ (prec + shift) := by
      rw [← Nat.pow_succ, Nat.succ_eq_add_one, Nat.sub_add_cancel (by omega)]
    have bound : 2 ^ prec * 2 ^ shift ≤ 2 * m := by
      rw [← Nat.pow_add]
      omega
    have bound : (2 : ℚ) ^ prec * 2 ^ shift ≤ 2 * m := by exact_mod_cast bound
    rw [← mul_div_assoc, le_div_iff₀ power]
    linarith
  · have bound : (m : ℚ) + 1 ≤ 2 ^ prec * 2 ^ shift := by
      rw [← pow_add]
      exact_mod_cast most
    rw [div_lt_iff₀ power]
    linarith

end

theorem bitLength_bounds {n : ℕ} (positive : 0 < n) :
    (2 : ℚ) ^ ((bitLength n : ℤ) - 1) ≤ n ∧ (n : ℚ) < 2 ^ (bitLength n : ℤ) := by
  obtain ⟨b, bits, low, high⟩ := exists_bitLength positive.ne'
  have exponent : ((b + 1 : ℕ) : ℤ) - 1 = b := by push_cast; ring
  rw [bits, exponent, zpow_natCast, zpow_natCast]
  exact ⟨by exact_mod_cast low, by exact_mod_cast high⟩

theorem ratio_bounds {n d : ℕ} (numerator : 0 < n) (denominator : 0 < d) :
    (2 : ℚ) ^ ((bitLength n : ℤ) - bitLength d - 1) ≤ n / d ∧
      (n : ℚ) / d < 2 ^ ((bitLength n : ℤ) - bitLength d + 1) := by
  have two : (2 : ℚ) ≠ 0 := by norm_num
  obtain ⟨low, high⟩ := bitLength_bounds numerator
  obtain ⟨low', high'⟩ := bitLength_bounds denominator
  have divisor : (0 : ℚ) < d := by exact_mod_cast denominator
  constructor
  · have exponent : (bitLength n : ℤ) - bitLength d - 1 = (bitLength n - 1) - bitLength d := by ring
    rw [exponent, zpow_sub₀ two, div_le_div_iff₀ (zpow_pos (by norm_num) _) divisor]
    exact mul_le_mul low high'.le divisor.le (Nat.cast_nonneg n)
  · have exponent : (bitLength n : ℤ) - bitLength d + 1 = bitLength n - (bitLength d - 1) := by ring
    rw [exponent, zpow_sub₀ two, div_lt_div_iff₀ divisor (zpow_pos (by norm_num) _)]
    exact mul_lt_mul high low' (zpow_pos (by norm_num) _) (zpow_nonneg (by norm_num) _)

theorem scaled_ratio (n : ℕ) {d b : ℕ} (denominator : 0 < d) (base : 0 < b) (scale : ℤ) :
    0 < (if 0 ≤ scale then d else d * b ^ (-scale).toNat) ∧
      ((if 0 ≤ scale then n * b ^ scale.toNat else n : ℕ) : ℚ) /
        (if 0 ≤ scale then d else d * b ^ (-scale).toNat : ℕ) = n / d * (b : ℚ) ^ scale := by
  have divisor : (0 : ℚ) < d := by exact_mod_cast denominator
  have radix : (0 : ℚ) < b := by exact_mod_cast base
  by_cases up : 0 ≤ scale
  · obtain ⟨k, rfl⟩ := Int.eq_ofNat_of_zero_le up
    simp only [up, if_true, Int.toNat_natCast]
    refine ⟨denominator, ?_⟩
    rw [zpow_natCast]
    push_cast
    field_simp
  · obtain ⟨k, rfl⟩ : ∃ k : ℕ, scale = -k := ⟨(-scale).toNat, by omega⟩
    simp only [up, if_false, neg_neg, Int.toNat_natCast]
    refine ⟨Nat.mul_pos denominator (Nat.pow_pos base), ?_⟩
    rw [zpow_neg, zpow_natCast]
    push_cast
    field_simp

def placed (n d : ℕ) (e : ℤ) : ℕ × ℕ := (n * 2 ^ (-e).toNat, d * 2 ^ e.toNat)

def placeOf (prec n d : ℕ) : ℤ :=
  let e : ℤ := bitLength n - bitLength d - prec
  if (placed n d e).2 * 2 ^ prec ≤ (placed n d e).1 then e + 1 else e

def nearest (prec : ℕ) (x : ℚ) : ℚ :=
  if x = 0 then 0
  else
    let e := placeOf prec x.num.natAbs x.den
    let p := placed x.num.natAbs x.den e
    (if x < 0 then -1 else 1) * halfEven p.1 p.2 * 2 ^ e

end Support
