import Protowire.Pb.Bytewise
import Protowire.Support.Floating

/-!
One wire form for each number. A decimal is written at the smallest scale that holds it and a
float with exactly the bits of its precision, so that equal numbers are equal bytes.
-/

namespace Protowire.Pb.Native

open Support Wire Limit

variable {v : BigFloat} {bytes : Bytes} {prec : ℕ}

def Decimal.value (v : Decimal) : ℚ :=
  (if v.negative then -1 else 1) * (magnitudeOf v.unscaled * 10 ^ (-v.scale))

def HoldsAt (x : ℚ) (scale : ℕ) : Prop := ∃ n : ℤ, x = n * 10 ^ (-(scale : ℤ))

theorem ten_ne_zero : (10 : ℚ) ≠ 0 := by norm_num

theorem smallestScale_value (n : ℕ) (scale : ℤ) :
    ((smallestScale n scale).1 : ℚ) * 10 ^ (-(smallestScale n scale).2) = n * 10 ^ (-scale) := by
  have divides : 10 ^ spareZeros (n * 10 ^ (-scale).toNat) scale.toNat ∣ n * 10 ^ (-scale).toNat :=
    Nat.findGreatest_spec (P := fun k => 10 ^ k ∣ n * 10 ^ (-scale).toNat) (Nat.zero_le _) (by simp)
  have spare : spareZeros (n * 10 ^ (-scale).toNat) scale.toNat ≤ scale.toNat :=
    Nat.findGreatest_le _
  simp only [smallestScale]
  generalize spareZeros (n * 10 ^ (-scale).toNat) scale.toNat = k at *
  obtain ⟨m, whole⟩ := divides
  have exponents : -((scale.toNat - k : ℕ) : ℤ) = k + (-scale.toNat : ℤ) := by omega
  have signs : ((-scale).toNat : ℤ) + -scale.toNat = -scale := by omega
  rw [whole, Nat.mul_div_cancel_left _ (Nat.pow_pos (by decide)), exponents, zpow_add₀ ten_ne_zero,
    ← signs, zpow_add₀ ten_ne_zero, ← mul_assoc, ← mul_assoc, zpow_natCast, zpow_natCast]
  congr 1
  rw [mul_comm]
  exact_mod_cast whole.symm

theorem smallestScale_least (n : ℕ) (scale : ℤ) (positive : 0 < (smallestScale n scale).2) :
    ¬ 10 ∣ (smallestScale n scale).1 := by
  have divides : 10 ^ spareZeros (n * 10 ^ (-scale).toNat) scale.toNat ∣ n * 10 ^ (-scale).toNat :=
    Nat.findGreatest_spec (P := fun k => 10 ^ k ∣ n * 10 ^ (-scale).toNat) (Nat.zero_le _) (by simp)
  simp only [smallestScale] at positive ⊢
  have most (k : ℕ) (past : spareZeros (n * 10 ^ (-scale).toNat) scale.toNat < k)
      (bounded : k ≤ scale.toNat) : ¬ 10 ^ k ∣ n * 10 ^ (-scale).toNat :=
    Nat.findGreatest_is_greatest (P := fun k => 10 ^ k ∣ n * 10 ^ (-scale).toNat) past bounded
  generalize spareZeros (n * 10 ^ (-scale).toNat) scale.toNat = k at *
  rintro ⟨m, tens⟩
  refine most (k + 1) (by omega) (by omega) ⟨m, ?_⟩
  obtain ⟨whole, same⟩ := divides
  rw [same, Nat.mul_div_cancel_left _ (Nat.pow_pos (by decide))] at tens
  rw [same, tens, Nat.pow_succ, Nat.mul_assoc]

theorem smallestScale_nonneg (n : ℕ) (scale : ℤ) : 0 ≤ (smallestScale n scale).2 := by
  simp only [smallestScale]
  omega

theorem scale_le_of_holdsAt {m : ℕ} {scale : ℤ} (positive : 0 ≤ scale)
    (least : 0 < scale → ¬ 10 ∣ m) {t : ℕ} (holds : HoldsAt ((m : ℚ) * 10 ^ (-scale)) t) :
    scale ≤ t := by
  by_contra past
  obtain ⟨n, same⟩ := holds
  obtain ⟨k, gap⟩ : ∃ k : ℕ, scale = t + (k + 1 : ℕ) := ⟨(scale - t - 1).toNat, by omega⟩
  refine least (by omega) ?_
  have whole : (m : ℚ) = n * 10 ^ (k + 1) := by
    have scaled := congrArg (· * (10 : ℚ) ^ scale) same
    rw [mul_assoc, ← zpow_add₀ ten_ne_zero, neg_add_cancel, zpow_zero, mul_one, mul_assoc,
      ← zpow_add₀ ten_ne_zero, gap, neg_add_cancel_left, zpow_natCast] at scaled
    exact scaled
  have whole : (m : ℤ) = n * 10 ^ (k + 1) := by exact_mod_cast whole
  have divides : (10 : ℤ) ∣ m := by
    rw [whole, pow_succ]
    exact ⟨n * 10 ^ k, by ring⟩
  exact_mod_cast divides

theorem holdsAt_neg {x : ℚ} {scale : ℕ} : HoldsAt (-x) scale ↔ HoldsAt x scale := by
  constructor
  · rintro ⟨n, same⟩
    exact ⟨-n, by push_cast; linarith⟩
  · rintro ⟨n, same⟩
    exact ⟨-n, by push_cast; linarith⟩

theorem holdsAt_sign (negative : Bool) {x : ℚ} {scale : ℕ} :
    HoldsAt ((if negative then -1 else 1) * x) scale ↔ HoldsAt x scale := by
  cases negative
  · simp
  · simpa using holdsAt_neg

theorem Decimal.value_eq_zero (v : Decimal) : v.value = 0 ↔ magnitudeOf v.unscaled = 0 := by
  have power : (10 : ℚ) ^ (-v.scale) ≠ 0 := zpow_ne_zero _ ten_ne_zero
  have sign : (if v.negative then -1 else 1 : ℚ) ≠ 0 := by
    split <;> norm_num
  rw [Decimal.value, mul_eq_zero, mul_eq_zero, or_iff_right sign, or_iff_left power,
    Nat.cast_eq_zero]

theorem Decimal.normal_nonzero {v : Decimal} (nonzero : magnitudeOf v.unscaled ≠ 0) :
    v.normal = ⟨magnitudeBytes (smallestScale (magnitudeOf v.unscaled) v.scale).1,
      (smallestScale (magnitudeOf v.unscaled) v.scale).2, v.negative⟩ := by
  rw [Decimal.normal, if_neg nonzero]

theorem Decimal.normal_value (v : Decimal) : v.normal.value = v.value := by
  by_cases zero : magnitudeOf v.unscaled = 0
  · rw [v.value_eq_zero.mpr zero, Decimal.normal, if_pos zero]
    exact (Decimal.value_eq_zero {}).mpr rfl
  · rw [Decimal.normal_nonzero zero, Decimal.value, magnitudeOf_magnitudeBytes,
      smallestScale_value]
    rfl

theorem Decimal.normal_scale_nonneg (v : Decimal) : 0 ≤ v.normal.scale := by
  by_cases zero : magnitudeOf v.unscaled = 0
  · rw [Decimal.normal, if_pos zero]
  · rw [Decimal.normal_nonzero zero]
    exact smallestScale_nonneg _ _

theorem Decimal.normal_isLeast (v : Decimal) :
    IsLeast {t | HoldsAt v.value t} v.normal.scale.toNat := by
  have whole := Int.toNat_of_nonneg v.normal_scale_nonneg
  constructor
  · show HoldsAt v.value v.normal.scale.toNat
    rw [← v.normal_value, Decimal.value, holdsAt_sign]
    exact ⟨magnitudeOf v.normal.unscaled, by rw [whole, Int.cast_natCast]⟩
  · intro t holds
    by_cases zero : magnitudeOf v.unscaled = 0
    · simp [Decimal.normal, zero]
    · have least : v.normal.scale ≤ t := by
        rw [Decimal.normal_nonzero zero]
        refine scale_le_of_holdsAt (smallestScale_nonneg _ _) (smallestScale_least _ _) ?_
        rw [smallestScale_value, ← holdsAt_sign v.negative]
        exact holds
      omega

theorem Decimal.normal_eq_iff (v w : Decimal) : v.normal = w.normal ↔ v.value = w.value := by
  constructor
  · intro same
    rw [← v.normal_value, same, w.normal_value]
  intro same
  by_cases zero : magnitudeOf v.unscaled = 0
  · have zero' := w.value_eq_zero.mp (same ▸ v.value_eq_zero.mpr zero)
    rw [Decimal.normal, if_pos zero, Decimal.normal, if_pos zero']
  have zero' : magnitudeOf w.unscaled ≠ 0 := fun zero' =>
    zero (v.value_eq_zero.mp (same ▸ w.value_eq_zero.mpr zero'))
  have scales : v.normal.scale = w.normal.scale := by
    have least := v.normal_isLeast
    rw [same] at least
    have unique := least.unique w.normal_isLeast
    have low := v.normal_scale_nonneg
    have low' := w.normal_scale_nonneg
    omega
  rw [← v.normal_value, ← w.normal_value] at same
  rw [Decimal.normal_nonzero zero, Decimal.normal_nonzero zero'] at same scales ⊢
  simp only [Decimal.value, magnitudeOf_magnitudeBytes] at same scales
  have filled := smallestScale_ne_zero zero v.scale
  have filled' := smallestScale_ne_zero zero' w.scale
  generalize smallestScale (magnitudeOf v.unscaled) v.scale = r at *
  generalize smallestScale (magnitudeOf w.unscaled) w.scale = r' at *
  have power : (10 : ℚ) ^ (-r'.2) ≠ 0 := zpow_ne_zero _ ten_ne_zero
  rw [scales, ← mul_assoc, ← mul_assoc] at same
  have same := mul_right_cancel₀ power same
  have positive : (0 : ℚ) < r.1 := by exact_mod_cast Nat.pos_of_ne_zero filled
  have positive' : (0 : ℚ) < r'.1 := by exact_mod_cast Nat.pos_of_ne_zero filled'
  -- two signs that differ would make a positive number a negative one
  cases sign : v.negative <;> cases sign' : w.negative <;>
    simp only [sign, sign', if_true, Bool.false_eq_true, if_false, one_mul, neg_mul, neg_inj,
      Nat.cast_inj] at same ⊢
  · rw [same, scales]
  · linarith
  · linarith
  · rw [same, scales]

def Decimal.fields (v : Decimal) : Bytes :=
  appendMagnitude 1 v.unscaled ++ appendInt 2 v.scale ++ appendFlag 3 v.negative

theorem marshalDecimalMsg_fields {v : Decimal} (marshalled : marshalDecimalMsg v = .ok bytes) :
    bytes = v.normal.fields := by
  rw [marshalDecimalMsg] at marshalled
  split at marshalled
  · rename_i zero
    cases marshalled
    rw [Decimal.normal, if_pos zero]
    rfl
  rename_i nonzero
  simp only at marshalled
  split at marshalled
  · cases marshalled
  rename_i bounded
  cases marshalled
  have filled : (magnitudeBytes (smallestScale (magnitudeOf v.unscaled) v.scale).1).isEmpty =
      false := by
    rw [magnitudeBytes_isEmpty, decide_eq_false (smallestScale_ne_zero nonzero v.scale)]
  rw [reduced_eq _ _ (by omega), Decimal.normal_nonzero nonzero, Decimal.fields, appendMagnitude,
    filled]
  rfl

theorem marshalDecimalMsg_refused {v : Decimal} (low : -(maxNumericLiteralDigits : Int) ≤ v.scale) :
    (∃ msg, marshalDecimalMsg v = .error msg) ↔ maxNumericLiteralDigits < v.normal.scale.toNat := by
  rw [marshalDecimalMsg]
  by_cases zero : magnitudeOf v.unscaled = 0
  · rw [if_pos zero, Decimal.normal, if_pos zero]
    simp
  have least : reduced (magnitudeOf v.unscaled) v.scale =
      smallestScale (magnitudeOf v.unscaled) v.scale := by
    rw [reduced]
    split
    · exact reduce_eq _ _
    · rename_i kept
      have whole : v.scale = 0 := by
        by_contra nonzero
        exact kept ⟨low, nonzero⟩
      rw [whole, smallestScale_zero]
  have positive := smallestScale_nonneg (magnitudeOf v.unscaled) v.scale
  rw [if_neg zero, Decimal.normal_nonzero zero, least]
  generalize smallestScale (magnitudeOf v.unscaled) v.scale = r at *
  simp only
  constructor
  · rintro ⟨msg, refused⟩
    split at refused
    · omega
    · cases refused
  · intro past
    rw [if_pos (by omega)]
    exact ⟨_, rfl⟩

theorem appendVarintFrom_length (more v : ℕ) : (appendVarintFrom more v).length ≤ more + 1 := by
  induction more generalizing v with
  | zero => simp [appendVarintFrom]
  | succ more ih =>
    rw [appendVarintFrom]
    split
    · simp
    · simpa using ih (v / 128)

theorem appendVarint_length (v : ℕ) : (appendVarint v).length ≤ 10 := appendVarintFrom_length 9 v

/-- The longest magnitude that is read: an `int` counts its length and its bytes together. -/
def longestMagnitude : ℕ := 2 ^ 31 - 6

theorem appendVarint_five {n : ℕ} (low : 2 ^ 28 ≤ n) (high : n < 2 ^ 35) :
    (appendVarint n).length = 5 := by
  simp only [appendVarint, appendVarintFrom]
  rw [if_neg (by omega), if_neg (by omega), if_neg (by omega), if_neg (by omega), if_pos (by omega)]
  rfl

theorem appendBytes_short {mag : Bytes} (short : mag.length ≤ longestMagnitude) :
    (appendBytes mag).length < 2 ^ 31 := by
  rw [longestMagnitude] at short
  rw [appendBytes, List.length_append]
  by_cases low : 2 ^ 28 ≤ mag.length
  · rw [appendVarint_five low (by omega)]
    omega
  · have := appendVarint_length mag.length
    omega

theorem plainValueCount_magnitude {mag : Bytes} (fits : mag.length < 2 ^ 64) (rest : Bytes) :
    plainValueCount .bytes (appendBytes mag ++ rest) = castInt (appendBytes mag).length := by
  have length : ((appendBytes mag ++ rest).length : ℤ) - rest.length = (appendBytes mag).length := by
    rw [List.length_append]
    omega
  rw [plainValueCount_wraps, consumePlainValue, consumeBytes_append fits]
  exact congrArg castInt length

section

variable {mag rest : Bytes}

theorem magnitudeTurn {found : Except Bytes (Decimal × ℤ)} (filled : mag.isEmpty = false)
    (read : Bytewise.readMagnitude "unscaled in Decimal" (appendBytes mag ++ rest)
      (fun unscaled => ({ unscaled } : Decimal)) = found) (some_ : ∀ out, found ≠ .ok (out, 0)) :
    Bytewise.fieldsTurn (messageWording "Decimal") Bytewise.decimalField
        (appendMagnitude 1 mag ++ rest, {}) =
      match found with
      | .error msg => .done (.error msg)
      | .ok (out, consumed) => .next ((appendBytes mag ++ rest).drop consumed.toNat, out) := by
  have more : (appendTag 1 .bytes ++ (appendBytes mag ++ rest)).isEmpty = false := rfl
  rw [appendMagnitude, filled, if_neg (by simp), List.append_assoc, Bytewise.fieldsTurn, more,
    consumeTag_append (by decide)]
  simp only [Bytewise.decimalField, read, Bool.false_eq_true, if_false]
  cases found with
  | error msg => rfl
  | ok found =>
    have counted : found.2 ≠ 0 := fun zero => some_ found.1 (by rw [← zero])
    simp only [if_pos counted]

theorem magnitudeTurn_short (filled : mag.isEmpty = false) (short : mag.length ≤ longestMagnitude) :
    Bytewise.fieldsTurn (messageWording "Decimal") Bytewise.decimalField
      (appendMagnitude 1 mag ++ rest, {}) = .next (rest, { unscaled := mag }) := by
  have fits : mag.length < 2 ^ 64 := by
    rw [longestMagnitude] at short
    omega
  have count : plainValueCount .bytes (appendBytes mag ++ rest) = (appendBytes mag).length := by
    rw [plainValueCount_magnitude fits]
    exact castInt_self (by omega) (by exact_mod_cast appendBytes_short short)
  have some_ : (appendBytes mag).length ≠ 0 := by
    rw [appendBytes, List.length_append]
    have := List.length_pos_iff.mpr (List.isEmpty_eq_false_iff.mp filled)
    omega
  have read : Bytewise.readMagnitude "unscaled in Decimal" (appendBytes mag ++ rest)
      (fun unscaled => ({ unscaled } : Decimal)) = .ok ({ unscaled := mag }, (appendBytes mag).length) := by
    rw [Bytewise.readMagnitude, count, if_neg (by omega), consumeBytes_append fits]
  rw [magnitudeTurn filled read ?_]
  · simp only [Int.toNat_natCast, List.drop_left]
  · intro out same
    have := congrArg Prod.snd (Except.ok.inj same)
    simp only at this
    omega

theorem magnitudeTurn_long (long : longestMagnitude < mag.length)
    (bounded : mag.length ≤ longestMagnitude + 2 ^ 31) :
    Bytewise.fieldsTurn (messageWording "Decimal") Bytewise.decimalField
      (appendMagnitude 1 mag ++ rest, {}) = .done (.error (text "corrupt unscaled in Decimal")) := by
  rw [longestMagnitude] at long bounded
  have filled : mag.isEmpty = false := by
    rw [List.isEmpty_eq_false_iff, ← List.length_pos_iff]
    omega
  have length : (appendBytes mag).length = 5 + mag.length := by
    rw [appendBytes, List.length_append, appendVarint_five (by omega) (by omega)]
  have count : plainValueCount .bytes (appendBytes mag ++ rest) < 0 := by
    rw [plainValueCount_magnitude (by omega), length]
    exact castInt_neg (by omega) fun misread => absurd misread.1 (by omega)
  have read : Bytewise.readMagnitude "unscaled in Decimal" (appendBytes mag ++ rest)
      (fun unscaled => ({ unscaled } : Decimal)) = .error (text "corrupt unscaled in Decimal") := by
    rw [Bytewise.readMagnitude, if_pos count]
    rfl
  exact magnitudeTurn filled read fun out same => by cases same

theorem decimalTail_length (scale : ℤ) (negative : Bool) :
    (appendInt 2 scale ++ appendFlag 3 negative).length < 2 ^ 31 := by
  have tags (num : ℕ) : (appendTag num .varint).length ≤ 10 := appendVarint_length _
  have scaled : (appendInt 2 scale).length ≤ 20 := by
    rw [appendInt]
    split
    · simp
    · rw [List.length_append]
      have := tags 2
      have := appendVarint_length (asUnsigned 64 scale)
      omega
  have signed : (appendFlag 3 negative).length ≤ 20 := by
    rw [appendFlag]
    split
    · rw [List.length_append]
      have := tags 3
      have := appendVarint_length 1
      omega
    · simp
  rw [List.length_append]
  omega

theorem readFields_decimal (v : Decimal) (short : v.unscaled.length ≤ longestMagnitude) :
    Bytewise.readFields (messageWording "Decimal") Bytewise.decimalField v.fields {} =
      readRecords (messageWording "Decimal") decimalField v.fields {} := by
  have tail : Bytewise.readFields (messageWording "Decimal") Bytewise.decimalField
      (appendInt 2 v.scale ++ appendFlag 3 v.negative) { unscaled := v.unscaled } = _ :=
    Bytewise.readFields_eq Bytewise.decimalField_counts decimalField_shrinks
      (decimalTail_length v.scale v.negative) _
  rw [Decimal.fields, List.append_assoc]
  have fits : v.unscaled.length < 2 ^ 64 := by
    rw [longestMagnitude] at short
    omega
  rw [readRecords_magnitude decimalField_shrinks (by decide) fits
    (fun unscaled => ({ unscaled } : Decimal)) rfl fun data => rfl, ← tail]
  cases filled : v.unscaled.isEmpty with
  | true =>
    rw [List.isEmpty_iff.mp filled]
    rfl
  | false => exact loop_next Bytewise.fieldsTurn_lowers (magnitudeTurn_short filled short)

end

theorem Decimal.normal_magnitude (v : Decimal) {scale : ℕ}
    (least : IsLeast {t | HoldsAt v.value t} scale) :
    |v.value| * 10 ^ scale = magnitudeOf v.normal.unscaled := by
  obtain rfl := least.unique v.normal_isLeast
  have whole := Int.toNat_of_nonneg v.normal_scale_nonneg
  have sign : |(if v.normal.negative then -1 else 1 : ℚ)| = 1 := by
    cases v.normal.negative <;> simp
  have power : (0 : ℚ) ≤ magnitudeOf v.normal.unscaled * 10 ^ (-v.normal.scale) := by positivity
  rw [← v.normal_value, Decimal.value, abs_mul, sign, one_mul, abs_of_nonneg power, mul_assoc,
    ← zpow_natCast, ← zpow_add₀ ten_ne_zero, whole, neg_add_cancel, zpow_zero, mul_one]

theorem magnitudeBytes_length (n : ℕ) : (magnitudeBytes n).length * 8 ≤ bitLength n + 7 := by
  rw [← Bytewise.bitLen_magnitudeBytes]
  have trimmed := Bytewise.trimmed_magnitudeBytes n
  cases found : magnitudeBytes n with
  | nil => simp
  | cons top rest =>
    rw [found] at trimmed
    have nonzero : top.toNat ≠ 0 := by
      intro zero
      exact trimmed (congrArg some (UInt8.toNat_inj.mp zero))
    have bits := bitLength_pos nonzero
    simp only [Bytewise.bitLen, List.length_cons]
    omega

theorem magnitudeBytes_length_iff (n most : ℕ) :
    (magnitudeBytes n).length ≤ most ↔ n < 256 ^ most := by
  constructor
  · intro short
    have below := Bytewise.magnitudeOf_lt (magnitudeBytes n)
    rw [magnitudeOf_magnitudeBytes] at below
    exact below.trans_le (Nat.pow_le_pow_right (by decide) short)
  · intro below
    have bits : bitLength n ≤ 8 * most := by
      rw [bitLength_le, Nat.pow_mul]
      exact below
    have := magnitudeBytes_length n
    omega

theorem Decimal.normal_length (v : Decimal) {scale : ℕ}
    (least : IsLeast {t | HoldsAt v.value t} scale) (most : ℕ) :
    v.normal.unscaled.length ≤ most ↔ |v.value| * 10 ^ scale < 256 ^ most := by
  have shortest : v.normal.unscaled = magnitudeBytes (magnitudeOf v.normal.unscaled) := by
    by_cases zero : magnitudeOf v.unscaled = 0
    · rw [Decimal.normal, if_pos zero]
      rfl
    · rw [Decimal.normal_nonzero zero, magnitudeOf_magnitudeBytes]
  rw [v.normal_magnitude least, shortest, magnitudeBytes_length_iff, magnitudeOf_magnitudeBytes]
  norm_cast

theorem Decimal.fields_length (v : Decimal) (short : v.unscaled.length ≤ longestMagnitude) :
    v.fields.length < 2 ^ 64 := by
  have tail := decimalTail_length v.scale v.negative
  have tag : (appendTag 1 .bytes).length ≤ 10 := appendVarint_length _
  have value := appendBytes_short short
  rw [Decimal.fields, List.append_assoc, List.length_append, appendMagnitude]
  split
  · rw [List.length_nil]
    omega
  · simp only [List.length_append] at value tail ⊢
    omega

/-- One wire form for each number a decimal denotes. Written forms are compared as far as a
`size_t` counts their bytes; one is read back as far as an `int` counts those of its magnitude. -/
theorem decimal_one_wire_form (v : Decimal) :
    (-(maxNumericLiteralDigits : Int) ≤ v.scale →
      ((∃ msg, Bytewise.marshalDecimalMsg v = .error msg) ↔
        ∃ scale, IsLeast {t | HoldsAt v.value t} scale ∧ maxNumericLiteralDigits < scale)) ∧
    ∀ bytes, Bytewise.marshalDecimalMsg v = .ok bytes →
      (∃ u : Decimal, bytes = u.fields ∧ u.value = v.value ∧ 0 ≤ u.scale ∧
        IsLeast {t | HoldsAt v.value t} u.scale.toNat) ∧
      (∀ w bytes', Bytewise.marshalDecimalMsg w = .ok bytes' → bytes.length < 2 ^ 64 →
        (bytes = bytes' ↔ v.value = w.value)) ∧
      ∀ scale, IsLeast {t | HoldsAt v.value t} scale →
        |v.value| * 10 ^ scale < 256 ^ (longestMagnitude + 2 ^ 31) →
        ((∃ u, Bytewise.unmarshalDecimalMsg bytes 0 = .ok u ∧ u.value = v.value) ↔
          |v.value| * 10 ^ scale < 256 ^ longestMagnitude) := by
  rw [Bytewise.marshalDecimalMsg_eq]
  refine ⟨?_, ?_⟩
  · intro low
    rw [marshalDecimalMsg_refused low]
    constructor
    · intro past
      exact ⟨_, v.normal_isLeast, past⟩
    · rintro ⟨scale, least, past⟩
      rwa [v.normal_isLeast.unique least]
  intro bytes marshalled
  have fields := marshalDecimalMsg_fields marshalled
  refine ⟨⟨v.normal, fields, v.normal_value, v.normal_scale_nonneg, v.normal_isLeast⟩, ?_, ?_⟩
  · intro w bytes' marshalled' fits
    rw [Bytewise.marshalDecimalMsg_eq] at marshalled'
    rw [← Decimal.normal_eq_iff]
    constructor
    · intro same
      rw [← same] at marshalled'
      -- one text is read once, so the two normal forms are what it reads as
      have read := unmarshalDecimalMsg_marshal (Nat.le_refl _) marshalled fits
      rw [unmarshalDecimalMsg_marshal (Nat.le_refl _) marshalled' fits] at read
      exact (Except.ok.inj read).symm
    · intro same
      rw [fields, same, ← marshalDecimalMsg_fields marshalled']
  · intro scale least bounded
    rw [← v.normal_length least] at bounded ⊢
    constructor
    · rintro ⟨u, read, -⟩
      by_contra long
      rw [fields, Bytewise.unmarshalDecimalMsg, Bytewise.readFields, Decimal.fields, List.append_assoc,
        loop_done (magnitudeTurn_long (not_le.mp long) bounded)] at read
      cases read
    · intro short
      refine ⟨v.normal, ?_, v.normal_value⟩
      rw [Bytewise.unmarshalDecimalMsg_eq 0 (fields ▸ readFields_decimal v.normal short)]
      exact unmarshalDecimalMsg_marshal (Nat.le_refl _) marshalled
        (fields ▸ v.normal.fields_length short)

/-- `1.50` goes out as `1.5`, which the bytes of `15` at a scale of one are. -/
theorem decimal_one_wire_form_trailing_zero :
    -(maxNumericLiteralDigits : Int) ≤ 2 ∧
      Bytewise.marshalDecimalMsg ⟨[150], 2, false⟩ = .ok [0x0A, 1, 15, 0x10, 1] ∧
      Bytewise.marshalDecimalMsg ⟨[15], 1, false⟩ = .ok [0x0A, 1, 15, 0x10, 1] ∧
      Decimal.value ⟨[150], 2, false⟩ = Decimal.value ⟨[15], 1, false⟩ := by
  have first : Bytewise.marshalDecimalMsg ⟨[150], 2, false⟩ = .ok [0x0A, 1, 15, 0x10, 1] := by decide
  have second : Bytewise.marshalDecimalMsg ⟨[15], 1, false⟩ = .ok [0x0A, 1, 15, 0x10, 1] := by decide
  obtain ⟨-, same, -⟩ := (decimal_one_wire_form ⟨[150], 2, false⟩).2 _ first
  exact ⟨by decide, first, second, (same _ _ second (by decide)).mp rfl⟩

def longDecimal : Decimal := ⟨List.replicate (2 ^ 31) 0xFF, 0, false⟩

theorem unmarshalDecimalMsg_longDecimal :
    ∃ bytes, Bytewise.marshalDecimalMsg longDecimal = .ok bytes ∧
      Bytewise.unmarshalDecimalMsg bytes 0 = .error (text "corrupt unscaled in Decimal") := by
  have long : longDecimal.unscaled.length = 2 ^ 31 := List.length_replicate
  have start : longDecimal.unscaled = 0xFF :: List.replicate (2 ^ 31 - 1) 0xFF := by
    exact List.replicate_succ
  have kept : trimLeadingZeros longDecimal.unscaled = longDecimal.unscaled := by
    rw [start]
    rfl
  have filled : longDecimal.unscaled.isEmpty = false := by
    rw [start]
    rfl
  refine ⟨appendTag 1 .bytes ++ appendBytes longDecimal.unscaled, ?_, ?_⟩
  · rw [Bytewise.marshalDecimalMsg, kept, filled]
    have whole : longDecimal.scale = 0 := rfl
    have plain : longDecimal.negative = false := rfl
    rw [whole, plain]
    simp [appendInt, appendFlag, maxNumericLiteralDigits]
  · have turned : Bytewise.fieldsTurn (messageWording "Decimal") Bytewise.decimalField
        (appendMagnitude 1 longDecimal.unscaled ++ [], {}) = _ :=
      magnitudeTurn_long (by rw [long]; decide) (by rw [long]; decide)
    rw [appendMagnitude, filled, if_neg (by simp), List.append_nil] at turned
    rw [Bytewise.unmarshalDecimalMsg, Bytewise.readFields, loop_done turned]

def BigFloat.magnitude (v : BigFloat) : ℚ := magnitudeOf v.mantissa * 2 ^ v.exponent

theorem two_ne_zero_rat : (2 : ℚ) ≠ 0 := by norm_num

theorem inPrecision_roundsTo {n : ℕ} (positive : prec ≠ 0) (nonzero : n ≠ 0) (exponent : ℤ) :
    RoundsTo prec (n * 2 ^ exponent)
      ((inPrecision prec n exponent).1 * 2 ^ (inPrecision prec n exponent).2) := by
  have bits := bitLength_pos nonzero
  have low : 2 ^ (bitLength n - 1) ≤ n := lt_bitLength.mp (by omega)
  have high : n < 2 ^ bitLength n := bitLength_le.mp (Nat.le_refl _)
  rw [inPrecision]
  split
  · rename_i narrow
    obtain ⟨k, gap⟩ : ∃ k, prec = bitLength n + k := ⟨prec - bitLength n, by omega⟩
    have spare : prec - bitLength n = k := by omega
    rw [spare]
    have placed : (n : ℚ) * 2 ^ exponent / 2 ^ (exponent - k) = (n * 2 ^ k : ℕ) := by
      rw [mul_div_assoc, ← zpow_sub₀ two_ne_zero_rat, sub_sub_cancel, zpow_natCast]
      push_cast
      rfl
    refine ⟨exponent - k, n * 2 ^ k, ?_, ?_, ?_, rfl⟩
    · rw [placed]
      have bound : 2 ^ prec ≤ 2 * (n * 2 ^ k) := by
        calc 2 ^ prec = 2 ^ (bitLength n - 1) * 2 * 2 ^ k := by
              rw [gap, Nat.pow_add, ← Nat.pow_succ, Nat.succ_eq_add_one, Nat.sub_add_cancel bits]
          _ ≤ n * 2 * 2 ^ k := Nat.mul_le_mul_right _ (Nat.mul_le_mul_right _ low)
          _ = 2 * (n * 2 ^ k) := by ring
      exact_mod_cast bound
    · rw [placed]
      have bound : n * 2 ^ k < 2 ^ prec := by
        rw [gap, Nat.pow_add]
        exact Nat.mul_lt_mul_of_pos_right high (Nat.pow_pos (by decide))
      exact_mod_cast bound
    · rw [placed]
      exact IsHalfEven.self _
  · rename_i wide
    obtain ⟨k, gap⟩ : ∃ k, bitLength n = prec + k := ⟨bitLength n - prec, by omega⟩
    have dropped : bitLength n - prec = k := by omega
    simp only [dropped]
    have placed : (n : ℚ) * 2 ^ exponent / 2 ^ (exponent + k) = n / (2 ^ k : ℕ) := by
      rw [zpow_add₀ two_ne_zero_rat, zpow_natCast, mul_comm (n : ℚ),
        mul_div_mul_left _ _ (zpow_ne_zero _ two_ne_zero_rat)]
      push_cast
      rfl
    have divisor : (0 : ℚ) < (2 ^ k : ℕ) := by positivity
    refine ⟨exponent + k, halfEven n (2 ^ k), ?_, ?_, ?_, ?_⟩
    · rw [placed, ← mul_div_assoc, le_div_iff₀ divisor]
      have bound : 2 ^ prec * 2 ^ k ≤ 2 * n := by
        rw [← Nat.pow_add, ← gap]
        have top : 2 ^ bitLength n = 2 ^ (bitLength n - 1) * 2 := by
          rw [← Nat.pow_succ, Nat.succ_eq_add_one, Nat.sub_add_cancel bits]
        omega
      exact_mod_cast bound
    · rw [placed, div_lt_iff₀ divisor]
      have bound : n < 2 ^ prec * 2 ^ k := by
        rw [← Nat.pow_add, ← gap]
        exact high
      exact_mod_cast bound
    · rw [placed]
      exact isHalfEven_halfEven n (Nat.pow_pos (by decide))
    · split
      · rename_i carried
        obtain ⟨p, rfl⟩ : ∃ p, prec = p + 1 := ⟨prec - 1, by omega⟩
        rw [carried, zpow_add_one₀ two_ne_zero_rat, Nat.add_sub_cancel]
        push_cast
        ring
      · rfl

theorem wireParts_inPrecision {n : ℕ} {exponent : ℤ} (bits : bitLength n = prec)
    (range : FitsSigned 32 exponent) (high : exponent + prec ≤ maxBigFloatExponent)
    (low : -(maxBigFloatExponent : Int) ≤ exponent + prec) :
    wireParts prec n exponent = .ok (n, exponent) := by
  obtain ⟨least, most⟩ := range
  have kept : roundedTo prec n exponent = (n, exponent) := by
    rw [roundedTo, if_neg (by omega)]
  have shifted : widenedTo prec n = n := by
    rw [widenedTo, if_neg (by omega), bits, Nat.sub_self, Nat.pow_zero, Nat.mul_one]
  rw [wireParts]
  simp only [kept, bits, add_sub_cancel_right, shifted]
  rw [if_neg (by omega), if_neg (by omega)]

theorem marshalBigFloatMsg_parts (positive : v.prec ≠ 0)
    (marshalled : marshalBigFloatMsg v = .ok bytes) :
    bigFloatPrecDigits v.prec ≤ maxNumericLiteralDigits ∧
      bytes = Bytewise.appendParts v v.normal.mantissa v.normal.exponent ∧
      FitsSigned 32 v.normal.exponent ∧
      (magnitudeOf v.mantissa ≠ 0 → v.normal.exponent + v.prec ≤ maxBigFloatExponent ∧
        -(maxBigFloatExponent : Int) ≤ v.normal.exponent + v.prec) := by
  rw [marshalBigFloatMsg, if_neg positive] at marshalled
  split at marshalled
  · cases marshalled
  rename_i bounded
  refine ⟨by omega, ?_⟩
  rw [BigFloat.normal, if_neg positive]
  split at marshalled
  · rename_i zero
    cases marshalled
    rw [if_pos zero, ← Bytewise.appendParts_eq]
    exact ⟨rfl, show FitsSigned 32 0 by decide, fun nonzero => absurd zero nonzero⟩
  rename_i nonzero
  split at marshalled
  · cases marshalled
  rename_i mantissa exponent written
  cases marshalled
  obtain ⟨parts, range, high, low⟩ := wireParts_eq positive written
  rw [if_neg nonzero, ← parts, ← Bytewise.appendParts_eq]
  exact ⟨rfl, range, fun _ => ⟨high, low⟩⟩

theorem BigFloat.normal_prec (v : BigFloat) (positive : v.prec ≠ 0) : v.normal.prec = v.prec := by
  rw [BigFloat.normal, if_neg positive]
  split <;> rfl

theorem BigFloat.normal_negative (v : BigFloat) : v.normal.negative = v.negative := by
  rw [BigFloat.normal]
  split_ifs <;> rfl

theorem BigFloat.normal_zero (zero : magnitudeOf v.mantissa = 0) :
    v.normal.mantissa = [] ∧ v.normal.exponent = 0 := by
  rw [BigFloat.normal]
  split_ifs <;> exact ⟨rfl, rfl⟩

theorem BigFloat.normal_nonzero (positive : v.prec ≠ 0) (nonzero : magnitudeOf v.mantissa ≠ 0) :
    bitLength (magnitudeOf v.normal.mantissa) = v.prec ∧
      RoundsTo v.prec v.magnitude v.normal.magnitude := by
  rw [BigFloat.normal, if_neg positive, if_neg nonzero]
  simp only [BigFloat.magnitude, magnitudeOf_magnitudeBytes]
  exact ⟨inPrecision_bits positive nonzero v.exponent,
    inPrecision_roundsTo positive nonzero v.exponent⟩

theorem BigFloat.normal_trimmed (v : BigFloat) :
    v.normal.mantissa = magnitudeBytes (magnitudeOf v.normal.mantissa) := by
  rw [BigFloat.normal]
  split_ifs
  · rfl
  · rfl
  · simp only [magnitudeOf_magnitudeBytes]

theorem precDigits_bound (digits : bigFloatPrecDigits prec ≤ maxNumericLiteralDigits) :
    prec < 2 ^ 14 := by
  simp only [bigFloatPrecDigits, pow2Digits, maxNumericLiteralDigits] at digits
  omega

theorem appendParts_short {mantissa : ℕ} (exponent : ℤ) (prec : v.prec < 2 ^ 14)
    (bits : bitLength mantissa ≤ v.prec) : (appendParts v mantissa exponent).length < 2 ^ 31 := by
  have digits := magnitudeBytes_length mantissa
  have first : (appendMagnitude 1 (magnitudeBytes mantissa)).length ≤ 20 + 2 ^ 12 := by
    rw [appendMagnitude]
    split
    · simp
    · have tag := appendVarint_length (1 * 8 + WireType.bytes.code)
      have length := appendVarint_length (magnitudeBytes mantissa).length
      simp only [appendTag, appendBytes, List.length_append]
      omega
  have second : (appendInt 2 exponent).length ≤ 20 := by
    rw [appendInt]
    split
    · simp
    · have tag := appendVarint_length (2 * 8 + WireType.varint.code)
      have value := appendVarint_length (asUnsigned 64 exponent)
      simp only [appendTag, List.length_append]
      omega
  have third := appendVarint_length (3 * 8 + WireType.varint.code)
  have fourth := appendVarint_length v.prec
  have fifth : (appendFlag 4 v.negative).length ≤ 2 := by
    cases v.negative <;> decide
  simp only [appendParts, appendTag, List.length_append]
  omega

theorem marshalBigFloatMsg_normal (positive : v.prec ≠ 0)
    (marshalled : marshalBigFloatMsg v = .ok bytes) : marshalBigFloatMsg v.normal = .ok bytes := by
  obtain ⟨digits, rfl, range, bounds⟩ := marshalBigFloatMsg_parts positive marshalled
  have same (mantissa : Bytes) (exponent : ℤ) :
      Bytewise.appendParts v.normal mantissa exponent = Bytewise.appendParts v mantissa exponent := by
    rw [Bytewise.appendParts, Bytewise.appendParts, v.normal_prec positive, v.normal_negative]
  rw [marshalBigFloatMsg, v.normal_prec positive, if_neg positive, if_neg (by omega), ← same]
  by_cases zero : magnitudeOf v.mantissa = 0
  · obtain ⟨mantissa, exponent⟩ := BigFloat.normal_zero zero
    rw [mantissa, exponent, if_pos (show magnitudeOf [] = 0 from rfl)]
    rfl
  · obtain ⟨bits, -⟩ := BigFloat.normal_nonzero positive zero
    obtain ⟨high, low⟩ := bounds zero
    have nonzero : magnitudeOf v.normal.mantissa ≠ 0 := by
      intro empty
      rw [empty] at bits
      exact positive bits.symm
    rw [if_neg nonzero, wireParts_inPrecision bits range high low]
    simp only
    rw [← Bytewise.appendParts_eq, ← v.normal_trimmed]

theorem unmarshalBigFloatMsg_normal (positive : v.prec ≠ 0)
    (marshalled : marshalBigFloatMsg v = .ok bytes) :
    Bytewise.unmarshalBigFloatMsg bytes 0 0 = .ok v.normal := by
  obtain ⟨digits, written, range, -⟩ := marshalBigFloatMsg_parts positive marshalled
  have prec := precDigits_bound digits
  have bits : bitLength (magnitudeOf v.normal.mantissa) ≤ v.prec := by
    by_cases zero : magnitudeOf v.mantissa = 0
    · rw [(BigFloat.normal_zero zero).1]
      exact Nat.zero_le _
    · exact (BigFloat.normal_nonzero positive zero).1.le
  rw [v.normal_trimmed, Bytewise.appendParts_eq] at written
  have small : bytes.length < 2 ^ 31 := by
    rw [written]
    exact appendParts_short _ prec bits
  have digits' := magnitudeBytes_length (magnitudeOf v.normal.mantissa)
  have read : readRecords (messageWording "BigFloat") bigFloatField bytes {} =
      .ok ⟨magnitudeBytes (magnitudeOf v.normal.mantissa), v.normal.exponent, v.prec, v.negative⟩ := by
    rw [written]
    exact readRecords_appendParts (by omega) range (by omega)
  rw [Bytewise.unmarshalBigFloatMsg_eq small read range]
  exact unmarshalBigFloatMsg_marshal (Nat.le_refl _) (Nat.le_refl _) (by omega) marshalled (by omega)

/-- What is written is the value rounded to its precision, with a mantissa of just that many bits. It
is read back, and writes the same bytes again. -/
theorem bigFloat_one_wire_form {v : BigFloat} {bytes : Bytes} (positive : 1 ≤ v.prec)
    (marshalled : Bytewise.marshalBigFloatMsg v = .ok bytes) :
    ∃ (mantissa : Bytes) (exponent : ℤ),
      bytes = Bytewise.appendParts v mantissa exponent ∧
      (magnitudeOf v.mantissa ≠ 0 → bitLength (magnitudeOf mantissa) = v.prec ∧
        RoundsTo v.prec v.magnitude (magnitudeOf mantissa * 2 ^ exponent)) ∧
      (magnitudeOf v.mantissa = 0 → mantissa = [] ∧ exponent = 0) ∧
      Bytewise.unmarshalBigFloatMsg bytes 0 0 = .ok ⟨mantissa, exponent, v.prec, v.negative⟩ ∧
      Bytewise.marshalBigFloatMsg ⟨mantissa, exponent, v.prec, v.negative⟩ = .ok bytes := by
  have positive : v.prec ≠ 0 := by omega
  have normal : v.normal = ⟨v.normal.mantissa, v.normal.exponent, v.prec, v.negative⟩ := by
    rw [← v.normal_prec positive, ← v.normal_negative]
  rw [Bytewise.marshalBigFloatMsg_eq] at marshalled
  obtain ⟨-, written, -, -⟩ := marshalBigFloatMsg_parts positive marshalled
  refine ⟨v.normal.mantissa, v.normal.exponent, written, BigFloat.normal_nonzero positive,
    BigFloat.normal_zero, ?_, ?_⟩
  · rw [← normal]
    exact unmarshalBigFloatMsg_normal positive marshalled
  · rw [← normal, Bytewise.marshalBigFloatMsg_eq]
    exact marshalBigFloatMsg_normal positive marshalled

/-- `15` in three bits is `16`: the rounding carries, and the mantissa is `4`. -/
theorem bigFloat_one_wire_form_carried :
    1 ≤ (⟨[15], 0, 3, true⟩ : BigFloat).prec ∧
      Bytewise.marshalBigFloatMsg ⟨[15], 0, 3, true⟩ =
        .ok [0x0A, 1, 4, 0x10, 2, 0x18, 3, 0x20, 1] ∧
      ∃ (mantissa : Bytes) (exponent : ℤ),
        Bytewise.unmarshalBigFloatMsg [0x0A, 1, 4, 0x10, 2, 0x18, 3, 0x20, 1] 0 0 =
          .ok ⟨mantissa, exponent, 3, true⟩ := by
  have marshalled : Bytewise.marshalBigFloatMsg ⟨[15], 0, 3, true⟩ =
      .ok [0x0A, 1, 4, 0x10, 2, 0x18, 3, 0x20, 1] := by decide
  obtain ⟨mantissa, exponent, -, -, -, read, -⟩ := bigFloat_one_wire_form (by decide) marshalled
  exact ⟨by decide, marshalled, mantissa, exponent, read⟩

end Protowire.Pb.Native
