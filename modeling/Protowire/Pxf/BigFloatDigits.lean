import Protowire.Pxf.BigFloatReading

/-!
The digits of a `pxf.BigFloat`: the division they rest on, and the search for the decimal exponent.
A look at an exponent divides exactly, so its quotient says on which side of the value's own
exponent it lies, and the search comes nearer with every turn.
-/

namespace Protowire.Pxf.BigFloat

open Support

/-- `Nat::DivMod` divides: the quotient and the remainder are numbers without leading zero limbs
that make up the dividend, and the remainder is below the divisor. -/
theorem divMod_exact (a d : BigNat) (nonzero : d.value ≠ 0) :
    TrimmedLimbs (BigNat.divMod a d).1.limbs ∧ TrimmedLimbs (BigNat.divMod a d).2.limbs ∧
      limbsValue a.limbs = limbsValue (BigNat.divMod a d).1.limbs * limbsValue d.limbs +
        limbsValue (BigNat.divMod a d).2.limbs ∧
      limbsValue (BigNat.divMod a d).2.limbs < limbsValue d.limbs := by
  have positive := Nat.pos_of_ne_zero nonzero
  obtain ⟨quotient, remainder⟩ := BigNat.value_divMod a d positive
  simp only [BigNat.value] at quotient remainder positive
  refine ⟨(BigNat.divMod a d).1.trimmed, (BigNat.divMod a d).2.trimmed, ?_, ?_⟩
  · rw [quotient, remainder, Nat.mul_comm, Nat.div_add_mod]
  · rw [remainder]
    exact Nat.mod_lt _ positive

theorem divMod_exact_three_by_two :
    (BigNat.ofLimbs [3, 0x80000000]).value ≠ 0 ∧
      limbsValue (BigNat.divMod (.ofLimbs [0, 0, 1]) (.ofLimbs [3, 0x80000000])).2.limbs <
        limbsValue (BigNat.ofLimbs [3, 0x80000000]).limbs :=
  ⟨by decide, (divMod_exact (.ofLimbs [0, 0, 1]) (.ofLimbs [3, 0x80000000]) (by decide)).2.2.2⟩

section

variable {num den : BigNat}

theorem decimalRatio_eq (num : BigNat) (denominator : 0 < den.value) (digits : ℕ) (x : ℤ) :
    0 < (decimalRatio num den digits x).2.value ∧
      ((decimalRatio num den digits x).1.value : ℚ) / (decimalRatio num den digits x).2.value =
        num.value / den.value * 10 ^ ((digits : ℤ) - 1 - x) := by
  have ratio := scaled_ratio num.value denominator (by decide : 0 < 10) ((digits : ℤ) - 1 - x)
  simpa only [decimalRatio, apply_ite BigNat.value, BigNat.value_mul, BigNat.value_pow10,
    Nat.cast_ofNat] using ratio

def exponentOf (num den : BigNat) : ℤ := Int.log 10 ((num.value : ℚ) / den.value)

def lookAt (num den : BigNat) (digits : ℕ) (x : ℤ) : ℤ × BigNat × BigNat × BigNat :=
  let ratio := decimalRatio num den digits x
  (x, (BigNat.divMod ratio.1 ratio.2).1, (BigNat.divMod ratio.1 ratio.2).2, ratio.2)

variable (numerator : 0 < num.value) (denominator : 0 < den.value) {digits : ℕ}

include numerator denominator

theorem value_pos : (0 : ℚ) < num.value / den.value :=
  div_pos (by exact_mod_cast numerator) (by exact_mod_cast denominator)

theorem pow_le_quotient (digits k : ℕ) (x : ℤ) :
    10 ^ k ≤ (lookAt num den digits x).2.1.value ↔ x + 1 - digits + k ≤ exponentOf num den := by
  obtain ⟨divisor, ratio⟩ := decimalRatio_eq num denominator digits x
  obtain ⟨low, high, _⟩ := quotient_bounds (decimalRatio num den digits x).1.value divisor
  rw [ratio] at low high
  rw [lookAt, (BigNat.value_divMod _ _ divisor).1, exponentOf,
    ← Int.zpow_le_iff_le_log (by decide) (value_pos numerator denominator), Nat.cast_ofNat]
  generalize (decimalRatio num den digits x).1.value / (decimalRatio num den digits x).2.value = q at *
  have place : (0 : ℚ) < 10 ^ ((digits : ℤ) - 1 - x) := zpow_pos (by norm_num) _
  have scale : (10 : ℚ) ^ k = 10 ^ (x + 1 - digits + k) * 10 ^ ((digits : ℤ) - 1 - x) := by
    rw [← zpow_natCast, ← zpow_add₀ (by norm_num)]
    congr 1
    ring
  constructor
  · intro bound
    have bound : (10 : ℚ) ^ k ≤ q := by exact_mod_cast bound
    rw [scale] at bound
    exact le_of_mul_le_mul_right (bound.trans low) place
  · intro bound
    by_contra short
    have short : (q : ℚ) + 1 ≤ 10 ^ k := by exact_mod_cast Nat.lt_of_not_le short
    have scaled := mul_le_mul_of_nonneg_right bound place.le
    rw [← scale] at scaled
    linarith

variable (some_ : 0 < digits)

include some_

theorem decimalTurn_eq (x : ℤ) : decimalTurn num den digits x =
    if x < exponentOf num den then .next (x + 1)
    else if exponentOf num den < x then .next (x - 1)
    else .done (lookAt num den digits x) := by
  have high := pow_le_quotient numerator denominator digits digits x
  have low := pow_le_quotient numerator denominator digits (digits - 1) x
  have up : BigNat.cmp (lookAt num den digits x).2.1 (BigNat.pow10 digits) ≠ .lt ↔
      x < exponentOf num den := by
    rw [BigNat.cmp_eq, BigNat.value_pow10, Nat.compare_ne_lt, high]
    omega
  have down : BigNat.cmp (lookAt num den digits x).2.1 (BigNat.pow10 (digits - 1)) = .lt ↔
      exponentOf num den < x := by
    rw [BigNat.cmp_eq, BigNat.value_pow10, Nat.compare_eq_lt, ← Nat.not_le, low]
    omega
  simp only [← up, ← down]
  rfl

theorem lookAt_digits :
    10 ^ (digits - 1) ≤ (lookAt num den digits (exponentOf num den)).2.1.value ∧
      (lookAt num den digits (exponentOf num den)).2.1.value < 10 ^ digits := by
  rw [← Nat.not_le, pow_le_quotient numerator denominator, pow_le_quotient numerator denominator]
  omega

theorem search_stops (stuck : ℤ → ℤ × BigNat × BigNat × BigNat) (fuel : ℕ) : ∀ x,
    decimalDistance num den x < fuel → iterate (decimalTurn num den digits) stuck fuel x =
      lookAt num den digits (exponentOf num den) := by
  induction fuel with
  | zero => intro x near; omega
  | succ fuel ih =>
    intro x near
    have nearer (y : ℤ) : decimalDistance num den y = (y - exponentOf num den).natAbs := rfl
    rw [nearer] at near
    rw [iterate, decimalTurn_eq numerator denominator some_]
    by_cases below : x < exponentOf num den
    · rw [if_pos below]
      exact ih (x + 1) (by rw [nearer]; omega)
    · rw [if_neg below]
      by_cases above : exponentOf num den < x
      · rw [if_pos above]
        exact ih (x - 1) (by rw [nearer]; omega)
      · rw [if_neg above]
        obtain rfl : x = exponentOf num den := by omega
        rfl

def rounded (digits : ℕ) (found : ℤ × BigNat × BigNat × BigNat) : ℤ × BigNat :=
  let half := BigNat.cmp (found.2.2.1.shl 1) found.2.2.2
  let q := if half = .gt ∨ (half = .eq ∧ found.2.1.isOdd) then found.2.1.addSmall 1 else found.2.1
  if BigNat.cmp q (BigNat.pow10 digits) = .eq then (found.1 + 1, BigNat.pow10 (digits - 1))
  else (found.1, q)

omit numerator denominator in
theorem rounded_spec {x : ℤ} {q r divisor : BigNat} {a : ℕ} (quotient : q.value = a / divisor.value)
    (remainder : r.value = a % divisor.value) (low : 10 ^ (digits - 1) ≤ q.value)
    (high : q.value < 10 ^ digits) :
    ((rounded digits (x, q, r, divisor)).2.value : ℚ) * 10 ^ ((rounded digits (x, q, r, divisor)).1 - x) =
        halfEven a divisor.value ∧
      10 ^ (digits - 1) ≤ (rounded digits (x, q, r, divisor)).2.value ∧
      (rounded digits (x, q, r, divisor)).2.value < 10 ^ digits := by
  have least := le_halfEven a divisor.value
  have most := halfEven_le a divisor.value
  have powers : 10 ^ digits = 10 ^ (digits - 1) * 10 := by
    rw [← Nat.pow_succ, Nat.succ_eq_add_one, Nat.sub_add_cancel some_]
  have up : (if BigNat.cmp (r.shl 1) divisor = .gt ∨ (BigNat.cmp (r.shl 1) divisor = .eq ∧ q.isOdd) then
      q.addSmall 1 else q).value = halfEven a divisor.value := by
    rw [halfEven, ← quotient, ← remainder]
    simp only [BigNat.cmp_eq, BigNat.value_shl, BigNat.isOdd_eq, Nat.compare_eq_gt,
      Nat.compare_eq_eq, decide_eq_true_eq]
    have next : (q.addSmall 1).value = q.value + 1 := BigNat.value_addSmall q (by decide)
    split_ifs <;> omega
  simp only [rounded, BigNat.cmp_eq (b := BigNat.pow10 digits), BigNat.value_pow10, Nat.compare_eq_eq, up]
  split
  · rename_i carried
    rw [BigNat.value_pow10, carried]
    refine ⟨?_, Nat.le_refl _, by omega⟩
    rw [powers, add_sub_cancel_left, zpow_one]
    push_cast
    rfl
  · rw [up]
    exact ⟨by simp, by omega, by omega⟩

theorem decimalOf_eq (bin : ℤ) : decimalOf num den digits bin =
    rounded digits (lookAt num den digits (exponentOf num den)) := by
  rw [← search_stops numerator denominator some_ (fun x => (x, .zero, .zero, .zero)) _
    (firstEstimate bin) (Nat.lt_succ_self _)]
  rfl

theorem decimalOf_spec (bin : ℤ) :
    (∃ c, IsHalfEven (num.value / den.value * 10 ^ ((digits : ℤ) - 1 - exponentOf num den)) c ∧
      ((decimalOf num den digits bin).2.value : ℚ) *
        10 ^ ((decimalOf num den digits bin).1 - exponentOf num den) = c) ∧
      10 ^ (digits - 1) ≤ (decimalOf num den digits bin).2.value ∧
      (decimalOf num den digits bin).2.value < 10 ^ digits := by
  obtain ⟨divisor, ratio⟩ := decimalRatio_eq num denominator digits (exponentOf num den)
  obtain ⟨quotient, remainder⟩ := BigNat.value_divMod _ _ divisor
  obtain ⟨low, high⟩ := lookAt_digits numerator denominator some_
  obtain ⟨value, least, most⟩ := rounded_spec some_ quotient remainder low high
  rw [decimalOf_eq numerator denominator some_]
  exact ⟨⟨_, ratio ▸ isHalfEven_halfEven _ divisor, value⟩, least, most⟩

end

theorem rangeDigits_spec (chunk k : ℕ) :
    let s := ((List.range k).map fun i => UInt8.ofNat (0x30 + chunk / 10 ^ i % 10)).reverse
    (∀ c ∈ s, isDigit c = true) ∧ digitsValue 0 s = chunk % 10 ^ k ∧ s.length = k := by
  induction k with
  | zero => simp [Nat.mod_one]
  | succ k ih =>
    obtain ⟨digits, value, length⟩ := ih
    obtain ⟨digit, code⟩ := digit_ofNat (Nat.mod_lt (chunk / 10 ^ k) (show 0 < 10 by decide))
    simp only [List.range_succ, List.map_append, List.map_singleton, List.reverse_append,
      List.reverse_singleton, List.singleton_append]
    refine ⟨List.forall_mem_cons.mpr ⟨digit, digits⟩, ?_, by rw [List.length_cons, length]⟩
    rw [digitsValue_cons, digitsValue_high, value, length, code, Nat.mod_pow_succ]
    ring

theorem toDecimalTurn_lowers : Lowers (fun s : BigNat × Bytes => s.1.value) toDecimalTurn := by
  intro s s' turned
  rw [toDecimalTurn] at turned
  split at turned
  · cases turned
  · rename_i nonzero
    cases turned
    rw [BigNat.isZero_iff] at nonzero
    change (s.1.divSmall 1000000000).1.value < s.1.value
    rw [(s.1.value_divSmall (by decide)).1]
    omega

theorem toDecimalLoop_spec (s : BigNat × Bytes) : (∀ c ∈ s.2, isDigit c = true) →
    let found := loop (fun s => s.1.value) toDecimalTurn (fun s => s.2) s
    (∀ c ∈ found, isDigit c = true) ∧
      digitsValue 0 found = s.1.value * 10 ^ s.2.length + digitsValue 0 s.2 := by
  refine loop_induct toDecimalTurn_lowers (motive := fun s found =>
    (∀ c ∈ s.2, isDigit c = true) → (∀ c ∈ found, isDigit c = true) ∧
      digitsValue 0 found = s.1.value * 10 ^ s.2.length + digitsValue 0 s.2) ?_ ?_ s
  · intro s s' found turned ih digits
    rw [toDecimalTurn] at turned
    split at turned
    · cases turned
    change Turn.next ((s.1.divSmall 1000000000).1, nineDigits (s.1.divSmall 1000000000).2 ++ s.2) = _
      at turned
    cases turned
    obtain ⟨quotient, remainder⟩ := s.1.value_divSmall (d := 1000000000) (by decide)
    obtain ⟨chunk, value, length⟩ := rangeDigits_spec (s.1.divSmall 1000000000).2 9
    change (∀ c ∈ nineDigits _, _) at chunk
    change digitsValue 0 (nineDigits _) = _ at value
    change (nineDigits _).length = 9 at length
    obtain ⟨all, same⟩ := ih (List.forall_mem_append.mpr ⟨chunk, digits⟩)
    refine ⟨all, same.trans ?_⟩
    simp only [List.length_append, length, digitsValue_append]
    rw [digitsValue_high, value, quotient, remainder, Nat.mod_mod_of_dvd _ (by decide), Nat.pow_add]
    have split_ := Nat.div_add_mod s.1.value 1000000000
    generalize s.1.value / 1000000000 = high at *
    generalize s.1.value % 1000000000 = low at *
    rw [← split_]
    ring
  · intro s found turned digits
    rw [toDecimalTurn] at turned
    split at turned
    · rename_i zero
      cases turned
      rw [BigNat.isZero_iff] at zero
      exact ⟨digits, by simp [zero]⟩
    · cases turned

theorem toDecimal_eq {n : BigNat} (positive : 0 < n.value) : toDecimal n = decimal n.value := by
  obtain ⟨digits, value⟩ := toDecimalLoop_spec (n, []) (by simp)
  have nonzero : n.isZero = false := by
    rw [← Bool.not_eq_true, BigNat.isZero_iff]
    omega
  rw [toDecimal, nonzero]
  simp only [Bool.false_eq_true, if_false]
  generalize loop _ toDecimalTurn _ (n, []) = found at *
  have same := digitsValue_dropWhile found
  simp only [List.length_nil, pow_zero, mul_one, digitsValue_nil, add_zero] at value
  rw [value] at same
  cases kept : found.dropWhile (· = 0x30) with
  | nil =>
    rw [kept, digitsValue_nil] at same
    omega
  | cons c rest =>
    have lead : c ≠ 0x30 := by
      have head := List.head_dropWhile_not (· = 0x30) (l := found) (by simp [kept])
      simpa [kept] using head
    have all (b : UInt8) (member : b ∈ c :: rest) : isDigit b = true :=
      digits b ((List.dropWhile_sublist _).subset (kept ▸ member))
    rw [kept] at same
    simp only [List.isEmpty_cons, Bool.false_eq_true, if_false]
    rw [← same]
    exact (eq_decimal lead rest all).1

def writtenValue (f : BigFloatFields) : ℚ := (roundedMantissa f).1.value * 2 ^ (roundedMantissa f).2

def writtenRatio (f : BigFloatFields) : BigNat × BigNat :=
  let (m, exponent) := roundedMantissa f
  (if 0 ≤ exponent then m.shl exponent.toNat else m,
    if 0 ≤ exponent then .ofNat32 1 else (BigNat.ofNat32 1).shl (-exponent).toNat)

theorem writtenRatio_eq (f : BigFloatFields) : 0 < (writtenRatio f).2.value ∧
    ((writtenRatio f).1.value : ℚ) / (writtenRatio f).2.value = writtenValue f := by
  have ratio := scaled_ratio (roundedMantissa f).1.value Nat.one_pos (by decide : 0 < 2)
    (roundedMantissa f).2
  simpa only [writtenRatio, writtenValue, apply_ite BigNat.value, BigNat.value_shl,
    BigNat.value_ofNat32, UInt32.toNat_one, Nat.cast_one, Nat.cast_ofNat, div_one] using ratio

/-- The value written is that of the mantissa and the exponent, rounded to the precision. -/
theorem writtenValue_rounds {f : BigFloatFields} (nonzero : Pb.Native.magnitudeOf f.mantissa ≠ 0) :
    RoundsTo f.prec (Pb.Native.magnitudeOf f.mantissa * 2 ^ f.exponent) (writtenValue f) := by
  change RoundsTo f.prec (Pb.Native.magnitudeOf f.mantissa * 2 ^ f.exponent)
    ((roundToBits (.ofBytes f.mantissa) f.prec false).1.value *
      2 ^ (f.exponent + (roundToBits (.ofBytes f.mantissa) f.prec false).2))
  have same : Pb.Native.magnitudeOf f.mantissa = (BigNat.ofBytes f.mantissa).value :=
    (BigNat.value_ofBytes _).symm
  rw [same] at nonzero ⊢
  generalize BigNat.ofBytes f.mantissa = m at *
  by_cases wide : f.prec < bitLength m.value
  · obtain ⟨kept, shift⟩ := roundToBits_wide wide false
    have whole : (m.value : ℚ) * 2 ^ f.exponent * 2 ^ (-f.exponent) = m.value := by
      rw [mul_assoc, ← zpow_add₀ (by norm_num), add_neg_cancel, zpow_zero, mul_one]
    have none_ : false = true ↔ (m.value : ℚ) < m.value * 2 ^ f.exponent * 2 ^ (-f.exponent) := by
      rw [whole]
      simp
    obtain ⟨low, high, near⟩ := keptBits_spec wide whole.ge (by linarith) none_ rfl
    rw [kept, shift]
    refine ⟨_, _, low, high, near, ?_⟩
    rw [sub_neg_eq_add, add_comm]
  · rw [roundToBits, BigNat.bitLen_eq, if_pos (by omega)]
    simpa using roundsTo_self nonzero (not_lt.mp wide) f.exponent

theorem roundedMantissa_pos {f : BigFloatFields} (precise : f.prec ≠ 0)
    (nonzero : Pb.Native.magnitudeOf f.mantissa ≠ 0) : 0 < (roundedMantissa f).1.value := by
  have value := (writtenValue_rounds nonzero).pos precise
  rw [writtenValue, mul_pos_iff_of_pos_right (zpow_pos (by norm_num) _)] at value
  exact_mod_cast value

def RoundsToDigits (digits : ℕ) (v y : ℚ) : Prop :=
  ∃ (x : ℤ) (c : ℕ), 10 ^ x ≤ v ∧ v < 10 ^ (x + 1) ∧
    IsHalfEven (v * 10 ^ ((digits : ℤ) - 1 - x)) c ∧ y = c * 10 ^ (x + 1 - digits)

theorem writtenRatio_pos {f : BigFloatFields} (mantissa : 0 < (roundedMantissa f).1.value) :
    0 < (writtenRatio f).1.value ∧ 0 < writtenValue f := by
  have value : 0 < writtenValue f :=
    mul_pos (by exact_mod_cast mantissa) (zpow_pos (by norm_num) _)
  refine ⟨Nat.pos_of_ne_zero fun zero => ?_, value⟩
  rw [← (writtenRatio_eq f).2, zero, Nat.cast_zero, zero_div] at value
  exact value.false

theorem pow_le_writtenValue {f : BigFloatFields} (mantissa : 0 < (roundedMantissa f).1.value) (y : ℤ) :
    10 ^ y ≤ writtenValue f ↔ y ≤ exponentOf (writtenRatio f).1 (writtenRatio f).2 := by
  rw [exponentOf, (writtenRatio_eq f).2,
    ← Int.zpow_le_iff_le_log (by decide) (writtenRatio_pos mantissa).2, Nat.cast_ofNat]

theorem formatBigFloatLiteral_eq {f : BigFloatFields} {maxDigits maxExponent : ℤ}
    {m num den q : BigNat} {exponent shown : ℤ} {digits : ℕ}
    {search : BigNat → BigNat → ℕ → ℤ → ℤ × BigNat} (precise : f.prec ≠ 0)
    (within : checkBigFloatLimits f maxDigits maxExponent = none)
    (parts : roundedMantissa f = (m, exponent)) (positive : 0 < m.value)
    (ratio : writtenRatio f = (num, den))
    (asked : Pb.Native.bigFloatPrecDigits f.prec = digits) (searched : decimalOf = search)
    (found : search num den digits (binaryExponent m exponent) = (shown, q)) :
    formatBigFloatLiteral f maxDigits maxExponent =
      .ok ((if f.negative then text "-" else []) ++
        positional ((toDecimal q).rdropWhile (· = 0x30)) shown digits ++
        (text "p" ++ decimal f.prec)) := by
  have nonzero : m.isZero = false := by
    rw [← Bool.not_eq_true, BigNat.isZero_iff]
    exact positive.ne'
  rw [writtenRatio, parts] at ratio
  obtain ⟨rfl, rfl⟩ := Prod.mk.inj ratio
  -- the digits and the search are variables, or checking the last step would run them
  rw [formatBigFloatLiteral, if_neg precise, within, parts, asked, searched]
  simp only [nonzero, Bool.false_eq_true, if_false, found]

theorem decimalOf_rounds {f : BigFloatFields} (mantissa : 0 < (roundedMantissa f).1.value)
    {digits : ℕ} (some_ : 0 < digits) {bin shown : ℤ} {q : BigNat}
    (found : decimalOf (writtenRatio f).1 (writtenRatio f).2 digits bin = (shown, q)) :
    10 ^ (digits - 1) ≤ q.value ∧ q.value < 10 ^ digits ∧
      RoundsToDigits digits (writtenValue f) (q.value * 10 ^ (shown + 1 - digits)) := by
  obtain ⟨denominator, ratio⟩ := writtenRatio_eq f
  obtain ⟨⟨c, even, value⟩, least, most⟩ :=
    decimalOf_spec (writtenRatio_pos mantissa).1 denominator some_ bin
  rw [found] at value least most
  have place := pow_le_writtenValue mantissa
  rw [ratio] at even
  generalize exponentOf (writtenRatio f).1 (writtenRatio f).2 = x at *
  refine ⟨least, most, x, c, (place x).mpr le_rfl, ?_, even, ?_⟩
  · rw [← not_le, place]
    omega
  · have exponents : shown + 1 - digits = shown - x + (x + 1 - digits) := by ring
    rw [← value, mul_assoc, ← zpow_add₀ (by norm_num), exponents]

theorem search_found {f : BigFloatFields} (mantissa : 0 < (roundedMantissa f).1.value)
    {digits : ℕ} (some_ : 0 < digits) (first : ℤ) :
    ∃ (x : ℤ) (q r divisor : BigNat) (turns : ℕ),
      (10 ^ x ≤ writtenValue f ∧ writtenValue f < 10 ^ (x + 1)) ∧
      (∀ y : ℤ, 10 ^ y ≤ writtenValue f → writtenValue f < 10 ^ (y + 1) → y = x) ∧
      (∀ fuel stuck, turns ≤ fuel →
        iterate (decimalTurn (writtenRatio f).1 (writtenRatio f).2 digits) stuck fuel first =
          (x, q, r, divisor)) ∧
      10 ^ (digits - 1) ≤ q.value ∧ q.value < 10 ^ digits := by
  have numerator := (writtenRatio_pos mantissa).1
  have denominator := (writtenRatio_eq f).1
  have place := pow_le_writtenValue mantissa
  obtain ⟨low, high⟩ := lookAt_digits numerator denominator some_
  have search := search_stops numerator denominator some_
  refine ⟨exponentOf (writtenRatio f).1 (writtenRatio f).2, _, _, _, _,
    ⟨(place _).mpr le_rfl, ?_⟩, ?_, fun fuel stuck enough => search stuck fuel first enough,
    low, high⟩
  · rw [← not_le, place]
    omega
  · intro y below above
    rw [place] at below
    rw [← not_le, place] at above
    omega

end Protowire.Pxf.BigFloat
