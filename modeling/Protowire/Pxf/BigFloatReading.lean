import Protowire.Pxf.BigFloatCore
import Protowire.Pxf.NumberTokens

/-!
Literals of big floats, read exactly. The exponent of a rounded quotient is found twice, from two
bit lengths and a comparison and from the division itself; both are the exponent of the exact
value rounded once.
-/

namespace Protowire.Pxf.BigFloat

open Support

variable {den num : BigNat} {prec : ℕ} {digits s precDigits : Bytes} {parts : LiteralParts}
  {maxDigits maxExponent : Int}

theorem roundToBits_wide {m : BigNat} {bits : Nat} (wide : bits < bitLength m.value) (sticky : Bool) :
    (roundToBits m bits sticky).1.value = keptBits m.value (bitLength m.value - bits) sticky ∧
      (roundToBits m bits sticky).2 = bitLength m.value - bits := by
  rw [roundToBits, BigNat.bitLen_eq, if_neg (by omega)]
  refine ⟨?_, rfl⟩
  simp only [BigNat.bit_eq, BigNat.anyBitBelow_eq, BigNat.isOdd_eq, BigNat.value_shr]
  rw [keptBits]
  split
  · rw [BigNat.value_addSmall _ (by decide), BigNat.value_shr]
  · exact BigNat.value_shr _ _

theorem scaledTo_ratio (num : BigNat) (denominator : 0 < den.value) (at_ : Int) :
    0 < (scaledTo num den at_).1.value ∧
      (num.value : ℚ) / den.value =
        (scaledTo num den at_).2.value / (scaledTo num den at_).1.value * 2 ^ at_ := by
  have divisor : (0 : ℚ) < den.value := by exact_mod_cast denominator
  rw [scaledTo]
  split
  · rename_i up
    obtain ⟨k, rfl⟩ := Int.eq_ofNat_of_zero_le up
    simp only [Int.toNat_natCast, BigNat.value_shl]
    refine ⟨Nat.mul_pos denominator (Nat.pow_pos (by decide)), ?_⟩
    rw [zpow_natCast]
    push_cast
    field_simp
  · rename_i down
    obtain ⟨k, rfl⟩ : ∃ k : ℕ, at_ = -k := ⟨(-at_).toNat, by omega⟩
    simp only [neg_neg, Int.toNat_natCast, BigNat.value_shl]
    refine ⟨denominator, ?_⟩
    rw [zpow_neg, zpow_natCast]
    push_cast
    field_simp

theorem scaledTo_le_iff (num : BigNat) (denominator : 0 < den.value) (at_ : Int) :
    (scaledTo num den at_).1.value ≤ (scaledTo num den at_).2.value ↔
      (2 : ℚ) ^ at_ ≤ num.value / den.value := by
  obtain ⟨positive, ratio⟩ := scaledTo_ratio num denominator at_
  have divisor : (0 : ℚ) < (scaledTo num den at_).1.value := by exact_mod_cast positive
  have power : (0 : ℚ) < 2 ^ at_ := zpow_pos (by norm_num) at_
  rw [ratio, le_mul_iff_one_le_left power, one_le_div₀ divisor, Nat.cast_le]

theorem exactExponentAndCarry_spec (numerator : 0 < num.value) (denominator : 0 < den.value)
    (prec : ℕ) :
    (2 : ℚ) ^ ((exactExponentAndCarry num den prec).1 - 1) ≤ num.value / den.value ∧
      (num.value : ℚ) / den.value < 2 ^ (exactExponentAndCarry num den prec).1 ∧
      ((exactExponentAndCarry num den prec).2 = true ↔
        2 ^ (exactExponentAndCarry num den prec).1 * ((2 : ℚ) ^ (prec + 1) - 1) ≤
          num.value / den.value * 2 ^ (prec + 1)) := by
  obtain ⟨low, high⟩ := ratio_bounds numerator denominator
  rw [exactExponentAndCarry]
  simp only [BigNat.bitLen_eq, BigNat.cmp_eq]
  generalize (bitLength num.value : ℤ) - bitLength den.value = e₀ at *
  -- the first comparison decides between the two exponents the bit lengths leave
  have chosen : ∃ e : ℤ, (if compare (scaledTo num den e₀).2.value (scaledTo num den e₀).1.value ≠ .lt
      then e₀ + 1 else e₀) = e ∧ (2 : ℚ) ^ (e - 1) ≤ num.value / den.value ∧
        (num.value : ℚ) / den.value < 2 ^ e := by
    refine ⟨_, rfl, ?_⟩
    have reached := scaledTo_le_iff num denominator e₀
    split
    · rename_i up
      rw [Nat.compare_ne_lt] at up
      rw [add_sub_cancel_right]
      exact ⟨reached.mp up, high⟩
    · rename_i down
      rw [Nat.compare_ne_lt] at down
      exact ⟨low, not_le.mp fun up => down (reached.mpr up)⟩
  obtain ⟨e, same, low, high⟩ := chosen
  rw [same]
  have less := mt (scaledTo_le_iff num denominator e).mp (not_le.mpr high)
  obtain ⟨positive, ratio⟩ := scaledTo_ratio num denominator e
  have carried : 2 ^ e * ((2 : ℚ) ^ (prec + 1) - 1) ≤ num.value / den.value * 2 ^ (prec + 1) ↔
      ((scaledTo num den e).1.value - (scaledTo num den e).2.value) * 2 ^ (prec + 1) ≤
        (scaledTo num den e).1.value := by
    have divisor : (0 : ℚ) < (scaledTo num den e).1.value := by exact_mod_cast positive
    have power : (0 : ℚ) < 2 ^ e := zpow_pos (by norm_num) e
    rw [ratio, mul_comm _ ((2 : ℚ) ^ e), mul_assoc, mul_le_mul_iff_right₀ power, div_mul_eq_mul_div,
      le_div_iff₀ divisor, ← Nat.cast_le (α := ℚ), Nat.cast_mul, Nat.cast_sub (by omega)]
    push_cast
    constructor
    · intro bound
      linarith
    · intro bound
      linarith
  by_cases short : bitLength (scaledTo num den e).1.value ≤ prec + 1
  · rw [if_pos short]
    refine ⟨low, high, iff_of_false (by simp) ?_⟩
    -- the difference is one at least, and a power of two as wide as `a` is past it
    rw [carried]
    rw [bitLength_le] at short
    have step : 2 ^ (prec + 1) ≤
        ((scaledTo num den e).1.value - (scaledTo num den e).2.value) * 2 ^ (prec + 1) :=
      Nat.le_mul_of_pos_left _ (by omega)
    omega
  · rw [if_neg short]
    refine ⟨low, high, ?_⟩
    rw [carried]
    simp only [decide_eq_true_eq, BigNat.value_shl]
    rw [BigNat.value_sub (by omega), Nat.compare_ne_gt]

def scaledRatio (num den : BigNat) (scale : Int) : BigNat × BigNat :=
  (if 0 ≤ scale then num.shl scale.toNat else num, if 0 ≤ scale then den else den.shl (-scale).toNat)

theorem scaledRatio_eq (num : BigNat) (denominator : 0 < den.value) (scale : Int) :
    0 < (scaledRatio num den scale).2.value ∧
      ((scaledRatio num den scale).1.value : ℚ) / (scaledRatio num den scale).2.value =
        num.value / den.value * 2 ^ scale := by
  have ratio := scaled_ratio num.value denominator (by decide : 0 < 2) scale
  simpa only [scaledRatio, apply_ite BigNat.value, BigNat.value_shl, Nat.cast_ofNat] using ratio

theorem quotient_bounds (n : ℕ) {d : ℕ} (positive : 0 < d) :
    ((n / d : ℕ) : ℚ) ≤ n / d ∧ (n : ℚ) / d < (n / d : ℕ) + 1 ∧
      (n % d ≠ 0 ↔ ((n / d : ℕ) : ℚ) < n / d) := by
  have divisor : (0 : ℚ) < d := by exact_mod_cast positive
  have whole : (n : ℚ) = d * (n / d : ℕ) + (n % d : ℕ) := by exact_mod_cast (Nat.div_add_mod n d).symm
  have below : ((n % d : ℕ) : ℚ) < d := by exact_mod_cast Nat.mod_lt n positive
  have rest : (0 : ℚ) ≤ (n % d : ℕ) := Nat.cast_nonneg _
  generalize n / d = q at *
  refine ⟨?_, ?_, ?_⟩
  · rw [le_div_iff₀ divisor]
    linarith
  · rw [div_lt_iff₀ divisor]
    linarith
  · rw [lt_div_iff₀ divisor, ← Nat.pos_iff_ne_zero, ← Nat.cast_pos (α := ℚ)]
    constructor
    · intro more
      linarith
    · intro more
      linarith

theorem roundedBinaryExponent_eq (numerator : 0 < num.value) (denominator : 0 < den.value) {e : ℤ}
    (low : 2 ^ prec ≤ 2 * ((num.value : ℚ) / den.value / 2 ^ e))
    (high : (num.value : ℚ) / den.value / 2 ^ e < 2 ^ prec) :
    roundedBinaryExponent num den prec =
      (if (2 : ℚ) ^ prec ≤ num.value / den.value / 2 ^ e + 1 / 2 then e + 1 else e) + prec := by
  obtain ⟨least, most, carried⟩ := exactExponentAndCarry_spec numerator denominator prec
  rw [roundedBinaryExponent]
  generalize exactExponentAndCarry num den prec = r at *
  obtain ⟨e', carries⟩ := r
  simp only at least most carried ⊢
  generalize (num.value : ℚ) / den.value = x at *
  have two : (2 : ℚ) ≠ 0 := by norm_num
  have power (k : ℤ) : (0 : ℚ) < 2 ^ k := zpow_pos (by norm_num) k
  have same : e = e' - prec := by
    apply le_antisymm
    · refine place_unique low ?_
      rw [div_lt_iff₀ (power _), ← zpow_natCast, ← zpow_add₀ two]
      simpa using most
    · refine place_unique ?_ high
      rw [← mul_div_assoc, le_div_iff₀ (power _), ← zpow_natCast, ← zpow_add₀ two]
      rw [zpow_sub_one₀ two] at least
      simp only [add_sub_cancel]
      linarith
  obtain rfl : e' = e + prec := by omega
  have place := power e
  have reached : carries = true ↔ (2 : ℚ) ^ prec ≤ x / 2 ^ e + 1 / 2 := by
    rw [carried, zpow_add₀ two, zpow_natCast, pow_succ]
    have bits : (0 : ℚ) < 2 ^ prec := by positivity
    have scaled : x = x / 2 ^ e * 2 ^ e := (div_mul_cancel₀ x place.ne').symm
    generalize x / 2 ^ e = y at *
    generalize (2 : ℚ) ^ prec = b at *
    generalize (2 : ℚ) ^ e = w at *
    rw [scaled]
    have cancel : w * b * (b * 2 - 1) ≤ y * w * (b * 2) ↔ (w * b) * (b * 2 - 1) ≤ (w * b) * (y * 2) := by
      constructor
      · intro bound
        linarith
      · intro bound
        linarith
    rw [cancel, mul_le_mul_iff_right₀ (mul_pos place bits)]
    constructor
    · intro bound
      linarith
    · intro bound
      linarith
  by_cases up : (2 : ℚ) ^ prec ≤ x / 2 ^ e + 1 / 2
  · rw [if_pos (reached.mpr up), if_pos up]
    ring
  · rw [if_neg (fun carries => up (reached.mp carries)), if_neg up]

theorem divideRounded_spec (positive : prec ≠ 0) (numerator : 0 < num.value)
    (denominator : 0 < den.value) :
    bitLength (divideRounded num den prec).1.value = prec ∧
      RoundsTo prec (num.value / den.value)
        ((divideRounded num den prec).1.value * 2 ^ (divideRounded num den prec).2) ∧
      (divideRounded num den prec).2 + prec = roundedBinaryExponent num den prec := by
  obtain ⟨scale, scale_eq⟩ : ∃ scale : ℤ, scale = prec + 2 - bitLength num.value + bitLength den.value :=
    ⟨_, rfl⟩
  obtain ⟨divisor, ratio⟩ := scaledRatio_eq num denominator scale
  obtain ⟨quotient, remainder⟩ := BigNat.value_divMod (scaledRatio num den scale).1
    (scaledRatio num den scale).2 divisor
  obtain ⟨low, high, more⟩ := quotient_bounds (scaledRatio num den scale).1.value divisor
  rw [ratio, ← quotient] at low high more
  rw [← remainder] at more
  have wide : prec + 1 < bitLength
      (BigNat.divMod (scaledRatio num den scale).1 (scaledRatio num den scale).2).1.value := by
    rw [lt_bitLength]
    have placed := (ratio_bounds numerator denominator).1
    have bound : (2 : ℚ) ^ (prec + 1) ≤ num.value / den.value * 2 ^ scale := by
      calc (2 : ℚ) ^ (prec + 1)
          = 2 ^ ((bitLength num.value : ℤ) - bitLength den.value - 1) * 2 ^ scale := by
            rw [← zpow_add₀ (by norm_num), ← zpow_natCast]
            congr 1
            push_cast
            omega
        _ ≤ num.value / den.value * 2 ^ scale :=
            mul_le_mul_of_nonneg_right placed (zpow_nonneg (by norm_num) _)
    have bound := lt_of_le_of_lt bound high
    have bound : 2 ^ (prec + 1) <
        (BigNat.divMod (scaledRatio num den scale).1 (scaledRatio num den scale).2).1.value + 1 := by
      exact_mod_cast bound
    omega
  have parts : divideRounded num den prec =
      (let q := BigNat.divMod (scaledRatio num den scale).1 (scaledRatio num den scale).2
       let r := roundToBits q.1 prec !q.2.isZero
       if prec < r.1.bitLen then (r.1.shr 1, -scale + r.2 + 1) else (r.1, -scale + r.2)) := by
    rw [scale_eq, ← BigNat.bitLen_eq, ← BigNat.bitLen_eq]
    rfl
  generalize BigNat.divMod (scaledRatio num den scale).1 (scaledRatio num den scale).2 = q at *
  have sticky : (!q.2.isZero) = true ↔ (q.1.value : ℚ) < num.value / den.value * 2 ^ scale := by
    rw [← more, Bool.not_eq_true', ← Bool.not_eq_true, BigNat.isZero_iff]
  have longer : prec < bitLength q.1.value := by omega
  obtain ⟨kept, shift⟩ := roundToBits_wide longer (!q.2.isZero)
  obtain ⟨least, most, near⟩ := keptBits_spec (e := -scale + (bitLength q.1.value - prec : ℕ)) longer
    low high sticky (by omega)
  obtain ⟨bits, rounds, exponent⟩ := normalized_spec positive least most near
  have result : (divideRounded num den prec).1.value = (normalized prec
        (keptBits q.1.value (bitLength q.1.value - prec) !q.2.isZero)
        (-scale + (bitLength q.1.value - prec : ℕ))).1 ∧
      (divideRounded num den prec).2 = (normalized prec
        (keptBits q.1.value (bitLength q.1.value - prec) !q.2.isZero)
        (-scale + (bitLength q.1.value - prec : ℕ))).2 := by
    rw [parts, normalized]
    simp only [BigNat.bitLen_eq, kept, shift]
    split
    · rw [BigNat.value_shr, kept]
      exact ⟨rfl, rfl⟩
    · exact ⟨kept, rfl⟩
  rw [result.1, result.2]
  refine ⟨bits, rounds, ?_⟩
  rw [exponent, roundedBinaryExponent_eq numerator denominator least most]

def LiteralParts.exp (parts : LiteralParts) : ℤ :=
  match parts.exponent with
  | none => 0
  | some (neg, e) => if neg then -digitsValue 0 e else digitsValue 0 e

def LiteralParts.magnitude (parts : LiteralParts) : ℚ :=
  digitsValue 0 (parts.whole ++ parts.fraction) * 10 ^ (parts.exp - parts.fraction.length)

def Literal.magnitude (lit : Literal) : ℚ := digitsValue 0 lit.digits * 10 ^ lit.exp10

theorem saturatingExponent_eq (all : ∀ c ∈ digits, isDigit c = true) :
    saturatingExponent digits = min (digitsValue 0 digits) (saturated * 10) := by
  have run : ∀ v, digits.foldl
      (fun e c => if e < saturated then e * 10 + digitValue c else saturated * 10)
        (min v (saturated * 10)) = min (digitsValue v digits) (saturated * 10) := by
    induction digits with
    | nil => intro v; rfl
    | cons c rest ih =>
      intro v
      have digit := digitValue_le c (all c (by simp))
      have step : (if min v (saturated * 10) < saturated then
          min v (saturated * 10) * 10 + digitValue c else saturated * 10) =
            min (v * 10 + digitValue c) (saturated * 10) := by
        have bound : saturated = 36028797018963968 := by decide
        split
        · omega
        · omega
      rw [List.foldl_cons, step, ih (fun d member => all d (by simp [member])), digitsValue_cons]
  exact run 0

theorem digitValue_lt (c : UInt8) : digitValue c < 2 ^ 32 := by
  have byte := c.toNat_lt
  rw [digitValue]
  omega

theorem digitsNumber_value (digits : Bytes) : (digitsNumber digits).value = digitsValue 0 digits := by
  have run : ∀ n : BigNat, (digits.foldl (fun n c => (n.mulSmall 10).addSmall (digitValue c)) n).value =
      digitsValue n.value digits := by
    induction digits with
    | nil => intro n; rfl
    | cons c rest ih =>
      intro n
      rw [List.foldl_cons, ih, BigNat.value_addSmall _ (digitValue_lt c),
        BigNat.value_mulSmall _ (by decide), digitsValue_cons]
  exact run .zero

theorem ratioOf_value (lit : Literal) : 0 < (ratioOf lit).2.value ∧
    ((ratioOf lit).1.value : ℚ) / (ratioOf lit).2.value = lit.magnitude := by
  rw [ratioOf, Literal.magnitude]
  split
  · rename_i up
    obtain ⟨k, exponent⟩ := Int.eq_ofNat_of_zero_le up
    rw [exponent]
    simp only [BigNat.value_mul, digitsNumber_value, Int.toNat_natCast, BigNat.value_pow10,
      BigNat.value_ofNat32]
    refine ⟨by decide, ?_⟩
    rw [zpow_natCast]
    simp
  · rename_i down
    obtain ⟨k, exponent⟩ : ∃ k : ℕ, lit.exp10 = -k := ⟨(-lit.exp10).toNat, by omega⟩
    rw [exponent]
    simp only [digitsNumber_value, neg_neg, Int.toNat_natCast, BigNat.value_pow10]
    refine ⟨Nat.pow_pos (by decide), ?_⟩
    rw [zpow_neg, zpow_natCast]
    push_cast
    rfl

theorem digitsValue_rdropWhile (digits : Bytes) : digitsValue 0 digits =
    digitsValue 0 (digits.rdropWhile (· = 0x30)) *
      10 ^ (digits.length - (digits.rdropWhile (· = 0x30)).length) := by
  have parts : digits.rdropWhile (· = 0x30) ++ digits.rtakeWhile (· = 0x30) = digits :=
    List.rdropWhile_append_rtakeWhile
  have zeros : digits.rtakeWhile (· = 0x30) =
      List.replicate (digits.rtakeWhile (· = 0x30)).length 0x30 := by
    rw [List.eq_replicate_iff]
    exact ⟨rfl, fun c member => by simpa using List.mem_rtakeWhile_imp member⟩
  have length := congrArg List.length parts
  rw [List.length_append] at length
  have count : digits.length - (digits.rdropWhile (· = 0x30)).length =
      (digits.rtakeWhile (· = 0x30)).length := by omega
  rw [count, ← digitsValue_zeros, ← zeros, parts]

theorem exponentPart_digits {exponent : Option (Bool × Bytes)}
    (read : exponentPart s = some exponent) : ∀ e ∈ exponent, ∀ c ∈ e.2, isDigit c = true := by
  rw [exponentPart] at read
  simp only at read
  split at read
  · split at read
    · cases read
    · rename_i digits
      rw [Option.some.injEq] at read
      rw [not_or, not_not] at digits
      intro e member
      rw [← read, Option.mem_some_iff] at member
      rw [← member]
      exact List.all_eq_true.mp digits.2
  · split at read
    · cases read
      intro e member
      cases member
    · cases read

theorem literalParts_exponent (read : literalParts s = some parts) :
    ∀ e ∈ parts.exponent, ∀ c ∈ e.2, isDigit c = true := by
  rw [literalParts] at read
  simp only at read
  split at read
  · cases read
  · obtain ⟨exponent, found, made⟩ := Option.map_eq_some_iff.mp read
    rw [← made]
    exact exponentPart_digits found

theorem saturatedExp_eq (read : literalParts s = some parts)
    (small : parts.exp.natAbs ≤ saturated * 10) : parts.saturatedExp = parts.exp := by
  have digits := literalParts_exponent read
  rw [LiteralParts.exp] at small
  rw [LiteralParts.saturatedExp, LiteralParts.exp]
  cases found : parts.exponent with
  | none => rfl
  | some e =>
    simp only [found] at small ⊢
    have within : digitsValue 0 e.2 ≤ saturated * 10 := by
      cases sign : e.1 <;> simpa [sign] using small
    rw [saturatingExponent_eq (digits e found), min_eq_left within]

theorem trimmed_magnitude (read : literalParts s = some parts)
    (small : parts.exp.natAbs ≤ saturated * 10) : parts.trimmed.magnitude = parts.magnitude := by
  have value := digitsValue_dropWhile (parts.whole ++ parts.fraction)
  rw [LiteralParts.trimmed]
  simp only
  split
  · rename_i empty
    rw [List.isEmpty_iff] at empty
    rw [empty] at value
    rw [LiteralParts.magnitude, ← value]
    simp [Literal.magnitude]
  · have trailing := digitsValue_rdropWhile ((parts.whole ++ parts.fraction).dropWhile (· = 0x30))
    rw [Literal.magnitude, LiteralParts.magnitude, ← value, trailing, saturatedExp_eq read small]
    simp only
    generalize ((parts.whole ++ parts.fraction).dropWhile (· = 0x30)).length -
      (((parts.whole ++ parts.fraction).dropWhile (· = 0x30)).rdropWhile (· = 0x30)).length = zeros
    have exponent : -(parts.fraction.length : ℤ) + parts.exp + zeros =
        zeros + (parts.exp - parts.fraction.length) := by ring
    rw [exponent, zpow_add₀ (by norm_num), zpow_natCast]
    push_cast
    ring

theorem trimmed_negative (parts : LiteralParts) : parts.trimmed.negative = parts.negative := by
  rw [LiteralParts.trimmed]
  simp only
  split <;> rfl

theorem literalParts_digits (read : literalParts s = some parts) :
    ∀ c ∈ parts.whole ++ parts.fraction, isDigit c = true := by
  rw [literalParts] at read
  simp only at read
  split at read
  · cases read
  · obtain ⟨exponent, -, made⟩ := Option.map_eq_some_iff.mp read
    rw [← made]
    intro c member
    rcases List.mem_append.mp member with whole | fraction
    · exact List.mem_takeWhile_imp whole
    · simp only at fraction
      split at fraction
      · exact List.mem_takeWhile_imp fraction
      · cases fraction

theorem digitsValue_pos {c : UInt8} (digit : isDigit c = true) (nonzero : c ≠ 0x30) (rest : Bytes) :
    0 < digitsValue 0 (c :: rest) := by
  have value : 0 < digitValue c := by
    simp only [isDigit, Bool.and_eq_true, decide_eq_true_eq, UInt8.le_iff_toNat_le,
      UInt8.reduceToNat] at digit
    have differ : c.toNat ≠ 0x30 := fun same => nonzero (UInt8.toNat_inj.mp same)
    rw [digitValue]
    omega
  rw [digitsValue_cons, digitsValue_high]
  have power : 0 < 10 ^ rest.length := Nat.pow_pos (by decide)
  have product : 0 < (0 * 10 + digitValue c) * 10 ^ rest.length := Nat.mul_pos (by omega) power
  omega

theorem trimmed_positive (read : literalParts s = some parts)
    (filled : parts.trimmed.digits.isEmpty = false) : 0 < digitsValue 0 parts.trimmed.digits := by
  have digits := literalParts_digits read
  rw [LiteralParts.trimmed] at filled ⊢
  simp only at filled ⊢
  split at filled
  · cases filled
  rename_i some_
  rw [if_neg some_]
  have trailing := digitsValue_rdropWhile ((parts.whole ++ parts.fraction).dropWhile (· = 0x30))
  have whole : 0 < digitsValue 0 ((parts.whole ++ parts.fraction).dropWhile (· = 0x30)) := by
    cases found : (parts.whole ++ parts.fraction).dropWhile (· = 0x30) with
    | nil => simp [found] at some_
    | cons c rest =>
      refine digitsValue_pos (digits c ?_) ?_ rest
      · exact (List.dropWhile_sublist _).subset (found ▸ List.mem_cons_self)
      · have head := List.head_dropWhile_not (p := fun c : UInt8 => decide (c = 0x30))
          (l := parts.whole ++ parts.fraction) (by simp [found])
        simpa [found] using head
  rw [trailing] at whole
  exact Nat.pos_of_mul_pos_right whole

theorem magnitude_empty (empty : parts.trimmed.digits.isEmpty = true) : parts.magnitude = 0 := by
  have value := digitsValue_dropWhile (parts.whole ++ parts.fraction)
  have trailing := digitsValue_rdropWhile ((parts.whole ++ parts.fraction).dropWhile (· = 0x30))
  have nothing : ((parts.whole ++ parts.fraction).dropWhile (· = 0x30)).rdropWhile (· = 0x30) = [] := by
    rw [LiteralParts.trimmed] at empty
    simp only at empty
    split at empty
    · next zeros => rw [List.isEmpty_iff.mp zeros, List.rdropWhile_nil]
    · exact List.isEmpty_iff.mp empty
  rw [nothing, digitsValue_nil, Nat.zero_mul] at trailing
  rw [LiteralParts.magnitude, ← value, trailing]
  simp

theorem precisionOf_ne_zero (found : precisionOf precDigits maxDigits = .ok prec) : prec ≠ 0 := by
  rw [precisionOf] at found
  split at found
  · cases found
    decide
  · split at found
    · cases found
    · rename_i v parsed
      split at found
      · cases found
      · cases found
        rw [parsePrecision] at parsed
        split at parsed
        · cases parsed
        · simp only at parsed
          split at parsed
          · cases parsed
          · rename_i bounds
            rw [Option.some.injEq] at parsed
            omega

theorem roundLiteral_spec {lit : Literal} (positive : prec ≠ 0)
    (nonzero : 0 < digitsValue 0 lit.digits) (maxExponent : Int) :
    (∀ found expected, roundLiteral lit prec maxExponent ≠ .error (.internal found expected)) ∧
      ∀ f, roundLiteral lit prec maxExponent = .ok f →
        f.prec = prec ∧ f.negative = lit.negative ∧
          bitLength (Pb.Native.magnitudeOf f.mantissa) = prec ∧
          RoundsTo prec lit.magnitude (Pb.Native.magnitudeOf f.mantissa * 2 ^ f.exponent) := by
  obtain ⟨denominator, ratio⟩ := ratioOf_value lit
  have divisor : (0 : ℚ) < (ratioOf lit).2.value := by exact_mod_cast denominator
  have numerator : 0 < (ratioOf lit).1.value := by
    have value : (0 : ℚ) < lit.magnitude := by
      rw [Literal.magnitude]
      exact mul_pos (by exact_mod_cast nonzero) (zpow_pos (by norm_num) _)
    rw [← ratio, div_pos_iff_of_pos_right divisor] at value
    exact_mod_cast value
  obtain ⟨bits, rounds, exponent⟩ := divideRounded_spec positive numerator denominator
  have same : binaryExponent (divideRounded (ratioOf lit).1 (ratioOf lit).2 prec).1
      (divideRounded (ratioOf lit).1 (ratioOf lit).2 prec).2 =
        roundedBinaryExponent (ratioOf lit).1 (ratioOf lit).2 prec := by
    rw [binaryExponent, BigNat.bitLen_eq, bits, exponent]
  rw [roundLiteral]
  simp only [same]
  constructor
  · intro found expected refused
    split at refused
    · cases refused
    split at refused
    · cases refused
    · rw [if_neg (fun differ => differ rfl)] at refused
      cases refused
  · intro f made
    split at made
    · cases made
    split at made
    · cases made
    rw [if_neg (fun differ => differ rfl)] at made
    cases made
    refine ⟨rfl, rfl, ?_, ?_⟩
    · rw [Pb.Native.magnitudeOf, BigNat.ofBig_toBytes, bits]
    · rw [Pb.Native.magnitudeOf, BigNat.ofBig_toBytes, ← ratio]
      exact rounds

theorem precisionOf_refuses {r : Refusal} (refused : precisionOf precDigits maxDigits = .error r)
    (found expected : Int) : r ≠ .internal found expected := by
  rw [precisionOf] at refused
  split at refused
  · cases refused
  · split at refused
    · cases refused
      simp
    · split at refused
      · cases refused
        simp
      · cases refused

theorem goRefusal_refuses {go : GoFloat} {r : Refusal}
    (refused : goRefusal go prec maxExponent = some r) (found expected : Int) :
    r ≠ .internal found expected := by
  rw [goRefusal] at refused
  split_ifs at refused <;> cases refused <;> simp

theorem readLiteral_cases (literal : Bytes) (suffixed : Bool) (prec : ℕ) (maxExponent : Int) :
    (∃ r, readLiteral literal suffixed prec maxExponent = .error r ∧
      ∀ found expected, r ≠ .internal found expected) ∨
    ∃ parts, literalParts literal = some parts ∧
      (parts.trimmed.digits.isEmpty = true ∧ readLiteral literal suffixed prec maxExponent =
          .ok ⟨[], 0, if suffixed then prec else 0, parts.trimmed.negative⟩ ∨
        parts.trimmed.digits.isEmpty = false ∧ readLiteral literal suffixed prec maxExponent =
          roundLiteral parts.trimmed prec maxExponent) := by
  rw [readLiteral, splitLiteral]
  cases read : literalParts literal with
  | none => exact .inl ⟨.invalid, rfl, by simp⟩
  | some parts =>
    simp only [Option.map_some]
    cases (scanLikeGo literal).bind (goParse · (min prec checkPrec)) with
    | none => exact .inl ⟨.invalid, rfl, by simp⟩
    | some go =>
      cases zero : parts.trimmed.digits.isEmpty with
      | true => exact .inr ⟨parts, rfl, .inl ⟨zero, by simp⟩⟩
      | false =>
        simp only [Bool.false_eq_true, if_false]
        cases refused : goRefusal go prec maxExponent with
        | some r => exact .inl ⟨r, rfl, goRefusal_refuses refused⟩
        | none => exact .inr ⟨parts, rfl, .inr ⟨zero, rfl⟩⟩

def inRun (c : UInt8) : Bool := isDigit c || c = 0x2E

theorem exponentPart_opens {exponent : Option (Bool × Bytes)}
    (read : exponentPart s = some exponent) : s.takeWhile inRun = [] := by
  cases s with
  | nil => rfl
  | cons c rest =>
    rw [exponentPart, peek_zero] at read
    split at read
    · next opens => obtain rfl | rfl := opens <;> exact List.takeWhile_cons_of_neg (by decide)
    · cases read

theorem drop_run {front rest : Bytes} {exponent : Option (Bool × Bytes)}
    (inside : ∀ c ∈ front, inRun c = true) (read : exponentPart rest = some exponent) :
    (front ++ rest).drop ((front ++ rest).takeWhile inRun).length = rest := by
  rw [List.takeWhile_append_of_pos inside, exponentPart_opens read, List.append_nil, List.drop_left]

theorem literalParts_run (read : literalParts s = some parts) :
    exponentPart ((withoutSign s).drop ((withoutSign s).takeWhile inRun).length) =
      some parts.exponent := by
  rw [literalParts] at read
  simp only at read
  have whole : (withoutSign s).takeWhile isDigit ++ (withoutSign s).dropWhile isDigit =
      withoutSign s := List.takeWhile_append_dropWhile
  have digits : ∀ c ∈ (withoutSign s).takeWhile isDigit, inRun c = true := fun c member => by
    simp [inRun, List.mem_takeWhile_imp member]
  generalize (withoutSign s).takeWhile isDigit = front at *
  generalize (withoutSign s).dropWhile isDigit = back at *
  rw [← whole]
  split at read
  · cases read
  · obtain ⟨exponent, found, rfl⟩ := Option.map_eq_some_iff.mp read
    split at found
    · next pointed =>
        obtain ⟨rest, rfl⟩ : ∃ rest, back = 0x2E :: rest := by
          cases back with
          | nil => exact absurd pointed (by decide)
          | cons c rest => exact ⟨rest, congrArg (· :: rest) pointed⟩
        have split_ : front ++ 0x2E :: rest =
            front ++ 0x2E :: rest.takeWhile isDigit ++ rest.dropWhile isDigit := by
          rw [List.append_assoc, List.cons_append, List.takeWhile_append_dropWhile]
        rw [List.drop_one, List.tail_cons] at found
        rw [split_, drop_run ?_ found]
        · exact found
        · intro c member
          rcases List.mem_append.mp member with early | late
          · exact digits c early
          · rcases List.mem_cons.mp late with rfl | fraction
            · decide
            · simp [inRun, List.mem_takeWhile_imp fraction]
    · rw [drop_run digits found]
      exact found

theorem foldl_scanDigit {run : Bytes} (inside : ∀ c ∈ run, inRun c = true) (count : ℕ)
    (state : GoScan × Bool) (frac : state.1.frac ≤ count) (mant : state.1.mant.value < 10 ^ count) :
    (run.foldl scanDigit state).1.exp = state.1.exp ∧
      (run.foldl scanDigit state).1.frac ≤ count + run.length ∧
      (run.foldl scanDigit state).1.mant.value < 10 ^ (count + run.length) := by
  induction run generalizing count state with
  | nil => exact ⟨rfl, frac, mant⟩
  | cons c rest ih =>
    have step : (scanDigit state c).1.exp = state.1.exp ∧ (scanDigit state c).1.frac ≤ count + 1 ∧
        (scanDigit state c).1.mant.value < 10 ^ (count + 1) := by
      rw [Nat.pow_succ, scanDigit]
      split
      · exact ⟨rfl, frac.trans (Nat.le_succ _), mant.trans_le (Nat.le_mul_of_pos_right _ (by decide))⟩
      · next point =>
          have digit : digitValue c ≤ 9 :=
            digitValue_le c (by simpa [inRun, point] using inside c (by simp))
          refine ⟨rfl, ?_, ?_⟩
          · simp only
            split <;> omega
          · simp only
            split
            · rw [BigNat.value_addSmall _ (digitValue_lt c), BigNat.value_mulSmall _ (by decide)]
              omega
            · omega
    obtain ⟨exp, frac', mant'⟩ := ih (fun d member => inside d (by simp [member])) (count + 1) _
      step.2.1 step.2.2
    rw [List.length_cons, Nat.add_comm rest.length, ← Nat.add_assoc]
    exact ⟨exp.trans step.1, frac', mant'⟩

theorem scanExponent_eq {limit mag found : ℕ} (read : scanExponent limit mag digits = some found) :
    found = digitsValue mag digits := by
  induction digits generalizing mag with
  | nil => exact (Option.some.inj read).symm
  | cons c rest ih =>
    rw [scanExponent] at read
    split at read
    · cases read
    · exact ih read

theorem scanLikeGo_spec {scan : GoScan} (found : scanLikeGo s = some scan)
    (read : literalParts s = some parts) :
    scan.exp = parts.exp ∧ scan.frac ≤ s.length ∧ scan.mant.value < 10 ^ s.length := by
  have exponent := literalParts_run read
  have shorter : (withoutSign s).length ≤ s.length := by
    rw [withoutSign]
    split
    · simp
    · exact le_rfl
  have run : ((withoutSign s).takeWhile inRun).length ≤ s.length :=
    (List.takeWhile_sublist _).length_le.trans shorter
  have inside : ∀ c ∈ (withoutSign s).takeWhile inRun, inRun c = true :=
    fun c member => List.mem_takeWhile_imp member
  obtain ⟨exp, frac, mant⟩ := foldl_scanDigit inside 0 ({}, false) (Nat.le_refl _) (by decide)
  rw [Nat.zero_add] at frac mant
  have power := Nat.pow_le_pow_right (show 0 < 10 by decide) run
  change (if _ then some _ else _) = some scan at found
  change exponentPart ((withoutSign s).drop ((withoutSign s).takeWhile
    fun c => isDigit c || c = 0x2E).length) = _ at exponent
  generalize (withoutSign s).drop _ = rest at found exponent
  rw [exponentPart] at exponent
  rw [LiteralParts.exp]
  split at found
  · next empty =>
      obtain rfl := Option.some.inj found
      rw [List.isEmpty_iff.mp empty] at exponent
      rw [if_neg (by decide), if_pos List.isEmpty_nil] at exponent
      rw [← Option.some.inj exponent]
      exact ⟨exp, frac.trans run, mant.trans_le power⟩
  · next more =>
      obtain ⟨mag, counted, rfl⟩ := Option.map_eq_some_iff.mp found
      obtain ⟨size, sized, same⟩ := Option.bind_eq_some_iff.mp counted
      rw [← Option.some.inj same, scanExponent_eq sized]
      refine ⟨?_, frac.trans run, mant.trans_le power⟩
      rw [if_neg more] at exponent
      split at exponent
      · change (if _ then none else _) = _ at exponent
        split at exponent
        · cases exponent
        · rw [← Option.some.inj exponent]
          simp
      · cases exponent

theorem goParse_range {scan : GoScan} {go : GoFloat} (parsed : goParse scan prec = some go) :
    go.form = .zero ∨ (goMinExp ≤ (scan.mant.bitLen : ℤ) - scan.frac + scan.exp ∧
      (scan.mant.bitLen : ℤ) - scan.frac + scan.exp ≤ goMaxExp) := by
  rw [goParse] at parsed
  split at parsed
  · obtain rfl := Option.some.inj parsed
    exact .inl rfl
  · change (if _ then none else if _ then none else _) = _ at parsed
    split at parsed
    · cases parsed
    · split at parsed
      · cases parsed
      · next inside =>
          rw [not_or, not_lt, not_lt] at inside
          exact .inr inside

/-- Of what is read as a number other than zero, the written exponent is as near as the length of
the literal lets it be. -/
theorem readLiteral_exp {literal : Bytes} {suffixed : Bool} {f : BigFloatFields}
    (made : readLiteral literal suffixed prec maxExponent = .ok f)
    (read : literalParts literal = some parts) (filled : parts.trimmed.digits.isEmpty = false)
    (short : literal.length < 2 ^ 31) : parts.exp.natAbs ≤ saturated * 10 := by
  rw [readLiteral, splitLiteral, read, Option.map_some] at made
  simp only [filled, Bool.false_eq_true, if_false] at made
  split at made
  · cases made
  · next go found =>
      obtain ⟨scan, scanned, parsed⟩ := Option.bind_eq_some_iff.mp found
      obtain ⟨exp, frac, mant⟩ := scanLikeGo_spec scanned read
      have bits : scan.mant.bitLen ≤ 4 * literal.length := by
        rw [BigNat.bitLen_eq, bitLength_le, Nat.pow_mul]
        exact mant.trans_le (Nat.pow_le_pow_left (by decide) _)
      rcases goParse_range parsed with zero | ⟨low, high⟩
      · rw [goRefusal, if_neg (by rw [zero]; decide), if_pos zero] at made
        cases made
      · rw [exp] at low high
        simp only [goMinExp, goMaxExp] at low high
        have bound : saturated * 10 = 360287970189639680 := by decide
        omega

end Protowire.Pxf.BigFloat
