import Protowire.Detail.Decimal
import Protowire.Pb.BigMessages
import Protowire.Pb.BytewiseCore

/-!
The bytes of a magnitude compute with the number they write. So a big number is marshalled and
unmarshalled as the model on numbers has it, while what is read is short enough to be counted.
-/

namespace Protowire.Pb.Native.Bytewise

open Support Wire Limit

variable {factor carry n : Nat} {mag data : Bytes}

theorem magnitudeOf_cons (b : UInt8) (rest : Bytes) :
    magnitudeOf (b :: rest) = b.toNat * 256 ^ rest.length + magnitudeOf rest := by
  rw [magnitudeOf, ofBig_cons, ofBig_high, magnitudeOf, Nat.zero_mul, Nat.zero_add]

theorem magnitudeOf_lt (mag : Bytes) : magnitudeOf mag < 256 ^ mag.length := ofBig_lt mag

theorem mulAdd_spec (factor carry : Nat) (mag : Bytes) :
    magnitudeOf (mulAdd factor carry mag).1 + 256 ^ mag.length * (mulAdd factor carry mag).2 =
        magnitudeOf mag * factor + carry ∧
      (mulAdd factor carry mag).1.length = mag.length := by
  induction mag with
  | nil => simp [mulAdd, magnitudeOf, ofBig]
  | cons b rest ih =>
    obtain ⟨value, length⟩ := ih
    rw [mulAdd]
    simp only
    refine ⟨?_, by rw [List.length_cons, length, List.length_cons]⟩
    have byte : (UInt8.ofNat (b.toNat * factor + (mulAdd factor carry rest).2)).toNat =
        (b.toNat * factor + (mulAdd factor carry rest).2) % 256 := by simp
    have split_ := Nat.mod_add_div (b.toNat * factor + (mulAdd factor carry rest).2) 256
    rw [magnitudeOf_cons, length, byte, magnitudeOf_cons, List.length_cons, Nat.pow_succ]
    calc _ = ((b.toNat * factor + (mulAdd factor carry rest).2) % 256 +
            256 * ((b.toNat * factor + (mulAdd factor carry rest).2) / 256)) *
              256 ^ rest.length + magnitudeOf (mulAdd factor carry rest).1 := by ring
      _ = b.toNat * 256 ^ rest.length * factor + (magnitudeOf (mulAdd factor carry rest).1 +
            256 ^ rest.length * (mulAdd factor carry rest).2) := by rw [split_]; ring
      _ = _ := by rw [value]; ring

theorem mulAdd_carry (small : factor < 256) (carried : carry < 256) (mag : Bytes) :
    (mulAdd factor carry mag).2 < 256 := by
  induction mag with
  | nil => exact carried
  | cons b rest ih =>
    have byte := b.toNat_lt
    have product : b.toNat * factor ≤ 255 * 255 := Nat.mul_le_mul (by omega) (by omega)
    simp only [mulAdd]
    omega

theorem magnitudeOf_pushCarry {r : Bytes × Nat} (small : r.2 < 256) :
    magnitudeOf (pushCarry r) = magnitudeOf r.1 + 256 ^ r.1.length * r.2 := by
  rw [magnitudeOf, pushCarry, ofBig_magnitudeFrom _ _ _ (by omega), ofBig_high, magnitudeOf]
  ring

theorem magnitudeOf_pushCarry_mulAdd (small : factor < 256) (carried : carry < 256) (mag : Bytes) :
    magnitudeOf (pushCarry (mulAdd factor carry mag)) = magnitudeOf mag * factor + carry := by
  obtain ⟨value, length⟩ := mulAdd_spec factor carry mag
  rw [magnitudeOf_pushCarry (mulAdd_carry small carried mag), length, value]

theorem magnitudeOf_mulBy10 (mag : Bytes) : magnitudeOf (mulBy10 mag) = magnitudeOf mag * 10 :=
  magnitudeOf_pushCarry_mulAdd (by decide) (by decide) mag

theorem magnitudeOf_addU8 (mag : Bytes) {v : Nat} (small : v < 256) :
    magnitudeOf (addU8 mag v) = magnitudeOf mag + v := by
  rw [addU8, magnitudeOf_pushCarry_mulAdd (by decide) small, Nat.mul_one]

theorem divFrom_spec {d : Nat} (positive : 0 < d) (mag : Bytes) : ∀ rem, rem < d →
    magnitudeOf (divFrom d rem mag).1 = ofBig rem mag / d ∧
      (divFrom d rem mag).2 = ofBig rem mag % d ∧ (divFrom d rem mag).1.length = mag.length := by
  induction mag with
  | nil =>
    intro rem below
    exact ⟨(Nat.div_eq_of_lt below).symm, (Nat.mod_eq_of_lt below).symm, rfl⟩
  | cons b rest ih =>
    intro rem below
    have byte := b.toNat_lt
    obtain ⟨quotient, remainder, length⟩ := ih ((rem * 256 + b.toNat) % d) (Nat.mod_lt _ positive)
    have digit : (rem * 256 + b.toNat) / d < 256 := by
      rw [Nat.div_lt_iff_lt_mul positive]
      calc rem * 256 + b.toNat < (rem + 1) * 256 := by omega
        _ ≤ d * 256 := Nat.mul_le_mul_right _ below
        _ = 256 * d := Nat.mul_comm _ _
    have whole : ofBig (rem * 256 + b.toNat) rest = ofBig ((rem * 256 + b.toNat) % d) rest +
        d * ((rem * 256 + b.toNat) / d * 256 ^ rest.length) := by
      have split_ := Nat.mod_add_div (rem * 256 + b.toNat) d
      rw [ofBig_high, ofBig_high ((rem * 256 + b.toNat) % d)]
      calc _ = ((rem * 256 + b.toNat) % d + d * ((rem * 256 + b.toNat) / d)) * 256 ^ rest.length +
              ofBig 0 rest := by rw [split_]
        _ = _ := by ring
    simp only [divFrom]
    refine ⟨?_, ?_, by simp [length]⟩
    · rw [magnitudeOf_cons, length, quotient, ofBig_cons, whole,
        Nat.add_mul_div_left _ _ positive, toNat_ofNat_lt digit]
      ring
    · rw [remainder, ofBig_cons, whole, Nat.add_mul_mod_self_left]

theorem divBy10_eq (mag : Bytes) :
    divBy10 mag = (magnitudeBytes (magnitudeOf mag / 10), magnitudeOf mag % 10) := by
  obtain ⟨quotient, remainder, _⟩ := divFrom_spec (show 0 < 10 by decide) mag 0 (by decide)
  rw [divBy10, trimLeadingZeros_eq, quotient, remainder]
  rfl

theorem appendDigits_eq (s : Bytes) : ∀ mag, (appendDigits mag s).map magnitudeOf =
    Pb.parseDigits (magnitudeOf mag) s := by
  induction s with
  | nil => intro mag; rfl
  | cons c rest ih =>
    intro mag
    rw [appendDigits]
    cases digit : isDigit c with
    | false => simp [Pb.parseDigits, digit]
    | true =>
      have small := digitValue_le c digit
      rw [if_pos rfl, ih, magnitudeOf_addU8 _ (by omega), magnitudeOf_mulBy10]
      simp [Pb.parseDigits, digit, digitsValue_cons]

theorem bitLen_eq (trimmed : Trimmed mag) : bitLen mag = bitLength (magnitudeOf mag) := by
  cases mag with
  | nil => rfl
  | cons top rest =>
    have nonzero : top.toNat ≠ 0 := by
      intro zero
      exact trimmed (by rw [List.head?_cons, UInt8.toNat.inj (b := 0) zero])
    obtain ⟨b, bits, low, high⟩ := exists_bitLength nonzero
    have below := magnitudeOf_lt rest
    have power : 256 ^ rest.length = 2 ^ (rest.length * 8) := by
      rw [show 256 = 2 ^ 8 by decide, ← Nat.pow_mul, Nat.mul_comm]
    rw [power] at below
    rw [bitLen, bits, magnitudeOf_cons, power, ← Nat.add_assoc]
    refine (bitLength_eq ?_ ?_).symm
    · rw [Nat.add_comm, Nat.pow_add]
      exact Nat.le_trans (Nat.mul_le_mul_right _ low) (Nat.le_add_right _ _)
    · have power' : 2 ^ (rest.length * 8 + b + 1) = 2 ^ (b + 1) * 2 ^ (rest.length * 8) := by
        rw [← Nat.pow_add]
        congr 1
        omega
      rw [power']
      calc top.toNat * 2 ^ (rest.length * 8) + magnitudeOf rest
          < (top.toNat + 1) * 2 ^ (rest.length * 8) := by rw [Nat.succ_mul]; omega
        _ ≤ _ := Nat.mul_le_mul_right _ high

theorem bit_eq (mag : Bytes) (i : Nat) : bit mag i = (magnitudeOf mag).testBit i := by
  have power : 256 ^ (i / 8) = 2 ^ (8 * (i / 8)) := by
    rw [show 256 = 2 ^ 8 by decide, ← Nat.pow_mul]
  have inside : i % 8 < 8 := Nat.mod_lt _ (by decide)
  have place : i % 8 + 8 * (i / 8) = i := Nat.mod_add_div i 8
  rw [bit, ofLittle_getD, ← ofBig_eq_reverse, power, show 256 = 2 ^ 8 by decide,
    Nat.testBit_mod_two_pow, Nat.testBit_div_two_pow, place]
  simp [inside, magnitudeOf]

theorem any_bit_eq (mag : Bytes) (k : Nat) :
    (List.range k).any (bit mag) = decide (magnitudeOf mag % 2 ^ k ≠ 0) := by
  rw [Bool.eq_iff_iff, List.any_eq_true, decide_eq_true_iff]
  constructor
  · rintro ⟨i, below, set⟩ zero
    rw [List.mem_range] at below
    have low : (magnitudeOf mag % 2 ^ k).testBit i = true := by
      rw [Nat.testBit_mod_two_pow, ← bit_eq, set]
      simp [below]
    rw [zero, Nat.zero_testBit] at low
    cases low
  · intro nonzero
    obtain ⟨i, set⟩ := Nat.exists_testBit_of_ne_zero nonzero
    rw [Nat.testBit_mod_two_pow, Bool.and_eq_true, decide_eq_true_iff] at set
    exact ⟨i, List.mem_range.mpr set.1, by rw [bit_eq]; exact set.2⟩

theorem magnitudeOf_take (mag : Bytes) (k : Nat) :
    magnitudeOf (mag.take (mag.length - k)) = magnitudeOf mag / 256 ^ k := by
  rw [magnitudeOf, ofBig_eq_reverse, ← List.drop_reverse, ofLittle_drop, ← ofBig_eq_reverse,
    magnitudeOf]

theorem last_mod_two (mag : Bytes) : (mag.getLastD 0).toNat % 2 = magnitudeOf mag % 2 := by
  rcases List.eq_nil_or_concat mag with rfl | ⟨front, last, rfl⟩
  · rfl
  · rw [List.concat_eq_append, magnitudeOf, ofBig_append, List.getLastD_concat]
    simp only [ofBig, List.foldl_cons, List.foldl_nil]
    omega

theorem shiftBytes_length (shift : Nat) (mag : Bytes) : ∀ high,
    (shiftBytes shift high mag).length = mag.length := by
  induction mag with
  | nil => intro high; rfl
  | cons b rest ih => intro high; simp [shiftBytes, ih]

theorem magnitudeOf_shiftBytes {shift : Nat} (below : shift ≤ 8) (mag : Bytes) : ∀ high : UInt8,
    magnitudeOf (shiftBytes shift high mag) =
      ofBig high.toNat mag / 2 ^ shift % 256 ^ mag.length := by
  induction mag with
  | nil => intro high; simp [shiftBytes, magnitudeOf, ofBig, Nat.mod_one]
  | cons b rest ih =>
    intro high
    have positive := Nat.two_pow_pos shift
    have weight : 0 < 256 ^ rest.length := Nat.pow_pos (by decide)
    have power : 256 = 2 ^ shift * 2 ^ (8 - shift) := by
      rw [← Nat.pow_add, show shift + (8 - shift) = 8 by omega]
    -- the bytes below: what is above the first of them drops out
    have low : ofBig (high.toNat * 256 + b.toNat) rest / 2 ^ shift % 256 ^ rest.length =
        ofBig b.toNat rest / 2 ^ shift % 256 ^ rest.length := by
      have split_ : ofBig (high.toNat * 256 + b.toNat) rest =
          ofBig b.toNat rest + 2 ^ shift * (256 ^ rest.length * (high.toNat * 2 ^ (8 - shift))) := by
        rw [ofBig_high, ofBig_high b.toNat]
        calc _ = b.toNat * 256 ^ rest.length + ofBig 0 rest +
                high.toNat * 256 * 256 ^ rest.length := by ring
          _ = b.toNat * 256 ^ rest.length + ofBig 0 rest +
                high.toNat * (2 ^ shift * 2 ^ (8 - shift)) * 256 ^ rest.length := by rw [← power]
          _ = _ := by ring
      rw [split_, Nat.add_mul_div_left _ _ positive, Nat.add_mul_mod_self_left]
    -- the first byte
    have first : ofBig (high.toNat * 256 + b.toNat) rest / 2 ^ shift / 256 ^ rest.length =
        (high.toNat * 256 + b.toNat) / 2 ^ shift := by
      rw [Nat.div_div_eq_div_mul, Nat.mul_comm (2 ^ shift), ← Nat.div_div_eq_div_mul, ofBig_high,
        Nat.mul_comm _ (256 ^ rest.length), Nat.mul_add_div weight, Nat.div_eq_of_lt (ofBig_lt rest),
        Nat.add_zero]
    rw [shiftBytes, magnitudeOf_cons, ih, shiftBytes_length, ofBig_cons, List.length_cons,
      Nat.pow_succ, Nat.mod_mul, low, first, Nat.shiftRight_eq_div_pow]
    have byte : (UInt8.ofNat ((high.toNat * 256 + b.toNat) / 2 ^ shift)).toNat =
        (high.toNat * 256 + b.toNat) / 2 ^ shift % 256 := by simp
    rw [byte]
    ring

theorem shiftRightRounded_eq (mag : Bytes) (n : Nat) :
    shiftRightRounded mag n = magnitudeBytes (Native.shiftRightRounded (magnitudeOf mag) n) := by
  have inside : n % 8 < 8 := Nat.mod_lt _ (by decide)
  have shifted : magnitudeOf (if n % 8 ≠ 0 then shiftBytes (n % 8) 0 (mag.take (mag.length - n / 8))
      else mag.take (mag.length - n / 8)) = magnitudeOf mag / 2 ^ n := by
    have power : 2 ^ n = 256 ^ (n / 8) * 2 ^ (n % 8) := by
      rw [show 256 = 2 ^ 8 by decide, ← Nat.pow_mul, ← Nat.pow_add, Nat.div_add_mod]
    rw [power, ← Nat.div_div_eq_div_mul, ← magnitudeOf_take]
    split
    · rw [magnitudeOf_shiftBytes inside.le]
      exact Nat.mod_eq_of_lt (Nat.lt_of_le_of_lt (Nat.div_le_self _ _) (magnitudeOf_lt _))
    · rename_i aligned
      rw [not_not.mp aligned, Nat.pow_zero, Nat.div_one]
  rw [shiftRightRounded, Native.shiftRightRounded, trimLeadingZeros_eq]
  simp only [bit_eq, any_bit_eq, last_mod_two, shifted]
  congr 1
  split
  · rw [magnitudeOf_addU8 _ (by decide), shifted]
  · exact shifted

theorem trimmed_pushCarry_mulAdd (positive : 0 < factor) (small : factor < 256)
    (carried : carry < 256) (trimmed : Trimmed mag) (filled : mag ≠ []) :
    Trimmed (pushCarry (mulAdd factor carry mag)) := by
  cases mag with
  | nil => exact absurd rfl filled
  | cons b rest =>
    have nonzero : b.toNat ≠ 0 := by
      intro zero
      exact trimmed (by rw [List.head?_cons, UInt8.toNat.inj (b := 0) zero])
    have out := mulAdd_carry small carried (b :: rest)
    have product : 1 ≤ b.toNat * factor := Nat.mul_pos (by omega) positive
    have parts : mulAdd factor carry (b :: rest) =
        (UInt8.ofNat (b.toNat * factor + (mulAdd factor carry rest).2) ::
          (mulAdd factor carry rest).1,
          (b.toNat * factor + (mulAdd factor carry rest).2) / 256) := rfl
    rw [parts] at out ⊢
    rw [pushCarry, magnitudeFrom]
    by_cases none_ : (b.toNat * factor + (mulAdd factor carry rest).2) / 256 = 0
    · rw [if_pos none_]
      intro zero
      rw [List.head?_cons, Option.some.injEq] at zero
      have byte := congrArg UInt8.toNat zero
      rw [toNat_ofNat_lt (by omega)] at byte
      change _ = 0 at byte
      omega
    · rw [if_neg none_, Nat.div_eq_of_lt out, magnitudeFrom_zero, Nat.mod_eq_of_lt out]
      intro zero
      rw [List.head?_cons, Option.some.injEq] at zero
      have byte := congrArg UInt8.toNat zero
      change (UInt8.ofNat _).toNat = 0 at byte
      rw [toNat_ofNat_lt out] at byte
      exact none_ byte

theorem trimmed_append (trimmed : Trimmed mag) (filled : mag ≠ []) (back : Bytes) :
    Trimmed (mag ++ back) := by
  cases mag with
  | nil => exact absurd rfl filled
  | cons b rest => exact trimmed

theorem magnitudeOf_append_zeros (mag : Bytes) (k : Nat) :
    magnitudeOf (mag ++ List.replicate k 0) = magnitudeOf mag * 256 ^ k := by
  induction k with
  | zero => simp
  | succ k ih =>
    rw [List.replicate_succ', ← List.append_assoc, magnitudeOf, ofBig_append]
    change ofBig 0 (mag ++ List.replicate k 0) * 256 + 0 = _
    rw [← magnitudeOf, ih, Nat.pow_succ, Nat.mul_assoc, Nat.add_zero]

theorem shiftLeft_eq (trimmed : Trimmed mag) (filled : mag ≠ []) (n : Nat) :
    shiftLeft mag n = magnitudeBytes (magnitudeOf mag * 2 ^ n) := by
  have inside : n % 8 < 8 := Nat.mod_lt _ (by decide)
  have factor : 2 ^ (n % 8) < 256 := Nat.pow_lt_pow_right (a := 2) (by decide) inside
  have power : 2 ^ n = 2 ^ (n % 8) * 256 ^ (n / 8) := by
    rw [show 256 = 2 ^ 8 by decide, ← Nat.pow_mul, ← Nat.pow_add, Nat.add_comm, Nat.div_add_mod]
  have front : ∃ front, (if n % 8 ≠ 0 then pushCarry (mulAdd (2 ^ (n % 8)) 0 mag) else mag) = front ∧
      Trimmed front ∧ front ≠ [] ∧ magnitudeOf front = magnitudeOf mag * 2 ^ (n % 8) := by
    split
    · have value := magnitudeOf_pushCarry_mulAdd factor (show 0 < 256 by decide) mag
      rw [Nat.add_zero] at value
      refine ⟨_, rfl, trimmed_pushCarry_mulAdd (Nat.two_pow_pos _) factor (by decide) trimmed filled,
        ?_, value⟩
      intro empty
      rw [empty] at value
      have nonzero := trimmed.ofBig_ne_zero filled
      have positive := Nat.two_pow_pos (n % 8)
      exact Nat.mul_ne_zero nonzero positive.ne' value.symm
    · rename_i aligned
      exact ⟨mag, rfl, trimmed, filled, by rw [not_not.mp aligned, Nat.pow_zero, Nat.mul_one]⟩
  obtain ⟨front, same, trimmed', filled', value⟩ := front
  rw [shiftLeft, same, power, ← Nat.mul_assoc, ← value, ← magnitudeOf_append_zeros]
  exact (magnitudeBytes_ofBig (trimmed_append trimmed' filled' _)).symm

def viewLimbs (s : List UInt32 × Int) : Nat × Int := (limbsValue s.1, s.2)

theorem limbsValue_toLimbs (mag : Bytes) : limbsValue (toLimbs mag) = magnitudeOf mag := by
  rw [toLimbs, limbsValue_limbsOfLittle, ← ofBig_eq_reverse, magnitudeOf]

theorem fromLimbs_eq (limbs : List UInt32) : fromLimbs limbs = magnitudeBytes (limbsValue limbs) := by
  rw [fromLimbs, trimLeadingZeros_eq, magnitudeOf, ofBig_reverse, ofLittle_littleOfLimbs]

theorem batch_lt {step : Nat} (batch : step ≤ batchDigits) : 10 ^ step < 2 ^ 32 :=
  Nat.lt_of_le_of_lt (Nat.pow_le_pow_right (by decide) batch) (by decide)

theorem widenTurn_view (s : List UInt32 × Int) :
    Native.widenTurn (viewLimbs s) = (widenTurn s).map viewLimbs viewLimbs := by
  rw [Native.widenTurn, widenTurn]
  by_cases negative : s.2 < 0
  · have value := limbsValue_mulAddLimbs (batch_lt (Nat.min_le_left batchDigits (-s.2).toNat)) s.1 0
      (by decide)
    rw [if_pos negative, if_pos (show (viewLimbs s).2 < 0 from negative)]
    simp only [Turn.map, viewLimbs, multiplyLimbs, value, Nat.add_zero]
  · rw [if_neg negative, if_neg (show ¬ (viewLimbs s).2 < 0 from negative)]
    rfl

theorem divideLimbs_value (limbs : List UInt32) (step : Nat) :
    limbsValue (divideLimbs limbs (10 ^ step)).1 = limbsValue limbs / 10 ^ step ∧
      (divideLimbs limbs (10 ^ step)).2 = limbsValue limbs % 10 ^ step := by
  have spec := divLimbs_spec (Nat.pow_pos (n := step) (show 0 < 10 by decide)) limbs
  rw [divideLimbs, limbsValue_trimLimbs]
  exact spec

theorem narrowTurn_view (step : Nat) (s : List UInt32 × Int) :
    Native.narrowTurn step (viewLimbs s) = (narrowTurn step s).map viewLimbs viewLimbs := by
  obtain ⟨quotient, remainder⟩ := divideLimbs_value s.1 step
  rw [Native.narrowTurn, narrowTurn, remainder]
  by_cases goes : step ≤ s.2 ∧ limbsValue s.1 % 10 ^ step = 0
  · rw [if_pos goes, if_pos (show step ≤ (viewLimbs s).2 ∧ (viewLimbs s).1 % 10 ^ step = 0 from goes)]
    simp only [Turn.map, viewLimbs, quotient]
  · rw [if_neg goes,
      if_neg (show ¬ (step ≤ (viewLimbs s).2 ∧ (viewLimbs s).1 % 10 ^ step = 0) from goes)]
    rfl

theorem widen_view (s : List UInt32 × Int) :
    Native.widen (viewLimbs s) = viewLimbs (loop (fun s => (-s.2).toNat) widenTurn id s) :=
  loop_map (fun _ => rfl) widenTurn_view s

theorem narrow_view (step : Nat) (s : List UInt32 × Int) :
    narrow step (viewLimbs s) = viewLimbs (loop (fun s => s.2.toNat) (narrowTurn step) id s) :=
  loop_map (fun _ => rfl) (narrowTurn_view step) s

theorem reduce_eq (unscaled : Bytes) (scale : Int) : reduce unscaled scale =
    (magnitudeBytes (Native.reduce (magnitudeOf unscaled) scale).1,
      (Native.reduce (magnitudeOf unscaled) scale).2) := by
  have start : (magnitudeOf unscaled, scale) = viewLimbs (toLimbs unscaled, scale) := by
    rw [viewLimbs, limbsValue_toLimbs]
  rw [Native.reduce, start, widen_view, narrow_view, narrow_view, reduce]
  simp only [fromLimbs_eq, viewLimbs]

theorem trimLeadingZeros_isEmpty (mag : Bytes) :
    (trimLeadingZeros mag).isEmpty = decide (magnitudeOf mag = 0) := by
  rw [trimLeadingZeros_eq, magnitudeBytes_isEmpty]

theorem magnitudeOf_trimLeadingZeros (mag : Bytes) :
    magnitudeOf (trimLeadingZeros mag) = magnitudeOf mag := ofBig_trimLeadingZeros mag

theorem marshalDecimalMsg_eq (v : Decimal) : marshalDecimalMsg v = Native.marshalDecimalMsg v := by
  rw [marshalDecimalMsg, Native.marshalDecimalMsg]
  simp only [trimLeadingZeros_isEmpty, decide_eq_true_eq]
  by_cases zero : magnitudeOf v.unscaled = 0
  · rw [if_pos zero, if_pos zero]
  · have parts : (if -(maxNumericLiteralDigits : Int) ≤ v.scale ∧ v.scale ≠ 0 then
          reduce (trimLeadingZeros v.unscaled) v.scale
        else (trimLeadingZeros v.unscaled, v.scale)) =
        (magnitudeBytes (reduced (magnitudeOf v.unscaled) v.scale).1,
          (reduced (magnitudeOf v.unscaled) v.scale).2) := by
      rw [reduced]
      split
      · rw [reduce_eq, magnitudeOf_trimLeadingZeros]
      · rw [trimLeadingZeros_eq]
    rw [if_neg zero, if_neg zero, parts]

theorem trimmed_magnitudeBytes (n : Nat) : Trimmed (magnitudeBytes n) := by
  rw [← magnitudeOf_magnitudeBytes n, ← trimLeadingZeros_eq]
  exact trimmed_trimLeadingZeros _

theorem bitLen_magnitudeBytes (n : Nat) : bitLen (magnitudeBytes n) = bitLength n := by
  rw [bitLen_eq (trimmed_magnitudeBytes n), magnitudeOf_magnitudeBytes]

theorem roundedTo_eq (prec n : Nat) (exponent : Int) : roundedTo prec (magnitudeBytes n) exponent =
    (magnitudeBytes (Native.roundedTo prec n exponent).1, (Native.roundedTo prec n exponent).2) := by
  rw [roundedTo, Native.roundedTo, bitLen_magnitudeBytes]
  split
  · rw [shiftRightRounded_eq, magnitudeOf_magnitudeBytes]
  · rfl

theorem magnitudeBytes_ne_nil (nonzero : n ≠ 0) : magnitudeBytes n ≠ [] := by
  intro empty
  have flag := magnitudeBytes_isEmpty n
  rw [empty] at flag
  exact nonzero (by simpa using flag)

theorem widenedTo_eq (prec : Nat) (nonzero : n ≠ 0) :
    widenedTo prec (magnitudeBytes n) = magnitudeBytes (Native.widenedTo prec n) := by
  rw [widenedTo, Native.widenedTo, bitLen_magnitudeBytes]
  split
  · rw [shiftRightRounded_eq, magnitudeOf_magnitudeBytes]
  · rw [shiftLeft_eq (trimmed_magnitudeBytes n) (magnitudeBytes_ne_nil nonzero),
      magnitudeOf_magnitudeBytes]

theorem roundedTo_ne_zero {prec : Nat} (positive : prec ≠ 0) (nonzero : n ≠ 0) (exponent : Int) :
    (Native.roundedTo prec n exponent).1 ≠ 0 := by
  rw [Native.roundedTo]
  split
  · rename_i wide
    obtain ⟨p, rfl⟩ : ∃ p, prec = p + 1 := ⟨prec - 1, by omega⟩
    rw [Native.shiftRightRounded_eq n (by omega)]
    have low := (halfEven_bits (n := n) (p := p) (s := bitLength n - (p + 1)) (by omega)).1
    exact Nat.ne_of_gt (Nat.lt_of_lt_of_le (Nat.two_pow_pos p) low)
  · exact nonzero

theorem wireParts_bytes {prec : Nat} (positive : prec ≠ 0) (nonzero : n ≠ 0) (exponent : Int) :
    wireParts prec (magnitudeBytes n) exponent =
      (Native.wireParts prec n exponent).map fun r => (magnitudeBytes r.1, r.2) := by
  have filled := roundedTo_ne_zero positive nonzero exponent
  rw [wireParts, Native.wireParts, roundedTo_eq]
  simp only [bitLen_magnitudeBytes, widenedTo_eq prec filled]
  split
  · rfl
  · split <;> rfl

theorem appendParts_eq (v : BigFloat) (mantissa : Nat) (exponent : Int) :
    appendParts v (magnitudeBytes mantissa) exponent = Native.appendParts v mantissa exponent := rfl

theorem marshalBigFloatMsg_eq (v : BigFloat) : marshalBigFloatMsg v = Native.marshalBigFloatMsg v := by
  rw [marshalBigFloatMsg, Native.marshalBigFloatMsg]
  by_cases none_ : v.prec = 0
  · rw [if_pos none_, if_pos none_]
  rw [if_neg none_, if_neg none_]
  by_cases wide : maxNumericLiteralDigits < bigFloatPrecDigits v.prec
  · rw [if_pos wide, if_pos wide]
  rw [if_neg wide, if_neg wide]
  simp only [trimLeadingZeros_isEmpty, decide_eq_true_eq]
  by_cases zero : magnitudeOf v.mantissa = 0
  · rw [if_pos zero, if_pos zero]
    rfl
  rw [if_neg zero, if_neg zero, trimLeadingZeros_eq, wireParts_bytes none_ zero]
  cases Native.wireParts v.prec (magnitudeOf v.mantissa) v.exponent with
  | error msg => rfl
  | ok r => rfl

section

variable {α : Type}

def counted (data : Bytes) (out : α) : Option (Except Bytes (α × Bytes)) → Except Bytes (α × Int)
  | none => .ok (out, 0)
  | some (.error msg) => .error msg
  | some (.ok (out', rest)) => .ok (out', data.length - rest.length)

def Counts (counting : CountedReader α) (field : FieldReader α) : Prop :=
  ∀ num type data out, data.length < 2 ^ 31 →
    counting num type data out = counted data out (field num type data out) ∧
      ∀ out' rest, field num type data out = some (.ok (out', rest)) →
        ∃ bytes, data = bytes ++ rest ∧ bytes ≠ []

variable {counting : CountedReader α} {field : FieldReader α} {wording : Wording}

theorem fieldsTurn_eq (counts : Counts counting field) {s : Bytes × α} (small : s.1.length < 2 ^ 31) :
    fieldsTurn wording counting s = recordTurn wording field s := by
  rw [fieldsTurn, recordTurn]
  split
  · rfl
  cases tag : consumeTag s.1 with
  | none => rfl
  | some found =>
    obtain ⟨num, type, data⟩ := found
    have shorter := consumeTag_rest tag
    obtain ⟨same, reads⟩ := counts num type data s.2 (by omega)
    simp only [same]
    cases read : field num type data s.2 with
    | none =>
      simp only [counted]
      rw [if_neg (by simp), fieldValueCount_eq num type (by omega)]
      cases skipped : consumeFieldValue data num type with
      | none => rfl
      | some rest =>
        obtain ⟨bytes, rfl, _⟩ := (consumeFieldValue_iff num type).mp skipped
        have count : countOf (bytes ++ rest).length (some rest) = bytes.length := by
          simp only [countOf, List.length_append]
          omega
        rw [count, if_neg (by omega), Int.toNat_natCast, List.drop_left]
    | some outcome =>
      cases outcome with
      | error msg => rfl
      | ok found =>
        obtain ⟨out', rest⟩ := found
        obtain ⟨bytes, rfl, filled⟩ := reads out' rest read
        have positive := List.length_pos_iff.mpr filled
        have count : ((bytes ++ rest).length : Int) - rest.length = bytes.length := by
          simp only [List.length_append]
          omega
        simp only [counted, count]
        rw [if_pos (by omega), Int.toNat_natCast, List.drop_left]

theorem fieldsTurn_lowers :
    Lowers (fun s : Bytes × α => s.1.length) (fieldsTurn wording counting) := by
  intro s s' turned
  rw [fieldsTurn] at turned
  split at turned
  · cases turned
  split at turned
  · cases turned
  rename_i num type data tag
  have shorter := consumeTag_rest tag
  split at turned
  · cases turned
  · split_ifs at turned
    all_goals
      cases turned
      simp only [List.length_drop]
      omega

theorem readFields_eq (counts : Counts counting field) (shrinks : field.Shrinks)
    (small : data.length < 2 ^ 31) (out : α) :
    readFields wording counting data out = readRecords wording field data out := by
  have run : ∀ s : Bytes × α, s.1.length < 2 ^ 31 →
      loop (fun s => s.1.length) (fieldsTurn wording counting) (fun s => .ok s.2) s =
        loop (fun s => s.1.length) (recordTurn wording field) (fun s => .ok s.2) s := by
    intro s
    refine loop_induct (recordTurn_lowers shrinks) (motive := fun s found => s.1.length < 2 ^ 31 →
      loop (fun s => s.1.length) (fieldsTurn wording counting) (fun s => .ok s.2) s = found) ?_ ?_ s
    · intro s s' found turned ih small
      have lower := recordTurn_lowers shrinks s s' turned
      rw [← fieldsTurn_eq counts small] at turned
      rw [loop_next fieldsTurn_lowers turned]
      exact ih (by simp only at lower; omega)
    · intro s found turned small
      rw [← fieldsTurn_eq counts small] at turned
      exact loop_done turned
  exact run (data, out) small

end

section

variable {α : Type} {what : String} {data : Bytes} (small : data.length < 2 ^ 31)

include small

theorem readMagnitude_counts (store : Bytes → α) (out : α) :
    readMagnitude what data store = counted data out (some (Native.readMagnitude what data store)) ∧
      ∀ out' rest, some (Native.readMagnitude what data store) = some (.ok (out', rest)) →
        ∃ bytes, data = bytes ++ rest ∧ bytes ≠ [] := by
  have count := plainValueCount_eq .bytes small
  rw [consumePlainValue] at count
  rw [readMagnitude, Native.readMagnitude]
  cases read : consumeBytes data with
  | none =>
    rw [read] at count
    rw [count]
    exact ⟨rfl, by intro out' rest same; cases same⟩
  | some found =>
    have shorter := consumeBytes_rest read
    rw [read] at count
    change _ = (data.length : Int) - found.2.length at count
    rw [count, if_neg (by omega)]
    refine ⟨rfl, ?_⟩
    intro out' rest same
    cases same
    obtain ⟨length, rfl, varint⟩ := consumeBytes_sound read
    refine ⟨length ++ found.1, rfl, ?_⟩
    intro empty
    rw [empty, List.nil_append] at shorter
    omega

theorem readVarint_counts (store : Nat → α) (out : α) :
    readVarint what data store = counted data out (some (Native.readVarint what data store)) ∧
      ∀ out' rest, some (Native.readVarint what data store) = some (.ok (out', rest)) →
        ∃ bytes, data = bytes ++ rest ∧ bytes ≠ [] := by
  rw [readVarint, Native.readVarint, plainValueCount_eq .varint small, consumePlainValue]
  cases read : consumeVarint data with
  | none => exact ⟨rfl, by intro out' rest same; cases same⟩
  | some found =>
    have shorter := consumeVarint_rest read
    refine ⟨rfl, ?_⟩
    intro out' rest same
    cases same
    obtain ⟨bytes, rfl, varint⟩ := consumeVarint_sound read
    refine ⟨bytes, rfl, ?_⟩
    rintro rfl
    rw [List.nil_append] at shorter
    omega

end

theorem skipped_counts {α : Type} (data : Bytes) (out : α) :
    Except.ok (out, 0) = counted data out none ∧
      ∀ (out' : α) (rest : Bytes), (none : Option (Except Bytes (α × Bytes))) = some (.ok (out', rest)) →
        ∃ bytes, data = bytes ++ rest ∧ bytes ≠ [] :=
  ⟨rfl, fun _ _ same => nomatch same⟩

theorem decimalField_counts : Counts decimalField Native.decimalField := by
  intro num type data out small
  rcases num with _ | _ | _ | _ | num
  · exact skipped_counts data out
  · exact readMagnitude_counts small _ _
  · exact readVarint_counts small _ _
  · exact readVarint_counts small _ _
  · exact skipped_counts data out

theorem bigFloatField_counts : Counts bigFloatField Native.bigFloatField := by
  intro num type data out small
  rcases num with _ | _ | _ | _ | _ | num
  · exact skipped_counts data out
  · exact readMagnitude_counts small _ _
  · exact readVarint_counts small _ _
  · exact readVarint_counts small _ _
  · exact readVarint_counts small _ _
  · exact skipped_counts data out

theorem unmarshalDecimalMsg_eq (maxDigits : Int32)
    (read : readFields (messageWording "Decimal") decimalField data {} =
      readRecords (messageWording "Decimal") Native.decimalField data {}) :
    unmarshalDecimalMsg data maxDigits =
      Native.unmarshalDecimalMsg data (resolve maxDigits maxNumericLiteralDigits) := by
  cases found : readRecords (messageWording "Decimal") Native.decimalField data {} with
  | error msg => simp only [unmarshalDecimalMsg, Native.unmarshalDecimalMsg, read, found]
  | ok v => simp only [unmarshalDecimalMsg, Native.unmarshalDecimalMsg, read, found]

theorem narrowed_eq {v : BigFloat} (fits : FitsSigned 32 v.exponent) (maxExponent : Nat) :
    narrowed v (magnitudeBytes (magnitudeOf v.mantissa)) maxExponent =
      Native.narrowed v maxExponent := by
  have grown : v.exponent ≤ (Native.roundedTo v.prec (magnitudeOf v.mantissa) v.exponent).2 := by
    rw [Native.roundedTo]
    split
    · simp only
      omega
    · exact Int.le_refl _
  obtain ⟨low, high⟩ := fits
  rw [narrowed, Native.narrowed]
  simp only [bitLen_magnitudeBytes, roundedTo_eq]
  split
  · rfl
  split
  · rfl
  · rename_i bounded
    rw [castInt, asSigned_self (by decide) ⟨by omega, by omega⟩]

theorem unmarshalBigFloatMsg_eq {v : BigFloat} (small : data.length < 2 ^ 31)
    (read : readRecords (messageWording "BigFloat") Native.bigFloatField data {} = .ok v)
    (fits : FitsSigned 32 v.exponent) (maxExponent maxDigits : Int32) :
    unmarshalBigFloatMsg data maxExponent maxDigits =
      Native.unmarshalBigFloatMsg data (resolve maxExponent maxBigFloatExponent)
        (resolve maxDigits maxNumericLiteralDigits) := by
  rw [unmarshalBigFloatMsg, Native.unmarshalBigFloatMsg,
    readFields_eq bigFloatField_counts bigFloatField_shrinks small, read]
  simp only [trimLeadingZeros_eq, bitLen_magnitudeBytes, narrowed_eq fits]
  by_cases zero : magnitudeOf v.mantissa = 0
  · rw [zero]
    rfl
  · have bits := bitLength_pos zero
    rw [if_neg zero, if_neg (show bitLength (magnitudeOf v.mantissa) ≠ 0 by omega)]

end Protowire.Pb.Native.Bytewise
