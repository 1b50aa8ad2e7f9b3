import Mathlib.Algebra.Order.Ring.Int
import Mathlib.Data.List.Induction
import Mathlib.Data.Nat.Find
import Protowire.Pb.BigMessageCore
import Protowire.Pb.Records

/-!
A big number comes back from its message in normal form, which is stated here without the
source's loops: no leading zero bytes and no negative zero, a decimal at its smallest scale, a
float at exactly its precision.
-/

namespace Protowire.Pb.Native

open Support Wire Limit

def BigInt.normal (v : BigInt) : BigInt :=
  ⟨magnitudeBytes (magnitudeOf v.abs), v.negative && magnitudeOf v.abs ≠ 0⟩

def spareZeros (n places : Nat) : Nat := Nat.findGreatest (fun k => 10 ^ k ∣ n) places

def smallestScale (n : Nat) (scale : Int) : Nat × Int :=
  let whole := n * 10 ^ (-scale).toNat
  let spare := spareZeros whole scale.toNat
  (whole / 10 ^ spare, (scale.toNat - spare : Nat))

def Decimal.normal (v : Decimal) : Decimal :=
  if magnitudeOf v.unscaled = 0 then {}
  else
    let r := smallestScale (magnitudeOf v.unscaled) v.scale
    ⟨magnitudeBytes r.1, r.2, v.negative⟩

/-- A number that is not zero as a mantissa of exactly `prec` bits and an exponent: rounded half
to even where it has more, and a rounding that carries is a power of two. -/
def inPrecision (prec n : Nat) (exponent : Int) : Nat × Int :=
  if bitLength n ≤ prec then
    (n * 2 ^ (prec - bitLength n), exponent - (prec - bitLength n : Nat))
  else
    let dropped := bitLength n - prec
    let rounded := halfEven n (2 ^ dropped)
    if rounded = 2 ^ prec then (2 ^ (prec - 1), exponent + dropped + 1)
    else (rounded, exponent + dropped)

def BigFloat.normal (v : BigFloat) : BigFloat :=
  if v.prec = 0 then { negative := v.negative }
  else if magnitudeOf v.mantissa = 0 then { prec := v.prec, negative := v.negative }
  else
    let r := inPrecision v.prec (magnitudeOf v.mantissa) v.exponent
    ⟨magnitudeBytes r.1, r.2, v.prec, v.negative⟩

theorem le_ofBig (high : Nat) (bytes : Bytes) : high ≤ ofBig high bytes := by
  induction bytes generalizing high with
  | nil => exact Nat.le_refl _
  | cons b rest ih =>
    rw [ofBig_cons]
    exact Nat.le_trans (by omega) (ih _)

def Trimmed (mag : Bytes) : Prop := mag.head? ≠ some 0

theorem Trimmed.ofBig_ne_zero {mag : Bytes} (trimmed : Trimmed mag) (filled : mag ≠ []) :
    ofBig 0 mag ≠ 0 := by
  cases mag with
  | nil => exact absurd rfl filled
  | cons b rest =>
    have nonzero : b.toNat ≠ 0 := by
      intro zero
      apply trimmed
      rw [List.head?_cons, Option.some.injEq]
      exact UInt8.toNat.inj zero
    have grows := le_ofBig (0 * 256 + b.toNat) rest
    rw [ofBig_cons]
    omega

theorem magnitudeFrom_zero (fuel : Nat) (low : Bytes) : magnitudeFrom fuel 0 low = low := by
  cases fuel <;> simp [magnitudeFrom]

theorem magnitudeFrom_ofBig (mag : Bytes) : ∀ fuel low, Trimmed mag → ofBig 0 mag < 256 ^ fuel →
    magnitudeFrom fuel (ofBig 0 mag) low = mag ++ low := by
  induction mag using List.reverseRecOn with
  | nil =>
    intro fuel low _ _
    exact magnitudeFrom_zero fuel low
  | append_singleton front x ih =>
    intro fuel low trimmed bound
    have nonzero := trimmed.ofBig_ne_zero (by simp)
    have value : ofBig 0 (front ++ [x]) = ofBig 0 front * 256 + x.toNat := by
      rw [ofBig_append]
      rfl
    have byte := x.toNat_lt
    have high : ofBig 0 (front ++ [x]) / 256 = ofBig 0 front := by omega
    have low_ : (ofBig 0 (front ++ [x]) % 256).toUInt8 = x := by
      have rem : ofBig 0 (front ++ [x]) % 256 = x.toNat := by omega
      rw [rem]
      exact UInt8.ofNat_toNat
    have front_trimmed : Trimmed front := by
      cases front with
      | nil => simp [Trimmed]
      | cons => exact trimmed
    cases fuel with
    | zero => omega
    | succ fuel =>
      rw [magnitudeFrom, if_neg nonzero, high, low_, ih fuel (x :: low) front_trimmed]
      · simp
      · rw [Nat.pow_succ] at bound
        omega

theorem lt_magnitude_fuel (n : Nat) : n < 256 ^ (n.log2 / 8 + 1) := by
  have power : 256 ^ (n.log2 / 8 + 1) = 2 ^ (8 * (n.log2 / 8 + 1)) := by
    rw [Nat.pow_mul]
  rw [power]
  exact Nat.lt_of_lt_of_le Nat.lt_log2_self (Nat.pow_le_pow_right (by decide) (by omega))

theorem magnitudeBytes_ofBig {mag : Bytes} (trimmed : Trimmed mag) :
    magnitudeBytes (ofBig 0 mag) = mag := by
  rw [magnitudeBytes, magnitudeFrom_ofBig mag _ [] trimmed (lt_magnitude_fuel _), List.append_nil]

theorem ofBig_magnitudeFrom (fuel : Nat) : ∀ n low, n < 256 ^ fuel →
    ofBig 0 (magnitudeFrom fuel n low) = ofBig n low := by
  induction fuel with
  | zero =>
    intro n low bound
    have zero : n = 0 := by simpa using bound
    rw [magnitudeFrom, zero]
  | succ fuel ih =>
    intro n low bound
    rw [magnitudeFrom]
    split
    · rename_i zero
      rw [zero]
    · have byte : ((n % 256).toUInt8).toNat = n % 256 := by simp
      rw [ih _ _ (by rw [Nat.pow_succ] at bound; omega), ofBig_cons, byte]
      congr 1
      omega

@[simp] theorem magnitudeOf_magnitudeBytes (n : Nat) : magnitudeOf (magnitudeBytes n) = n := by
  rw [magnitudeOf, magnitudeBytes, ofBig_magnitudeFrom _ _ _ (lt_magnitude_fuel n)]
  rfl

theorem trimmed_trimLeadingZeros (mag : Bytes) : Trimmed (trimLeadingZeros mag) := by
  intro zero
  have first := List.head?_dropWhile_not (fun b : UInt8 => decide (b = 0)) mag
  rw [← trimLeadingZeros, zero] at first
  simp at first

theorem ofBig_trimLeadingZeros (mag : Bytes) : ofBig 0 (trimLeadingZeros mag) = ofBig 0 mag := by
  induction mag with
  | nil => rfl
  | cons b rest ih =>
    rw [trimLeadingZeros, List.dropWhile_cons]
    split
    · rename_i zero
      have zero : b = 0 := by simpa using zero
      rw [← trimLeadingZeros, ih, ofBig_cons, zero]
      rfl
    · rfl

theorem trimLeadingZeros_eq (mag : Bytes) :
    trimLeadingZeros mag = magnitudeBytes (magnitudeOf mag) := by
  rw [magnitudeOf, ← ofBig_trimLeadingZeros, magnitudeBytes_ofBig (trimmed_trimLeadingZeros mag)]

theorem magnitudeBytes_isEmpty (n : Nat) : (magnitudeBytes n).isEmpty = decide (n = 0) := by
  rw [Bool.eq_iff_iff, List.isEmpty_iff, decide_eq_true_iff]
  constructor
  · intro empty
    rw [← magnitudeOf_magnitudeBytes n, empty]
    rfl
  · rintro rfl
    rfl

theorem readMagnitude_rest {α : Type} {what : String} {data rest : Bytes} {store : Bytes → α}
    {out : α} (read : readMagnitude what data store = .ok (out, rest)) :
    rest.length ≤ data.length := by
  rw [readMagnitude] at read
  split at read
  · cases read
  · rename_i found
    cases read
    exact Nat.le_of_lt (consumeBytes_rest found)

theorem readVarint_rest {α : Type} {what : String} {data rest : Bytes} {store : Nat → α}
    {out : α} (read : readVarint what data store = .ok (out, rest)) :
    rest.length ≤ data.length := by
  rw [readVarint] at read
  split at read
  · cases read
  · rename_i found
    cases read
    exact Nat.le_of_lt (consumeVarint_rest found)

section

variable {α : Type} {wording : Wording} {field : FieldReader α} {num : Nat} {what : String}
  {rest : Bytes} {out : α}

theorem readRecords_magnitude (shrinks : field.Shrinks) (valid : ValidNumber num)
    {mag : Bytes} (fits : mag.length < 2 ^ 64) (store : Bytes → α) (kept : store [] = out)
    (reads : ∀ data, field num .bytes data out = some (readMagnitude what data store)) :
    readRecords wording field (appendMagnitude num mag ++ rest) out =
      readRecords wording field rest (store mag) := by
  rw [appendMagnitude]
  split
  · rename_i empty
    rw [List.isEmpty_iff.mp empty, kept]
    rfl
  · apply readRecords_field shrinks valid
    rw [reads, readMagnitude, consumeBytes_append fits]

theorem readRecords_varint (shrinks : field.Shrinks) (valid : ValidNumber num)
    {x : Nat} (fits : x < 2 ^ 64) (store : Nat → α)
    (reads : ∀ data, field num .varint data out = some (readVarint what data store)) :
    readRecords wording field (appendTag num .varint ++ appendVarint x ++ rest) out =
      readRecords wording field rest (store x) := by
  apply readRecords_field shrinks valid
  rw [reads, readVarint, consumeVarint_append fits]

theorem readRecords_flag (shrinks : field.Shrinks) (valid : ValidNumber num)
    (flag : Bool) (store : Bool → α) (kept : store false = out)
    (reads : ∀ data, field num .varint data out =
      some (readVarint what data fun x => store (x ≠ 0))) :
    readRecords wording field (appendFlag num flag ++ rest) out =
      readRecords wording field rest (store flag) := by
  cases flag with
  | false => simp [appendFlag, kept]
  | true =>
    rw [appendFlag, if_pos rfl, readRecords_varint shrinks valid (by decide) _ reads]
    rfl

theorem readRecords_int (shrinks : field.Shrinks) (valid : ValidNumber num) {v : Int}
    (range : FitsSigned 32 v) (store : Int → α) (kept : store 0 = out)
    (reads : ∀ data, field num .varint data out =
      some (readVarint what data fun x => store (asSigned 32 x))) :
    readRecords wording field (appendInt num v ++ rest) out =
      readRecords wording field rest (store v) := by
  rw [appendInt]
  split
  · rename_i zero
    rw [zero, kept]
    rfl
  · rw [readRecords_varint shrinks valid (asUnsigned_lt 64 v) _ reads,
      asSigned_asUnsigned (by decide) (by decide) range]

end

theorem bigIntField_shrinks : FieldReader.Shrinks bigIntField := by
  intro num type data v v' rest read
  unfold bigIntField at read
  split at read
  · exact readMagnitude_rest (Option.some.inj read)
  · exact readVarint_rest (Option.some.inj read)
  · cases read

theorem unmarshalBigIntMsg_marshal {v : BigInt} (fits : v.abs.length < 2 ^ 64) :
    unmarshalBigIntMsg (marshalBigIntMsg v) = .ok v.normal := by
  have read : readRecords (messageWording "BigInt") bigIntField (marshalBigIntMsg v) {} = .ok v := by
    rw [marshalBigIntMsg, ← List.append_nil (appendFlag _ _),
      readRecords_magnitude bigIntField_shrinks (by decide) fits (fun abs => ⟨abs, false⟩) rfl
        fun _ => rfl,
      readRecords_flag bigIntField_shrinks (by decide) _ (fun negative => ⟨v.abs, negative⟩) rfl
        fun _ => rfl]
    rfl
  rw [unmarshalBigIntMsg, read]
  simp [BigInt.normal, trimLeadingZeros_eq, magnitudeBytes_isEmpty]

theorem widenTurn_lowers : Lowers (fun s : Nat × Int => (-s.2).toNat) widenTurn := by
  intro s s' turned
  rw [widenTurn] at turned
  split at turned
  · rename_i negative
    cases turned
    simp only [batchDigits]
    omega
  · cases turned

theorem widen_eq (s : Nat × Int) : widen s = (s.1 * 10 ^ (-s.2).toNat, max s.2 0) := by
  refine loop_induct widenTurn_lowers
    (motive := fun s r => r = (s.1 * 10 ^ (-s.2).toNat, max s.2 0)) ?_ ?_ s
  · intro s s' r turned ih
    rw [widenTurn] at turned
    split at turned
    · rename_i negative
      cases turned
      have step : min batchDigits (-s.2).toNat + (-(s.2 + (min batchDigits (-s.2).toNat : Nat))).toNat =
          (-s.2).toNat := by
        simp only [batchDigits]
        omega
      rw [ih, Nat.mul_assoc, ← Nat.pow_add, step]
      congr 1
      simp only [batchDigits]
      omega
    · cases turned
  · intro s r turned
    rw [widenTurn] at turned
    split at turned
    · cases turned
    · rename_i positive
      cases turned
      have none_ : (-s.2).toNat = 0 := by omega
      rw [none_, Nat.pow_zero, Nat.mul_one, max_eq_left (by omega)]

def Narrows (s t : Nat × Int) (count : Nat) : Prop :=
  s.1 = t.1 * 10 ^ count ∧ s.2 = t.2 + count ∧ 0 ≤ t.2

theorem Narrows.trans {s t u : Nat × Int} {m n : Nat} (first : Narrows s t m)
    (second : Narrows t u n) : Narrows s u (n + m) := by
  obtain ⟨digits, scale, _⟩ := first
  obtain ⟨digits', scale', positive⟩ := second
  refine ⟨?_, ?_, positive⟩
  · rw [digits, digits', Nat.pow_add, Nat.mul_assoc]
  · rw [scale, scale']
    push_cast
    omega

theorem narrowTurn_next {step : Nat} {s t : Nat × Int} (turned : narrowTurn step s = .next t) :
    Narrows s t step := by
  rw [narrowTurn] at turned
  split at turned
  · rename_i divides
    cases turned
    refine ⟨(Nat.div_mul_cancel (Nat.dvd_of_mod_eq_zero divides.2)).symm, ?_, ?_⟩
    · simp
    · have := divides.1
      simp only
      omega
  · cases turned

theorem narrowTurn_lowers {step : Nat} (positive : 0 < step) :
    Lowers (fun s : Nat × Int => s.2.toNat) (narrowTurn step) := by
  intro s t turned
  obtain ⟨_, scale, _⟩ := narrowTurn_next turned
  show t.2.toNat < s.2.toNat
  omega

theorem narrow_spec (step : Nat) (positive : 0 < step) (s : Nat × Int) : 0 ≤ s.2 →
    (∃ count, Narrows s (narrow step s) count) ∧
      ¬ (step ≤ (narrow step s).2 ∧ (narrow step s).1 % 10 ^ step = 0) := by
  refine loop_induct (narrowTurn_lowers positive)
    (motive := fun s t => 0 ≤ s.2 → (∃ count, Narrows s t count) ∧
      ¬ (step ≤ t.2 ∧ t.1 % 10 ^ step = 0)) ?_ ?_ s
  · intro s s' t turned ih _
    have one := narrowTurn_next turned
    obtain ⟨⟨count, more⟩, ends⟩ := ih one.2.2
    exact ⟨⟨_, one.trans more⟩, ends⟩
  · intro s t turned scale
    rw [narrowTurn] at turned
    split at turned
    · cases turned
    · rename_i ends
      cases turned
      exact ⟨⟨0, by simp, by simp, scale⟩, ends⟩

theorem Narrows.spareZeros {s t : Nat × Int} {count : Nat} (narrows : Narrows s t count)
    (ends : ¬ (1 ≤ t.2 ∧ t.1 % 10 = 0)) : spareZeros s.1 s.2.toNat = count := by
  obtain ⟨digits, scale, positive⟩ := narrows
  rw [Native.spareZeros, Nat.findGreatest_eq_iff]
  refine ⟨by omega, fun _ => Dvd.intro_left t.1 digits.symm, ?_⟩
  intro more past bounded divides
  have one : 10 ^ (count + 1) ∣ t.1 * 10 ^ count :=
    Nat.dvd_trans (Nat.pow_dvd_pow 10 past) (digits ▸ divides)
  rw [Nat.pow_succ, Nat.mul_comm] at one
  have zero : 10 ∣ t.1 := Nat.dvd_of_mul_dvd_mul_right (Nat.pow_pos (by decide)) one
  exact ends ⟨by omega, Nat.mod_eq_zero_of_dvd zero⟩

theorem reduce_eq (n : Nat) (scale : Int) : reduce n scale = smallestScale n scale := by
  have widened := widen_eq (n, scale)
  obtain ⟨⟨m, first⟩, _⟩ := narrow_spec batchDigits (by decide) (widen (n, scale))
    (by rw [widened]; exact Int.le_max_right _ _)
  obtain ⟨⟨k, second⟩, ends⟩ := narrow_spec 1 (by decide)
    (narrow batchDigits (widen (n, scale))) first.2.2
  rw [← reduce] at second ends
  have both := first.trans second
  have spare := both.spareZeros (by simpa using ends)
  obtain ⟨digits, places, positive⟩ := both
  rw [widened] at digits places spare
  have whole : scale.toNat = (max scale 0).toNat := by omega
  rw [smallestScale, whole, spare]
  refine Prod.ext ?_ ?_
  · show _ = n * 10 ^ (-scale).toNat / 10 ^ (k + m)
    rw [show n * 10 ^ (-scale).toNat = _ from digits,
      Nat.mul_div_cancel _ (Nat.pow_pos (by decide))]
  · simp only at places ⊢
    omega

theorem smallestScale_zero (n : Nat) : smallestScale n 0 = (n, 0) := by
  simp [smallestScale, spareZeros]

theorem reduced_eq (n : Nat) (scale : Int)
    (low : -(maxNumericLiteralDigits : Int) ≤ (reduced n scale).2) :
    reduced n scale = smallestScale n scale := by
  rw [reduced] at low ⊢
  split
  · exact reduce_eq n scale
  · rename_i kept
    rw [if_neg kept] at low
    have zero : scale = 0 := by
      by_contra nonzero
      exact kept ⟨low, nonzero⟩
    rw [zero, smallestScale_zero]

theorem smallestScale_ne_zero {n : Nat} (nonzero : n ≠ 0) (scale : Int) :
    (smallestScale n scale).1 ≠ 0 := by
  have whole : n * 10 ^ (-scale).toNat ≠ 0 := Nat.mul_ne_zero nonzero (by simp)
  have divides : 10 ^ spareZeros (n * 10 ^ (-scale).toNat) scale.toNat ∣ n * 10 ^ (-scale).toNat :=
    Nat.findGreatest_spec (P := fun k => 10 ^ k ∣ n * 10 ^ (-scale).toNat) (Nat.zero_le _)
      (by simp)
  exact Nat.ne_of_gt (Nat.div_pos (Nat.le_of_dvd (Nat.pos_of_ne_zero whole) divides)
    (Nat.pow_pos (by decide)))

theorem decimalField_shrinks : FieldReader.Shrinks decimalField := by
  intro num type data v v' rest read
  unfold decimalField at read
  split at read
  · exact readMagnitude_rest (Option.some.inj read)
  · exact readVarint_rest (Option.some.inj read)
  · exact readVarint_rest (Option.some.inj read)
  · cases read

theorem unmarshalDecimalMsg_marshal {v : Decimal} {bytes : Bytes} {maxDigits : Nat}
    (enough : maxNumericLiteralDigits ≤ maxDigits)
    (marshalled : marshalDecimalMsg v = .ok bytes) (fits : bytes.length < 2 ^ 64) :
    unmarshalDecimalMsg bytes maxDigits = .ok v.normal := by
  rw [marshalDecimalMsg] at marshalled
  split at marshalled
  · rename_i zero
    cases marshalled
    rw [unmarshalDecimalMsg, readRecords_nil]
    simp [Decimal.normal, zero, trimLeadingZeros]
  rename_i nonzero
  simp only at marshalled
  split at marshalled
  · cases marshalled
  rename_i bounded
  cases marshalled
  have least := reduced_eq (magnitudeOf v.unscaled) v.scale (by omega)
  have filled := smallestScale_ne_zero nonzero v.scale
  rw [least] at bounded fits ⊢
  have normal : v.normal = ⟨magnitudeBytes (smallestScale (magnitudeOf v.unscaled) v.scale).1,
      (smallestScale (magnitudeOf v.unscaled) v.scale).2, v.negative⟩ := by
    rw [Decimal.normal, if_neg nonzero]
  rw [normal]
  generalize smallestScale (magnitudeOf v.unscaled) v.scale = r at *
  have range : FitsSigned 32 r.2 := by
    simp only [maxNumericLiteralDigits] at bounded
    exact ⟨by omega, by omega⟩
  have filled_ : (magnitudeBytes r.1).isEmpty = false := by
    rw [magnitudeBytes_isEmpty, decide_eq_false filled]
  have written : appendTag 1 .bytes ++ appendBytes (magnitudeBytes r.1) =
      appendMagnitude 1 (magnitudeBytes r.1) := by
    simp [appendMagnitude, filled_]
  have short : (magnitudeBytes r.1).length < 2 ^ 64 := by
    simp only [appendBytes, List.length_append] at fits
    omega
  have read : readRecords (messageWording "Decimal") decimalField
      (appendTag 1 .bytes ++ appendBytes (magnitudeBytes r.1) ++ appendInt 2 r.2 ++
        appendFlag 3 v.negative) {} = .ok ⟨magnitudeBytes r.1, r.2, v.negative⟩ := by
    rw [written, ← List.append_nil (appendFlag _ _), List.append_assoc,
      readRecords_magnitude decimalField_shrinks (by decide) short
        (fun unscaled => ⟨unscaled, 0, false⟩) rfl fun _ => rfl,
      readRecords_int decimalField_shrinks (by decide) range
        (fun scale => ⟨magnitudeBytes r.1, scale, false⟩) rfl fun _ => rfl,
      readRecords_flag decimalField_shrinks (by decide) _
        (fun negative => ⟨magnitudeBytes r.1, r.2, negative⟩) rfl fun _ => rfl,
      readRecords_nil]
  rw [unmarshalDecimalMsg, read]
  simp only
  rw [if_neg (by omega), trimLeadingZeros_eq, magnitudeOf_magnitudeBytes, filled_]
  simp

theorem shiftRightRounded_eq (n : Nat) {dropped : Nat} (positive : 0 < dropped) :
    shiftRightRounded n dropped = halfEven n (2 ^ dropped) := by
  obtain ⟨k, rfl⟩ : ∃ k, dropped = k + 1 := ⟨dropped - 1, by omega⟩
  exact halfEven_testBit n k

theorem inPrecision_bits {prec n : Nat} (positive : prec ≠ 0) (nonzero : n ≠ 0) (exponent : Int) :
    bitLength (inPrecision prec n exponent).1 = prec := by
  obtain ⟨p, rfl⟩ : ∃ p, prec = p + 1 := ⟨prec - 1, by omega⟩
  rw [inPrecision]
  split
  · rename_i narrow
    rw [bitLength_mul_two_pow nonzero]
    omega
  · rename_i wide
    have bounds := halfEven_bits (n := n) (p := p) (s := bitLength n - (p + 1)) (by omega)
    simp only
    split
    · exact bitLength_eq (Nat.le_refl _) (Nat.pow_lt_pow_right (by decide) (by omega))
    · rename_i below
      exact bitLength_eq bounds.1 (by omega)

theorem wireParts_eq {prec n : Nat} {exponent : Int} {r : Nat × Int} (positive : prec ≠ 0)
    (written : wireParts prec n exponent = .ok r) :
    r = inPrecision prec n exponent ∧ FitsSigned 32 r.2 ∧
      r.2 + prec ≤ maxBigFloatExponent ∧ -(maxBigFloatExponent : Int) ≤ r.2 + prec := by
  obtain ⟨p, rfl⟩ : ∃ p, prec = p + 1 := ⟨prec - 1, by omega⟩
  rw [wireParts] at written
  split_ifs at written with wraps far
  cases written
  refine ⟨?_, ⟨by omega, by omega⟩, by omega, by omega⟩
  by_cases wide : p + 1 < bitLength n
  · have rounded : roundedTo (p + 1) n exponent =
        (halfEven n (2 ^ (bitLength n - (p + 1))), exponent + (bitLength n - (p + 1) : Nat)) := by
      rw [roundedTo, if_pos wide, shiftRightRounded_eq n (by omega)]
    obtain ⟨low, high⟩ := halfEven_bits (n := n) (p := p) (s := bitLength n - (p + 1)) (by omega)
    rw [rounded, inPrecision, if_neg (by omega)]
    simp only
    generalize halfEven n (2 ^ (bitLength n - (p + 1))) = q at *
    by_cases carried : q = 2 ^ (p + 1)
    · -- the rounding carried, and the power of two is one bit too long
      have bits : bitLength q = p + 1 + 1 := by
        rw [carried]
        exact bitLength_eq (Nat.le_refl _) (Nat.pow_lt_pow_right (by decide) (by omega))
      rw [if_pos carried, widenedTo, bits, if_pos (by omega), shiftRightRounded_eq _ (by omega),
        carried]
      have halved : halfEven (2 ^ (p + 1)) (2 ^ (p + 1 + 1 - (p + 1))) = 2 ^ p := by
        simp [halfEven, Nat.pow_succ]
      rw [halved]
      refine Prod.ext rfl ?_
      simp only
      push_cast
      omega
    · have bits : bitLength q = p + 1 := bitLength_eq low (by omega)
      rw [if_neg carried, widenedTo, bits, if_neg (by omega)]
      simp
  · have kept : roundedTo (p + 1) n exponent = (n, exponent) := by
      rw [roundedTo, if_neg wide]
    rw [kept, inPrecision, if_pos (by omega), widenedTo, if_neg wide]
    refine Prod.ext rfl ?_
    simp only
    omega

theorem bigFloatField_shrinks : FieldReader.Shrinks bigFloatField := by
  intro num type data v v' rest read
  unfold bigFloatField at read
  split at read
  · exact readMagnitude_rest (Option.some.inj read)
  · exact readVarint_rest (Option.some.inj read)
  · exact readVarint_rest (Option.some.inj read)
  · exact readVarint_rest (Option.some.inj read)
  · cases read

theorem readRecords_appendParts {v : BigFloat} {mantissa : Nat} {exponent : Int}
    (short : (magnitudeBytes mantissa).length < 2 ^ 64) (range : FitsSigned 32 exponent)
    (prec : v.prec < 2 ^ 32) :
    readRecords (messageWording "BigFloat") bigFloatField (appendParts v mantissa exponent) {} =
      .ok ⟨magnitudeBytes mantissa, exponent, v.prec, v.negative⟩ := by
  rw [appendParts, ← List.append_nil (appendFlag _ _), List.append_assoc, List.append_assoc,
    readRecords_magnitude bigFloatField_shrinks (by decide) short
      (fun mantissa => ⟨mantissa, 0, 0, false⟩) rfl fun _ => rfl,
    readRecords_int bigFloatField_shrinks (by decide) range
      (fun exponent => ⟨magnitudeBytes mantissa, exponent, 0, false⟩) rfl fun _ => rfl,
    readRecords_varint bigFloatField_shrinks (by decide) (by omega)
      (fun x => ⟨magnitudeBytes mantissa, exponent, x % 2 ^ 32, false⟩) fun _ => rfl,
    Nat.mod_eq_of_lt prec,
    readRecords_flag bigFloatField_shrinks (by decide) _
      (fun negative => ⟨magnitudeBytes mantissa, exponent, v.prec, negative⟩) rfl fun _ => rfl,
    readRecords_nil]

theorem appendParts_length (v : BigFloat) (mantissa : Nat) (exponent : Int) :
    (magnitudeBytes mantissa).length ≤ (appendParts v mantissa exponent).length := by
  have short : (magnitudeBytes mantissa).length ≤
      (appendMagnitude 1 (magnitudeBytes mantissa)).length := by
    rw [appendMagnitude]
    split
    · rename_i empty
      simp [List.isEmpty_iff.mp empty]
    · simp only [appendBytes, List.length_append]
      omega
  simp only [appendParts, List.length_append]
  omega

theorem narrowed_inPrecision {v : BigFloat} {n maxExponent : Nat} (bits : bitLength n = v.prec)
    (mantissa : v.mantissa = magnitudeBytes n)
    (high : v.exponent + v.prec ≤ maxBigFloatExponent)
    (low : -(maxBigFloatExponent : Int) ≤ v.exponent + v.prec)
    (enough : maxBigFloatExponent ≤ maxExponent) : narrowed v maxExponent = .ok v := by
  have value : magnitudeOf v.mantissa = n := by rw [mantissa, magnitudeOf_magnitudeBytes]
  have kept : roundedTo v.prec n v.exponent = (n, v.exponent) := by
    rw [roundedTo, if_neg (by omega)]
  simp only [maxBigFloatExponent] at high low enough
  rw [narrowed]
  simp only [value, kept, bits]
  rw [if_neg (by omega), if_neg (by omega), ← mantissa]

theorem unmarshalBigFloatMsg_marshal {v : BigFloat} {bytes : Bytes} {maxExponent maxDigits : Nat}
    (exponents : maxBigFloatExponent ≤ maxExponent)
    (digits : maxNumericLiteralDigits ≤ maxDigits) (prec : v.prec < 2 ^ 32)
    (marshalled : marshalBigFloatMsg v = .ok bytes) (fits : bytes.length < 2 ^ 64) :
    unmarshalBigFloatMsg bytes maxExponent maxDigits = .ok v.normal := by
  rw [marshalBigFloatMsg] at marshalled
  split at marshalled
  · rename_i zero
    cases marshalled
    have read : readRecords (messageWording "BigFloat") bigFloatField (appendFlag 4 v.negative) {} =
        .ok { negative := v.negative } := by
      rw [← List.append_nil (appendFlag _ _),
        readRecords_flag bigFloatField_shrinks (by decide) _
          (fun negative => { negative }) rfl fun _ => rfl, readRecords_nil]
    rw [unmarshalBigFloatMsg, read, BigFloat.normal, if_pos zero]
    rfl
  rename_i positive
  split at marshalled
  · cases marshalled
  rename_i bounded
  split at marshalled
  · rename_i zero
    cases marshalled
    rw [unmarshalBigFloatMsg, readRecords_appendParts (by decide) (by decide) prec]
    simp only
    rw [if_neg positive, if_neg (by omega), magnitudeOf_magnitudeBytes, if_pos rfl,
      BigFloat.normal, if_neg positive, if_pos zero]
  rename_i nonzero
  split at marshalled
  · cases marshalled
  rename_i mantissa exponent written
  cases marshalled
  obtain ⟨parts, range, high, low⟩ := wireParts_eq positive written
  have bits := inPrecision_bits positive nonzero v.exponent
  have length := appendParts_length v mantissa exponent
  rw [← parts] at bits
  have filled : mantissa ≠ 0 := by
    rintro rfl
    exact positive bits.symm
  have kept := narrowed_inPrecision
    (v := ⟨magnitudeBytes mantissa, exponent, v.prec, v.negative⟩) bits rfl high low exponents
  rw [unmarshalBigFloatMsg, readRecords_appendParts (by omega) range prec]
  simp only
  rw [if_neg positive, if_neg (by omega), magnitudeOf_magnitudeBytes, if_neg filled, kept,
    BigFloat.normal, if_neg positive, if_neg nonzero, ← parts]

end Protowire.Pb.Native
