import Protowire.Pb.Canonical
import Protowire.Pxf.BigNumbers
import Protowire.Pxf.NumberTokens

/-!
Big integers and decimals as text. The printer divides a magnitude by ten until nothing is left,
and the reader multiplies by ten at every digit; a literal of one is a number token that the
other reads as the same number.
-/

namespace Protowire.Pb.Native.Bytewise

open Support Wire Limit Pxf

theorem magnitudeBytes_length_le {n : Nat} {mag : Bytes} (below : n ≤ magnitudeOf mag) :
    (magnitudeBytes n).length ≤ mag.length :=
  (magnitudeBytes_length_iff n _).mpr (Nat.lt_of_le_of_lt below (magnitudeOf_lt mag))

theorem formatTurn_lowers :
    Lowers (fun s : Bytes × Bytes => magnitudeOf s.1 + s.1.length) formatTurn := by
  intro s s' turned
  rw [formatTurn] at turned
  split at turned
  · cases turned
  · rename_i filled
    cases turned
    have length : 0 < s.1.length := List.length_pos_iff.mpr (by simpa using filled)
    rw [divBy10_eq]
    simp only [magnitudeOf_magnitudeBytes]
    by_cases zero : magnitudeOf s.1 = 0
    · rw [zero]
      change 0 < 0 + s.1.length
      omega
    · have shorter : (magnitudeBytes (magnitudeOf s.1 / 10)).length ≤ s.1.length :=
        magnitudeBytes_length_le (Nat.div_le_self _ _)
      omega

theorem formatLoop_spec (s : Bytes × Bytes) : (∀ c ∈ s.2, isDigit c = true) →
    let found := loop (fun s => magnitudeOf s.1 + s.1.length) formatTurn (fun s => s.2) s
    (∀ c ∈ found, isDigit c = true) ∧
      digitsValue 0 found = magnitudeOf s.1 * 10 ^ s.2.length + digitsValue 0 s.2 ∧
      (s.1 ≠ [] ∨ s.2 ≠ [] → found ≠ []) := by
  refine loop_induct formatTurn_lowers (motive := fun s found => (∀ c ∈ s.2, isDigit c = true) →
    (∀ c ∈ found, isDigit c = true) ∧
      digitsValue 0 found = magnitudeOf s.1 * 10 ^ s.2.length + digitsValue 0 s.2 ∧
      (s.1 ≠ [] ∨ s.2 ≠ [] → found ≠ [])) ?_ ?_ s
  · intro s s' found turned ih digits
    rw [formatTurn] at turned
    split at turned
    · cases turned
    cases turned
    obtain ⟨digit, value⟩ := digit_ofNat (Nat.mod_lt (magnitudeOf s.1) (show 0 < 10 by decide))
    rw [divBy10_eq] at ih
    obtain ⟨all, same, filled⟩ := ih (by
      intro c member
      rcases List.mem_cons.mp member with rfl | later
      · exact digit
      · exact digits c later)
    refine ⟨all, ?_, fun _ => filled (.inr (List.cons_ne_nil _ _))⟩
    simp only [magnitudeOf_magnitudeBytes, List.length_cons, digitsValue_cons, value] at same
    rw [same, digitsValue_high]
    have split_ := Nat.div_add_mod (magnitudeOf s.1) 10
    calc magnitudeOf s.1 / 10 * 10 ^ (s.2.length + 1) +
          ((0 * 10 + magnitudeOf s.1 % 10) * 10 ^ s.2.length + digitsValue 0 s.2)
        = (10 * (magnitudeOf s.1 / 10) + magnitudeOf s.1 % 10) * 10 ^ s.2.length +
            digitsValue 0 s.2 := by ring
      _ = magnitudeOf s.1 * 10 ^ s.2.length + digitsValue 0 s.2 := by rw [split_]
  · intro s found turned digits
    rw [formatTurn] at turned
    split at turned
    · rename_i empty
      cases turned
      rw [List.isEmpty_iff] at empty
      rw [empty]
      refine ⟨digits, ?_, ?_⟩
      · simp [magnitudeOf, ofBig]
      · rintro (filled | filled)
        · exact absurd rfl filled
        · exact filled
    · cases turned

theorem formatMagnitude_spec (mag : Bytes) : (∀ c ∈ formatMagnitude mag, isDigit c = true) ∧
    digitsValue 0 (formatMagnitude mag) = magnitudeOf mag ∧ formatMagnitude mag ≠ [] := by
  rw [formatMagnitude]
  split
  · rename_i empty
    rw [List.isEmpty_iff] at empty
    rw [empty]
    exact ⟨List.forall_mem_singleton.mpr rfl, rfl, List.cons_ne_nil _ _⟩
  · rename_i filled
    obtain ⟨digits, value, nonempty⟩ := formatLoop_spec (mag, []) (by simp)
    refine ⟨digits, ?_, nonempty (.inl (by simpa using filled))⟩
    rw [value]
    simp

theorem parseDigits_spec {s : Bytes} (filled : s ≠ []) (digits : ∀ c ∈ s, isDigit c = true) :
    parseDigits s [] = some (magnitudeBytes (digitsValue 0 s)) := by
  have all : s.all isDigit = true := List.all_eq_true.mpr digits
  have read := appendDigits_eq s []
  rw [Pb.parseDigits, if_pos all] at read
  obtain ⟨mag, found, value⟩ := Option.map_eq_some_iff.mp read
  have nonempty : s.isEmpty = false := by simpa using filled
  rw [parseDigits, nonempty, found]
  simp only [Bool.false_eq_true, if_false, Option.map_some, trimLeadingZeros_eq, value]
  rfl

theorem appendDigits_spec {s : Bytes} (digits : ∀ c ∈ s, isDigit c = true) (mag : Bytes) :
    ∃ found, appendDigits mag s = some found ∧
      magnitudeOf found = digitsValue (magnitudeOf mag) s := by
  have read := appendDigits_eq s mag
  rw [Pb.parseDigits, if_pos (List.all_eq_true.mpr digits)] at read
  exact Option.map_eq_some_iff.mp read

theorem splitSign_literal (n : Numeral) :
    splitSign n.literal = (n.minus, n.whole ++ (n.pointed ++ n.scaled)) := by
  obtain ⟨c, digits, starts⟩ := List.exists_cons_of_ne_nil n.nonempty
  have digit : isDigit c = true := n.whole_digits c (by simp [starts])
  obtain ⟨-, -, unsigned, -⟩ := digit_apart digit []
  rw [Numeral.literal, Numeral.sign]
  cases n.minus with
  | true => rfl
  | false =>
    have minus : c ≠ 0x2D := fun same => unsigned (.inl same)
    have plus : c ≠ 0x2B := fun same => unsigned (.inr same)
    simp [splitSign, starts, minus, plus]

theorem literal_ne_nil (n : Numeral) : n.literal.isEmpty = false := by
  have filled := n.nonempty
  simp [Numeral.literal, filled]

theorem parseBigInt_numeral {n : Numeral} (plain : n.exponent = none) (integral : n.fraction = []) :
    parseBigInt n.literal = some ⟨magnitudeBytes (digitsValue 0 n.whole),
      n.minus && !(magnitudeBytes (digitsValue 0 n.whole)).isEmpty⟩ := by
  have body : n.whole ++ (n.pointed ++ n.scaled) = n.whole := by
    simp [Numeral.pointed, Numeral.scaled, plain, integral]
  rw [parseBigInt, literal_ne_nil, splitSign_literal, body,
    parseDigits_spec n.nonempty n.whole_digits]
  rfl

theorem digit_ne_point {c : UInt8} (digit : isDigit c = true) : c ≠ 0x2E := by
  rintro rfl
  exact absurd digit (by decide)

theorem parts_pointed (n : Numeral) : wholePart (n.whole ++ n.pointed) = n.whole ∧
    fractionPart (n.whole ++ n.pointed) = n.fraction := by
  have before : ∀ c ∈ n.whole, decide (c ≠ 0x2E) = true := fun c member =>
    decide_eq_true (digit_ne_point (n.whole_digits c member))
  rw [wholePart, fractionPart, List.takeWhile_append_of_pos before,
    List.dropWhile_append_of_pos before, Numeral.pointed]
  cases n.fraction with
  | nil => simp
  | cons c rest => simp

theorem parseDecimal_numeral {n : Numeral} (plain : n.exponent = none) :
    parseDecimal n.literal = some ⟨magnitudeBytes (digitsValue 0 (n.whole ++ n.fraction)),
      castInt n.fraction.length,
      n.minus && !(magnitudeBytes (digitsValue 0 (n.whole ++ n.fraction))).isEmpty⟩ := by
  have body : n.whole ++ (n.pointed ++ n.scaled) = n.whole ++ n.pointed := by
    simp [Numeral.scaled, plain]
  obtain ⟨whole, fraction⟩ := parts_pointed n
  have filled : n.whole.isEmpty = false := by simpa using n.nonempty
  rw [parseDecimal, literal_ne_nil, splitSign_literal, body]
  simp only [whole, fraction, filled, Bool.false_eq_true, if_false,
    parseDigits_spec n.nonempty n.whole_digits, Bool.and_false, Option.bind_eq_bind, Option.bind_some,
    Bool.false_and]
  split
  · rename_i empty
    rw [List.isEmpty_iff] at empty
    rw [trimLeadingZeros_eq, magnitudeOf_magnitudeBytes, empty, List.append_nil]
  · obtain ⟨found, appended, value⟩ := appendDigits_spec n.fraction_digits
      (magnitudeBytes (digitsValue 0 n.whole))
    rw [appended, Option.bind_some, trimLeadingZeros_eq, value, magnitudeOf_magnitudeBytes,
      digitsValue_append]

theorem significantDigitsFrom_eq {s : Bytes} (plain : ∀ c ∈ s, ¬endsDigits c) (leading : Bool) :
    significantDigitsFrom leading s = countLiteralDigitsFrom leading s := by
  induction s generalizing leading with
  | nil => rfl
  | cons c rest ih =>
    have here : ¬(c = 0x65 ∨ c = 0x45 ∨ c = 0x70) := plain c (by simp)
    have later := ih fun d member => plain d (by simp [member])
    rw [significantDigitsFrom, countLiteralDigitsFrom, if_neg here, later, later]

theorem significantDigitsFrom_le (leading : Bool) (s : Bytes) :
    significantDigitsFrom leading s ≤ s.length := by
  induction s generalizing leading with
  | nil => exact Nat.le_refl _
  | cons c rest ih =>
    have first := ih leading
    have second := ih false
    rw [significantDigitsFrom, List.length_cons]
    split
    · omega
    · omega

theorem literal_plain {n : Numeral} (plain : n.exponent = none) : ∀ c ∈ n.literal, ¬endsDigits c := by
  have sign : ∀ c ∈ n.sign, ¬endsDigits c := by
    rw [Numeral.sign]
    cases n.minus
    · simp
    · simp [endsDigits]
  have point : ∀ c ∈ n.pointed, ¬endsDigits c := by
    rw [Numeral.pointed]
    split
    · simp
    · intro c member
      rcases List.mem_cons.mp member with rfl | later
      · simp [endsDigits]
      · exact not_endsDigits_of_isDigit (n.fraction_digits c later)
  intro c member
  rw [Numeral.literal, Numeral.scaled, plain, List.append_nil, List.mem_append, List.mem_append] at member
  rcases member with first | second | third
  · exact sign c first
  · exact not_endsDigits_of_isDigit (n.whole_digits c second)
  · exact point c third

theorem boundLiteral_ok {kind : String} {n : Numeral} {literal : Bytes} (plain : n.exponent = none)
    (bounded : boundLiteral kind n.literal = .ok literal) :
    literal = n.literal ∧ countLiteralDigits literal ≤ Limit.maxNumericLiteralDigits := by
  rw [boundLiteral] at bounded
  split at bounded
  · cases bounded
  rename_i within
  cases bounded
  refine ⟨rfl, ?_⟩
  have same : significantDigits n.literal = countLiteralDigits n.literal :=
    significantDigitsFrom_eq (literal_plain plain) true
  have length : significantDigits n.literal ≤ n.literal.length := significantDigitsFrom_le true _
  omega

theorem digits_zeros {count : Nat} {c : UInt8} (member : c ∈ List.replicate count 0x30) :
    isDigit c = true := by
  rw [List.eq_of_mem_replicate member]
  rfl

def bigIntNumeral (v : BigInt) : Numeral where
  minus := v.negative && !v.abs.isEmpty
  whole := formatMagnitude v.abs
  nonempty := (formatMagnitude_spec v.abs).2.2
  whole_digits := (formatMagnitude_spec v.abs).1
  fraction_digits := Numeral.no_digits
  exponent_digits := Numeral.no_exponent
  prec_digits := Numeral.no_digits

theorem formatBigInt_eq (v : BigInt) :
    formatBigInt v = boundLiteral "pxf.BigInt" (bigIntNumeral v).literal := by
  rw [formatBigInt, Numeral.literal]
  congr 1
  simp only [bigIntNumeral, Numeral.sign, Numeral.pointed, Numeral.scaled, List.isEmpty_nil, if_true,
    List.append_nil]
  rfl

theorem padDigits_spec (scale : Nat) {digits : Bytes} (all : ∀ c ∈ digits, isDigit c = true) :
    (∀ c ∈ padDigits scale digits, isDigit c = true) ∧
      digitsValue 0 (padDigits scale digits) = digitsValue 0 digits ∧
      scale < (padDigits scale digits).length := by
  rw [padDigits]
  refine ⟨?_, ?_, ?_⟩
  · intro c member
    rcases List.mem_append.mp member with zero | digit
    · exact digits_zeros zero
    · exact all c digit
  · have zeros := digitsValue_zeros [] (scale + 1 - digits.length)
    rw [List.nil_append, digitsValue_nil, Nat.zero_mul] at zeros
    rw [digitsValue_append, zeros]
  · rw [List.length_append, List.length_replicate]
    omega

theorem padDigits_whole (scale : Nat) (digits : Bytes) :
    (padDigits scale digits).take ((padDigits scale digits).length - scale) ≠ [] := by
  intro empty
  have length := congrArg List.length empty
  rw [List.length_take, List.length_nil, padDigits, List.length_append, List.length_replicate] at length
  omega

def decimalNumeral (v : Decimal) : Numeral :=
  if v.scale ≤ 0 then
    { minus := v.negative && !v.unscaled.isEmpty
      whole := formatMagnitude v.unscaled ++
        List.replicate (if v.unscaled.isEmpty then 0 else (-v.scale).toNat) 0x30
      nonempty := List.append_ne_nil_of_left_ne_nil (formatMagnitude_spec v.unscaled).2.2 _
      whole_digits := by
        intro c member
        rcases List.mem_append.mp member with digit | zero
        · exact (formatMagnitude_spec v.unscaled).1 c digit
        · exact digits_zeros zero
      fraction_digits := Numeral.no_digits
      exponent_digits := Numeral.no_exponent
      prec_digits := Numeral.no_digits }
  else
    let padded := padDigits v.scale.toNat (formatMagnitude v.unscaled)
    have spec := padDigits_spec v.scale.toNat (formatMagnitude_spec v.unscaled).1
    { minus := v.negative && !v.unscaled.isEmpty
      whole := padded.take (padded.length - v.scale.toNat)
      fraction := padded.drop (padded.length - v.scale.toNat)
      nonempty := padDigits_whole v.scale.toNat (formatMagnitude v.unscaled)
      whole_digits := fun c member => spec.1 c (List.mem_of_mem_take member)
      fraction_digits := fun c member => spec.1 c (List.mem_of_mem_drop member)
      exponent_digits := Numeral.no_exponent
      prec_digits := Numeral.no_digits }

theorem decimalNumeral_exponent (v : Decimal) : (decimalNumeral v).exponent = none := by
  rw [decimalNumeral]
  split <;> rfl

theorem decimalNumeral_minus (v : Decimal) :
    (decimalNumeral v).minus = (v.negative && !v.unscaled.isEmpty) := by
  rw [decimalNumeral]
  split <;> rfl

theorem decimalNumeral_prec (v : Decimal) : (decimalNumeral v).prec = [] := by
  rw [decimalNumeral]
  split <;> rfl

theorem decimalNumeral_value (v : Decimal) :
    (decimalNumeral v).fraction.length = v.scale.toNat ∧
      (digitsValue 0 ((decimalNumeral v).whole ++ (decimalNumeral v).fraction) : ℚ) *
        10 ^ (-(v.scale.toNat : ℤ)) = magnitudeOf v.unscaled * 10 ^ (-v.scale) := by
  obtain ⟨digits, value, -⟩ := formatMagnitude_spec v.unscaled
  rw [decimalNumeral]
  split
  · rename_i low
    have none : v.scale.toNat = 0 := by omega
    rw [none]
    refine ⟨rfl, ?_⟩
    simp only [List.append_nil, Nat.cast_zero, neg_zero, zpow_zero, mul_one]
    rw [digitsValue_zeros, value]
    split
    · rename_i empty
      rw [List.isEmpty_iff] at empty
      simp [empty, magnitudeOf, ofBig]
    · have exponent : -v.scale = ((-v.scale).toNat : ℤ) := by omega
      rw [exponent, zpow_natCast]
      push_cast
      rfl
  · rename_i high
    obtain ⟨-, same, long⟩ := padDigits_spec v.scale.toNat digits
    have exponent : (v.scale.toNat : ℤ) = v.scale := by omega
    simp only [List.length_drop, List.take_append_drop]
    refine ⟨by omega, ?_⟩
    rw [same, value, exponent]

theorem formatDecimal_eq {v : Decimal} {literal : Bytes} (formatted : formatDecimal v = .ok literal) :
    v.scale ≤ Limit.maxNumericLiteralDigits ∧
      boundLiteral "pxf.Decimal" (decimalNumeral v).literal = .ok literal := by
  rw [formatDecimal] at formatted
  split at formatted
  · cases formatted
  rename_i bounded
  refine ⟨by omega, ?_⟩
  simp only at formatted
  rw [← formatted, Numeral.literal, decimalNumeral]
  split
  · congr 1
    simp only [Numeral.sign, Numeral.pointed, Numeral.scaled, List.isEmpty_nil, if_true,
      List.append_nil, List.append_assoc]
    rfl
  · rename_i high
    obtain ⟨-, -, long⟩ := padDigits_spec v.scale.toNat (formatMagnitude_spec v.unscaled).1
    congr 1
    have fraction : ((padDigits v.scale.toNat (formatMagnitude v.unscaled)).drop
        ((padDigits v.scale.toNat (formatMagnitude v.unscaled)).length - v.scale.toNat)).isEmpty =
          false := by
      rw [List.isEmpty_eq_false_iff, ← List.length_pos_iff, List.length_drop]
      omega
    simp only [Numeral.sign, Numeral.pointed, Numeral.scaled, fraction, List.append_nil,
      List.append_assoc, Bool.false_eq_true, if_false]
    rfl

end Protowire.Pb.Native.Bytewise

namespace Protowire.Pb.Native

open Support Limit Pxf

def BigInt.value (v : BigInt) : ℤ := (if v.negative then -1 else 1) * magnitudeOf v.abs

def IsNumberToken (literal : Bytes) : Prop :=
  ∀ (l : Lexer) (more : Bytes), l.rest = literal ++ more → EndsNumber more →
    (l.next.1.kind = .int ∨ l.next.1.kind = .float) ∧ l.next.1.value = literal ∧
      l.next.1.prec = [] ∧ l.next.2.1.rest = more ∧ l.next.2.2 = []

theorem isNumberToken_numeral {n : Numeral} (plain : n.prec = []) : IsNumberToken n.literal := by
  intro l more opens ends
  have behind : l.rest = n.literal ++ (n.suffix ++ more) := by
    rw [opens, Numeral.suffix, plain]
    rfl
  obtain ⟨kind, value, prec, rest, reports⟩ := n.next_eq behind ends
  refine ⟨?_, value, by rw [prec, plain], rest, reports⟩
  rw [kind, Numeral.kind]
  split
  · exact .inl rfl
  · exact .inr rfl

theorem signed_magnitude (negative : Bool) (mag : Bytes) (x : ℚ) :
    (if negative && !mag.isEmpty then -1 else 1 : ℚ) * (magnitudeOf mag * x) =
      (if negative then -1 else 1) * (magnitudeOf mag * x) := by
  cases mag with
  | nil => simp [magnitudeOf, ofBig]
  | cons b rest => simp

theorem formatBigInt_reads {v : BigInt} {literal : Bytes}
    (formatted : Bytewise.formatBigInt v = .ok literal) :
    countLiteralDigits literal ≤ Limit.maxNumericLiteralDigits ∧ IsNumberToken literal ∧
      ∃ u, Bytewise.parseBigInt literal = some u ∧ u.value = v.value := by
  rw [Bytewise.formatBigInt_eq] at formatted
  obtain ⟨rfl, within⟩ := Bytewise.boundLiteral_ok rfl formatted
  have digits : digitsValue 0 (Bytewise.bigIntNumeral v).whole = magnitudeOf v.abs :=
    (Bytewise.formatMagnitude_spec v.abs).2.1
  have read := Bytewise.parseBigInt_numeral (n := Bytewise.bigIntNumeral v) rfl rfl
  rw [digits] at read
  refine ⟨within, isNumberToken_numeral rfl, _, read, ?_⟩
  have trimmed := signed_magnitude (Bytewise.bigIntNumeral v).minus
    (magnitudeBytes (magnitudeOf v.abs)) 1
  have printed := signed_magnitude v.negative v.abs 1
  rw [magnitudeOf_magnitudeBytes, mul_one] at trimmed
  rw [mul_one] at printed
  rw [BigInt.value, BigInt.value, magnitudeOf_magnitudeBytes]
  exact_mod_cast trimmed.trans printed

theorem formatDecimal_reads {v : Decimal} {literal : Bytes}
    (formatted : Bytewise.formatDecimal v = .ok literal) :
    countLiteralDigits literal ≤ Limit.maxNumericLiteralDigits ∧ IsNumberToken literal ∧
      ∃ u, Bytewise.parseDecimal literal = some u ∧ u.value = v.value ∧
        (0 ≤ v.scale → u.scale = v.scale) := by
  obtain ⟨bounded, formatted⟩ := Bytewise.formatDecimal_eq formatted
  have plain := Bytewise.decimalNumeral_exponent v
  obtain ⟨rfl, within⟩ := Bytewise.boundLiteral_ok plain formatted
  obtain ⟨places, value⟩ := Bytewise.decimalNumeral_value v
  have scale : Wire.castInt (Bytewise.decimalNumeral v).fraction.length = v.scale.toNat := by
    rw [places]
    refine Wire.castInt_self (Int.natCast_nonneg _) ?_
    simp only [Limit.maxNumericLiteralDigits] at bounded
    omega
  have read := Bytewise.parseDecimal_numeral plain
  rw [scale] at read
  refine ⟨within, isNumberToken_numeral (Bytewise.decimalNumeral_prec v), _, read, ?_,
    Int.toNat_of_nonneg⟩
  generalize digitsValue 0 ((Bytewise.decimalNumeral v).whole ++ (Bytewise.decimalNumeral v).fraction) =
    d at value
  have trimmed := signed_magnitude (Bytewise.decimalNumeral v).minus (magnitudeBytes d)
    (10 ^ (-(v.scale.toNat : ℤ)))
  have printed := signed_magnitude v.negative v.unscaled (10 ^ (-v.scale))
  rw [magnitudeOf_magnitudeBytes, value, Bytewise.decimalNumeral_minus] at trimmed
  rw [Decimal.value, Decimal.value, magnitudeOf_magnitudeBytes, value, Bytewise.decimalNumeral_minus]
  exact trimmed.trans printed

/-- What is written of a big integer or a decimal is within the digits a decoder takes, is one
token, and is read as the number that was written. -/
theorem big_literals_read_back :
    (∀ (v : BigInt) (literal : Bytes), Bytewise.formatBigInt v = .ok literal →
      countLiteralDigits literal ≤ Limit.maxNumericLiteralDigits ∧ IsNumberToken literal ∧
        ∃ u, Bytewise.parseBigInt literal = some u ∧ u.value = v.value) ∧
    ∀ (v : Decimal) (literal : Bytes), Bytewise.formatDecimal v = .ok literal →
      countLiteralDigits literal ≤ Limit.maxNumericLiteralDigits ∧ IsNumberToken literal ∧
        ∃ u, Bytewise.parseDecimal literal = some u ∧ u.value = v.value ∧
          (0 ≤ v.scale → u.scale = v.scale) := by
  exact ⟨fun _ _ => formatBigInt_reads, fun _ _ => formatDecimal_reads⟩

theorem big_literals_read_back_padded :
    Bytewise.formatBigInt ⟨[1, 0], false⟩ = .ok (text "256") ∧
      Bytewise.formatDecimal ⟨[15], 3, true⟩ = .ok (text "-0.015") ∧
      (∃ u, Bytewise.parseBigInt (text "256") = some u ∧ u.value = BigInt.value ⟨[1, 0], false⟩) ∧
      ∃ u, Bytewise.parseDecimal (text "-0.015") = some u ∧
        u.value = Decimal.value ⟨[15], 3, true⟩ ∧ u.scale = 3 := by
  have integer : Bytewise.formatBigInt ⟨[1, 0], false⟩ = .ok (text "256") := by decide
  have pointed : Bytewise.formatDecimal ⟨[15], 3, true⟩ = .ok (text "-0.015") := by decide
  obtain ⟨-, -, u, read, value, scale⟩ := big_literals_read_back.2 _ _ pointed
  exact ⟨integer, pointed, (big_literals_read_back.1 _ _ integer).2.2, u, read, value,
    scale (by decide)⟩

end Protowire.Pb.Native
