import Protowire.Detail.Duration
import Protowire.Detail.Padded

/-!
`FormatDuration` writes segments of a duration: hours, minutes and seconds with a fraction, or one
segment of a smaller unit. They are exact and their sum is the duration.
-/

namespace Protowire

structure Formatted (segment : Segment) : Prop where
  exact_ : segment.Exact
  whole : segment.whole ≠ []
  fraction : segment.fraction ≠ some []
  unit : segment.unit ≠ [0xCE, 0xBC, 0x73]

theorem decimal_segment (n : Nat) {scale : Nat} {unit : Bytes} (known : (unit, scale) ∈ durationUnits)
    (plain : unit ≠ [0xCE, 0xBC, 0x73]) (small : n < 2 ^ 63) :
    ∃ segment : Segment, segment.written = decimal n ++ unit ∧ segment.nanos = n * scale ∧
      Formatted segment := by
  refine ⟨⟨decimal n, none, unit, scale, ?_, ?_, known⟩, rfl, ?_, ?_, ?_, by simp, plain⟩
  · simpa using fun c member => isDigit_decimal member
  · simpa using decimal_ne_nil n
  · simp [Segment.nanos, digitsValue_decimal]
  · simpa [Segment.Exact, digitsValue_decimal] using small
  · exact decimal_ne_nil n

theorem withFraction_segment (whole width n : Nat) {unit : Bytes}
    (known : (unit, 10 ^ width) ∈ durationUnits) (plain : unit ≠ [0xCE, 0xBC, 0x73])
    (positive : 0 < width) (narrow : width ≤ 9) (small : whole < 2 ^ 63) (below : n < 10 ^ width) :
    ∃ segment : Segment, segment.written = withFraction whole width n unit ∧
      segment.nanos = whole * 10 ^ width + n ∧ Formatted segment := by
  rw [withFraction]
  split
  · rename_i none_
    subst none_
    exact decimal_segment whole known plain small
  · rename_i some_
    obtain ⟨digits, length, value⟩ := fractionDigits_value below positive
    have nonempty := fractionDigits_ne_nil below positive some_
    generalize fractionDigits width n = fraction at digits length value nonempty ⊢
    have power : 0 < 10 ^ fraction.length := Nat.pow_pos (by decide)
    refine ⟨⟨decimal whole, some fraction, unit, 10 ^ width, ?_, ?_, known⟩, ?_, ?_, ?_, ?_, ?_, plain⟩
    · intro c member
      obtain member | member := List.mem_append.mp member
      · exact isDigit_decimal member
      · exact digits c member
    · simp [decimal_ne_nil]
    · simp only [Segment.written, Segment.pointed, List.append_assoc]
      rfl
    · simp only [Segment.nanos, digitsValue_decimal, Option.getD_some, value]
      rw [Nat.mul_div_cancel _ power]
    · have short := digitsValue_lt_pow digits
      simp only [Segment.Exact, digitsValue_decimal, Option.getD_some,
        List.take_of_length_le (Nat.le_trans length narrow),
        List.drop_eq_nil_of_le (Nat.le_trans length narrow)]
      refine ⟨small, ?_, by simp⟩
      calc digitsValue 0 fraction * 10 ^ width = n * 10 ^ fraction.length := value
        _ < 10 ^ width * 10 ^ fraction.length := Nat.mul_lt_mul_of_pos_right below power
        _ ≤ 10 ^ 9 * 10 ^ 9 :=
            Nat.mul_le_mul (Nat.pow_le_pow_right (by decide) narrow)
              (Nat.pow_le_pow_right (by decide) (Nat.le_trans length narrow))
        _ < 2 ^ 63 := by decide
    · exact decimal_ne_nil whole
    · simpa using nonempty

theorem durationMagnitude_segments {total : Nat} (bound : total ≤ 2 ^ 63) :
    ∃ segments, segments ≠ [] ∧ durationMagnitude total = segmentsWritten segments ∧
      segmentsNanos segments = total ∧ ∀ segment ∈ segments, Formatted segment := by
  have single {segment : Segment} {written : Bytes} (shape : segment.written = written)
      (value : segment.nanos = total) (formatted : Formatted segment) :
      ∃ segments, segments ≠ [] ∧ written = segmentsWritten segments ∧
        segmentsNanos segments = total ∧ ∀ segment ∈ segments, Formatted segment :=
    ⟨[segment], by simp, by simp [segmentsWritten, shape], by simp [segmentsNanos, value],
      by simpa using formatted⟩
  rw [durationMagnitude]
  split
  · have known : (text "ns", 1) ∈ durationUnits := by decide
    obtain ⟨segment, shape, value, formatted⟩ := decimal_segment total known (by decide) (by omega)
    exact single shape (by omega) formatted
  split
  · have known : (text "µs", 10 ^ 3) ∈ durationUnits := by decide
    obtain ⟨segment, shape, value, formatted⟩ := withFraction_segment (total / 1000) 3 (total % 1000)
      known (by decide) (by decide) (by decide) (by omega) (by omega)
    exact single shape (by omega) formatted
  split
  · have known : (text "ms", 10 ^ 6) ∈ durationUnits := by decide
    obtain ⟨segment, shape, value, formatted⟩ := withFraction_segment (total / 1000000) 6
      (total % 1000000) known (by decide) (by decide) (by decide) (by omega) (by omega)
    exact single shape (by omega) formatted
  · have hoursKnown : (text "h", 3600000000000) ∈ durationUnits := by decide
    have minutesKnown : (text "m", 60000000000) ∈ durationUnits := by decide
    have secondsKnown : (text "s", 10 ^ 9) ∈ durationUnits := by decide
    obtain ⟨hours, hoursShape, hoursValue, hoursFormatted⟩ :=
      decimal_segment (total / 1000000000 / 3600) hoursKnown (by decide) (by omega)
    obtain ⟨minutes, minutesShape, minutesValue, minutesFormatted⟩ :=
      decimal_segment (total / 1000000000 / 60 % 60) minutesKnown (by decide) (by omega)
    obtain ⟨seconds, secondsShape, secondsValue, secondsFormatted⟩ :=
      withFraction_segment (total / 1000000000 % 60) 9 (total % 1000000000) secondsKnown (by decide)
        (by decide) (by decide) (by omega) (by omega)
    simp only [← hoursShape, ← minutesShape, ← secondsShape]
    by_cases someHours : 0 < total / 1000000000 / 3600
    · refine ⟨[hours, minutes, seconds], by simp, ?_, ?_, ?_⟩
      · simp [someHours, segmentsWritten]
      · simp only [segmentsNanos, List.map_cons, List.map_nil, List.sum_cons, List.sum_nil]
        omega
      · simp [hoursFormatted, minutesFormatted, secondsFormatted]
    · by_cases someMinutes : 0 < total / 1000000000 / 60 % 60
      · refine ⟨[minutes, seconds], by simp, ?_, ?_, ?_⟩
        · simp [someHours, someMinutes, segmentsWritten]
        · simp only [segmentsNanos, List.map_cons, List.map_nil, List.sum_cons, List.sum_nil]
          omega
        · simp [minutesFormatted, secondsFormatted]
      · rw [if_neg someHours, if_neg (by omega)]
        exact single rfl (by omega) secondsFormatted

theorem formatDuration_segments {seconds nanos : Int}
    (scaled : fitsInt64 (seconds * 1000000000) = true)
    (fits : fitsInt64 (seconds * 1000000000 + nanos) = true) :
    ∃ (sign : DurationSign) (segments : List Segment), sign ≠ .plus ∧ segments ≠ [] ∧
      formatDuration seconds nanos = sign.written ++ segmentsWritten segments ∧
      sign.apply (segmentsNanos segments) = seconds * 1000000000 + nanos ∧
        ∀ segment ∈ segments, Formatted segment := by
  simp only [formatDuration, scaled, fits, Bool.not_true, Bool.or_self, Bool.false_eq_true, if_false]
  generalize seconds * 1000000000 + nanos = total at fits ⊢
  simp only [fitsInt64, Bool.and_eq_true, decide_eq_true_eq] at fits
  split
  · rename_i zero
    have known : (text "s", 10 ^ 9) ∈ durationUnits := by decide
    obtain ⟨segment, shape, value, formatted⟩ := decimal_segment 0 known (by decide) (by decide)
    refine ⟨.absent, [segment], by decide, by simp, ?_, ?_, by simpa using formatted⟩
    · simp only [segmentsWritten, List.flatMap_cons, List.flatMap_nil, shape]
      decide
    · simp [DurationSign.apply, segmentsNanos, value, zero]
  · obtain ⟨segments, nonempty, shape, value, formatted⟩ :=
      durationMagnitude_segments (show total.natAbs ≤ 2 ^ 63 by omega)
    rw [shape]
    by_cases negative : total < 0
    · refine ⟨.minus, segments, by decide, nonempty, ?_, ?_, formatted⟩
      · rw [if_pos negative]
        rfl
      · rw [DurationSign.apply, value]
        omega
    · refine ⟨.absent, segments, by decide, nonempty, ?_, ?_, formatted⟩
      · rw [if_neg negative]
        rfl
      · rw [value]
        change (total.natAbs : Int) = total
        omega

theorem parseDuration_formatted {sign : DurationSign} {segments : List Segment}
    (nonempty : segments ≠ []) (formatted : ∀ segment ∈ segments, Formatted segment)
    (fits : fitsInt64 (sign.apply (segmentsNanos segments)) = true) :
    parseDuration (sign.written ++ segmentsWritten segments) =
      some (.ofNanos (sign.apply (segmentsNanos segments))) := by
  obtain ⟨kept, same⟩ := segmentsCut_exact fun segment member => (formatted segment member).exact_
  rw [parseDuration_segments sign nonempty, same]
  exact if_pos ⟨kept, fits⟩

end Protowire
