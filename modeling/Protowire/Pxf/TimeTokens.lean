import Protowire.Detail.DurationText
import Protowire.Detail.Rfc3339
import Protowire.Pxf.Lexer

/-!
Durations and timestamps as tokens. What the formatters write is one token, up to a byte that
ends it.
-/

namespace Protowire.Pxf

theorem digit_cases {c : UInt8} (digit : isDigit c = true) :
    c ∈ ([0x30, 0x31, 0x32, 0x33, 0x34, 0x35, 0x36, 0x37, 0x38, 0x39] : Bytes) := by
  simp only [isDigit, Bool.and_eq_true, decide_eq_true_eq, UInt8.le_iff_toNat_le] at digit
  simp only [List.mem_cons, List.not_mem_nil, or_false, ← UInt8.toNat_inj]
  obtain ⟨low, high⟩ := digit
  simp only [UInt8.reduceToNat] at low high ⊢
  omega

theorem digit_apart {c : UInt8} (digit : isDigit c = true) (s : Bytes) :
    isSpace c = false ∧ leadOf (c :: s) = .number ∧ ¬(c = 0x2D ∨ c = 0x2B) ∧
      opensWith (text "inf") (c :: s) = false := by
  have cases := digit_cases digit
  simp only [List.mem_cons, List.not_mem_nil, or_false] at cases
  obtain rfl | rfl | rfl | rfl | rfl | rfl | rfl | rfl | rfl | rfl := cases <;>
    exact ⟨by decide, rfl, by decide, rfl⟩

theorem scan_digit {c : UInt8} (digit : isDigit c = true) (tolerant : Bool) (limit : Nat) (s : Bytes) :
    scan tolerant limit (c :: s) = scanMagnitude false (c :: s) 0 := by
  obtain ⟨-, lead, unsigned, -⟩ := digit_apart digit s
  rw [scan, lead]
  exact if_neg unsigned

theorem scan_minus {c : UInt8} (digit : isDigit c = true) (tolerant : Bool) (limit : Nat) (s : Bytes) :
    scan tolerant limit (0x2D :: c :: s) = scanMagnitude true (0x2D :: c :: s) 1 := by
  obtain ⟨-, -, -, finite⟩ := digit_apart digit s
  have lead : leadOf (0x2D :: c :: s) = .number := rfl
  rw [scan, lead]
  simp only [scanNumber, peek_zero, List.drop_succ_cons, List.drop_zero, finite, peek_succ, digit]
  rfl

theorem durationRun_plain {c : UInt8} (plain : (isDigit c || isLowerAlpha c) = true) (s : Bytes) :
    durationRun (c :: s) = durationRun s + 1 := by
  cases s with
  | nil => simp [durationRun, plain]
  | cons d rest => rw [durationRun, if_pos plain]

theorem durationRun_digits {digits : Bytes} (all : ∀ c ∈ digits, isDigit c = true) (s : Bytes) :
    durationRun (digits ++ s) = digits.length + durationRun s := by
  induction digits with
  | nil => simp
  | cons c rest ih =>
    have first : (isDigit c || isLowerAlpha c) = true := by simp [all c (by simp)]
    rw [List.cons_append, durationRun_plain first, ih fun c member => all c (by simp [member]),
      List.length_cons]
    omega

theorem durationRun_unit {unit : Bytes} {scale : Nat} (known : (unit, scale) ∈ durationUnits)
    (plain : unit ≠ [0xCE, 0xBC, 0x73]) (s : Bytes) :
    durationRun (unit ++ s) = unit.length + durationRun s := by
  have letters {unit : Bytes} (lower : ∀ c ∈ unit, isLowerAlpha c = true) :
      durationRun (unit ++ s) = unit.length + durationRun s := by
    induction unit with
    | nil => simp
    | cons c rest ih =>
      have first : (isDigit c || isLowerAlpha c) = true := by simp [lower c (by simp)]
      rw [List.cons_append, durationRun_plain first, ih fun c member => lower c (by simp [member]),
        List.length_cons]
      omega
  have micro : durationRun ([0xC2, 0xB5, 0x73] ++ s) = 3 + durationRun s := by
    change durationRun (0x73 :: s) + 2 = 3 + durationRun s
    rw [durationRun_plain (by decide)]
    omega
  simp only [durationUnits, List.mem_cons, Prod.mk.injEq, List.not_mem_nil, or_false] at known
  obtain ⟨rfl, -⟩ | ⟨rfl, -⟩ | ⟨rfl, -⟩ | ⟨rfl, -⟩ | ⟨rfl, -⟩ | ⟨rfl, -⟩ | ⟨rfl, -⟩ | ⟨rfl, -⟩ := known
  case inr.inr.inl => exact micro
  case inr.inr.inr.inl => exact absurd rfl plain
  all_goals exact letters (List.all_eq_true.mp (by decide))

theorem durationRun_segment {segment : Segment} (formatted : Formatted segment) (s : Bytes) :
    durationRun (segment.written ++ s) = segment.written.length + durationRun s := by
  have digits := segment.digits
  have fraction : durationRun (Segment.pointed segment.fraction ++ (segment.unit ++ s)) =
      (Segment.pointed segment.fraction).length + durationRun (segment.unit ++ s) := by
    cases found : segment.fraction with
    | none => simp [Segment.pointed]
    | some places =>
      have nonempty : places ≠ [] := fun empty => formatted.fraction (by rw [found, empty])
      obtain ⟨c, rest, rfl⟩ := List.exists_cons_of_ne_nil nonempty
      have all : ∀ d ∈ c :: rest, isDigit d = true := fun d member => digits d (by simp_all)
      have first : isDigit c = true := all c (by simp)
      have run := durationRun_digits all (segment.unit ++ s)
      simp only [Segment.pointed, List.cons_append, List.length_cons] at run ⊢
      rw [durationRun, if_neg (by decide), if_pos (by simp [first]), run]
      omega
  rw [Segment.written_append, durationRun_digits (fun c member => digits c (by simp [member])),
    Segment.afterWhole, fraction, durationRun_unit segment.known formatted.unit, Segment.written]
  simp only [List.length_append]
  omega

theorem durationRun_segments {segments : List Segment}
    (formatted : ∀ segment ∈ segments, Formatted segment) (s : Bytes) :
    durationRun (segmentsWritten segments ++ s) = (segmentsWritten segments).length + durationRun s := by
  induction segments with
  | nil => simp [segmentsWritten]
  | cons segment rest ih =>
    have shape : segmentsWritten (segment :: rest) = segment.written ++ segmentsWritten rest := rfl
    rw [shape, List.append_assoc, durationRun_segment (formatted segment (by simp)),
      ih fun segment member => formatted segment (by simp [member]), List.length_append]
    omega

theorem atDurationUnit_unit {unit : Bytes} {scale : Nat} (known : (unit, scale) ∈ durationUnits)
    (plain : unit ≠ [0xCE, 0xBC, 0x73]) (s : Bytes) : atDurationUnit (unit ++ s) = true := by
  simp only [durationUnits, List.mem_cons, Prod.mk.injEq, List.not_mem_nil, or_false] at known
  obtain ⟨rfl, -⟩ | ⟨rfl, -⟩ | ⟨rfl, -⟩ | ⟨rfl, -⟩ | ⟨rfl, -⟩ | ⟨rfl, -⟩ | ⟨rfl, -⟩ | ⟨rfl, -⟩ := known
  case inr.inr.inr.inl => exact absurd rfl plain
  all_goals rfl

theorem scanMagnitude_segment (neg : Bool) (lead : Bytes) {segment : Segment}
    (formatted : Formatted segment) (rest : Bytes) :
    scanMagnitude neg (lead ++ (segment.written ++ rest)) lead.length =
      scanDuration (lead ++ (segment.written ++ rest))
        (lead.length + segment.whole.length + (Segment.pointed segment.fraction).length) := by
  have unit := atDurationUnit_unit segment.known formatted.unit rest
  have digits := segment.digits
  generalize opens : lead ++ (segment.written ++ rest) = s
  have behind : s.drop lead.length = segment.written ++ rest := by rw [← opens, List.drop_left]
  have after : s.drop (lead.length + segment.whole.length) = segment.afterWhole rest := by
    rw [← List.drop_drop, behind, segment.drop_whole]
  have past : pastDigits s lead.length = lead.length + segment.whole.length := by
    rw [pastDigits, behind, spanLength, segment.takeWhile_whole]
  have next (index : Nat) : peek s (lead.length + segment.whole.length + index) =
      peek (segment.afterWhole rest) index := by
    rw [← after, peek_drop]
  have first := next 0
  rw [Nat.add_zero] at first
  have notDate : peek s (lead.length + segment.whole.length) ≠ 0x2D := by
    rw [first, Segment.afterWhole]
    cases segment.fraction with
    | none =>
      intro minus
      rw [atDurationUnit] at unit
      simp only [Segment.pointed, List.nil_append] at minus
      rw [minus] at unit
      exact absurd unit (by simp [isDurationUnit])
    | some places => simp [Segment.pointed]
  have fraction : pastFraction s (lead.length + segment.whole.length) =
      lead.length + segment.whole.length + (Segment.pointed segment.fraction).length := by
    have point := segment.point_iff rest
    have places := segment.takeWhile_fraction rest
    rw [pastFraction, hasFraction, first, next 1]
    cases found : segment.fraction with
    | none =>
      rw [found] at point
      rw [if_neg (by simp [point])]
      rfl
    | some some_ =>
      have nonempty : some_ ≠ [] := fun empty => formatted.fraction (by rw [found, empty])
      obtain ⟨c, more, rfl⟩ := List.exists_cons_of_ne_nil nonempty
      have digit : isDigit (peek (segment.afterWhole rest) 1) = true := by
        rw [Segment.afterWhole, found]
        exact digits c (by simp [found])
      have pointed : peek (segment.afterWhole rest) 0 = 0x2E := point.mpr (by rw [found]; rfl)
      rw [if_pos pointed, found] at places
      rw [if_pos (by simp [pointed, digit]), pastDigits, ← List.drop_drop, after, spanLength, places]
      simp only [Option.getD_some, Segment.pointed, List.length_cons]
      omega
  have stop : s.drop (lead.length + segment.whole.length + (Segment.pointed segment.fraction).length) =
      segment.unit ++ rest := by
    rw [← List.drop_drop, after, Segment.afterWhole, List.drop_left]
  rw [scanMagnitude]
  simp only [past, fraction, stop, unit, if_true]
  rw [if_neg (by simp [notDate])]

theorem next_duration {l : Lexer} {sign : DurationSign} {segments : List Segment} {more : Bytes}
    (nonempty : segments ≠ []) (formatted : ∀ segment ∈ segments, Formatted segment)
    (signed : sign ≠ .plus)
    (parsed : (parseDuration (sign.written ++ segmentsWritten segments)).isSome = true)
    (opens : l.rest = sign.written ++ segmentsWritten segments ++ more)
    (ends : durationRun more = 0) :
    l.next.1.kind = .duration ∧ l.next.1.value = sign.written ++ segmentsWritten segments ∧
      l.next.2.1.rest = more ∧ l.next.2.2 = [] := by
  obtain ⟨segment, rest, rfl⟩ := List.exists_cons_of_ne_nil nonempty
  have first := formatted segment (by simp)
  have others : ∀ segment ∈ rest, Formatted segment :=
    fun segment member => formatted segment (by simp [member])
  have run := durationRun_segments others more
  obtain ⟨lead, digits, leads⟩ := List.exists_cons_of_ne_nil first.whole
  have digit : isDigit lead = true := segment.digits lead (by simp [leads])
  have shape : segmentsWritten (segment :: rest) = segment.written ++ segmentsWritten rest := rfl
  generalize whole : sign.written ++ segmentsWritten (segment :: rest) = written at parsed opens ⊢
  have number : scan l.tolerant l.maxBytesLiteral (written ++ more) =
      scanMagnitude (sign = .minus) (written ++ more) sign.written.length := by
    rw [← whole, shape, Segment.written, leads]
    cases sign with
    | absent => exact scan_digit digit ..
    | plus => exact absurd rfl signed
    | minus => exact scan_minus digit ..
  have body : written ++ more =
      sign.written ++ (segment.written ++ (segmentsWritten rest ++ more)) := by
    rw [← whole, shape]
    simp
  have width : sign.written.length + segment.whole.length + (Segment.pointed segment.fraction).length +
      durationRun (segment.unit ++ (segmentsWritten rest ++ more)) = written.length := by
    rw [durationRun_unit segment.known first.unit, run, ends, ← whole, shape]
    simp only [List.length_append, Segment.written]
    omega
  have behind : (written ++ more).drop
      (sign.written.length + segment.whole.length + (Segment.pointed segment.fraction).length) =
        segment.unit ++ (segmentsWritten rest ++ more) := by
    rw [body, ← List.drop_drop, ← List.drop_drop, List.drop_left, segment.drop_whole, Segment.afterWhole,
      List.drop_left]
  have token : scan l.tolerant l.maxBytesLiteral (written ++ more) =
      .verbatim .duration (written ++ more) written.length := by
    have magnitude := scanMagnitude_segment (sign = .minus) sign.written first (segmentsWritten rest ++ more)
    rw [← body] at magnitude
    rw [number, magnitude, scanDuration]
    simp only [behind, width, List.take_left]
    exact if_neg (by simpa using Option.isSome_iff_ne_none.mp parsed)
  have start : ∃ c after, written ++ more = c :: after ∧ isSpace c = false := by
    rw [← whole, shape, Segment.written, leads]
    cases sign with
    | absent => exact ⟨_, _, rfl, (digit_apart digit []).1⟩
    | plus => exact absurd rfl signed
    | minus => exact ⟨0x2D, _, rfl, by decide⟩
  obtain ⟨c, after, starts, notSpace⟩ := start
  rw [starts] at opens token
  rw [Lexer.next_scan opens notSpace, token, ← starts]
  refine ⟨rfl, List.take_left, ?_, rfl⟩
  rw [Lexer.rest_advance, opens, ← starts]
  exact List.drop_left

/-- The text of a duration is read back: its total by the parser, and one token by the lexer in front
of what may follow a value. -/
structure DurationReadsBack (seconds nanos : Int) : Prop where
  parsed : ∃ d, parseDuration (formatDuration seconds nanos) = some d ∧
    d.Splits (seconds * 1000000000 + nanos)
  token : ∀ (l : Lexer) (stop : UInt8) (more : Bytes), stop ∈ text "\n,]" →
    l.rest = formatDuration seconds nanos ++ stop :: more →
    l.next.1.kind = .duration ∧ l.next.1.value = formatDuration seconds nanos ∧
      l.next.2.1.rest = stop :: more ∧ l.next.2.2 = []

theorem formatDuration_iff {seconds nanos : Int}
    (fits : fitsInt64 (seconds * 1000000000 + nanos) = true) :
    DurationReadsBack seconds nanos ↔ fitsInt64 (seconds * 1000000000) = true := by
  constructor
  · rintro ⟨⟨d, parsed, -⟩, -⟩
    by_contra large
    have refused : parseDuration (text "<duration overflow>") = none := by decide
    rw [formatDuration, if_pos (by simp [large]), refused] at parsed
    cases parsed
  · intro scaled
    obtain ⟨sign, segments, signed, nonempty, shape, total, formatted⟩ :=
      formatDuration_segments scaled fits
    have parsed := parseDuration_formatted nonempty formatted (total ▸ fits)
    constructor
    · rw [shape, ← total]
      exact ⟨_, parsed, Duration.ofNanos_splits _⟩
    · intro l stop more listed opens
      rw [shape] at opens ⊢
      have ends : durationRun (stop :: more) = 0 := by
        change stop ∈ ([0x0A, 0x2C, 0x5D] : Bytes) at listed
        simp only [List.mem_cons, List.not_mem_nil, or_false] at listed
        obtain rfl | rfl | rfl := listed <;> cases more <;> rfl
      exact next_duration nonempty formatted signed (by rw [parsed]; rfl) opens ends

/-- A duration whose total fits and whose parts have one sign, as those of every valid one have, is
read back from its text. In general it is just when its seconds alone fit in nanoseconds too. -/
theorem formatDuration_readsBack (seconds nanos : Int)
    (fits : fitsInt64 (seconds * 1000000000 + nanos) = true) :
    ((0 ≤ seconds ∧ 0 ≤ nanos) ∨ (seconds ≤ 0 ∧ nanos ≤ 0) → DurationReadsBack seconds nanos) ∧
      (DurationReadsBack seconds nanos ↔ fitsInt64 (seconds * 1000000000) = true) := by
  refine ⟨fun oneSign => (formatDuration_iff fits).mpr ?_, formatDuration_iff fits⟩
  simp only [fitsInt64, Bool.and_eq_true, decide_eq_true_eq] at fits ⊢
  omega

theorem formatDuration_readsBack_least :
    formatDuration (-9223372036) (-854775808) = text "-2562047h47m16.854775808s" ∧
      DurationReadsBack (-9223372036) (-854775808) :=
  ⟨by decide, (formatDuration_readsBack (-9223372036) (-854775808) (by decide)).1 (by decide)⟩

theorem formatDuration_overflows :
    fitsInt64 (-9223372037 * 1000000000 + 200000000) = true ∧
      formatDuration (-9223372037) 200000000 = text "<duration overflow>" ∧
        parseDuration (text "<duration overflow>") = none := by
  decide

def Runs (c : UInt8) : Prop := endsRun c = false ∧ c ≠ 0x2F

theorem timestampRun_append {s : Bytes} (runs : ∀ c ∈ s, Runs c) (more : Bytes) :
    timestampRun (s ++ more) = s.length + timestampRun more := by
  induction s with
  | nil => simp
  | cons c rest ih =>
    obtain ⟨goesOn, notSlash⟩ := runs c (by simp)
    rw [List.cons_append, timestampRun, if_neg (by simp [goesOn]), if_neg (fun slash => notSlash slash.1),
      ih fun c member => runs c (by simp [member]), List.length_cons]
    omega

theorem runs_digit {c : UInt8} (digit : isDigit c = true) : Runs c := by
  have cases := digit_cases digit
  simp only [List.mem_cons, List.not_mem_nil, or_false] at cases
  obtain rfl | rfl | rfl | rfl | rfl | rfl | rfl | rfl | rfl | rfl := cases <;>
    exact ⟨by decide, by decide⟩

theorem next_timestamp {l : Lexer} {t : TimestampText} {more : Bytes} (valid : t.Valid)
    (runs : ∀ c ∈ t.written, Runs c) (opens : l.rest = t.written ++ more) (ends : timestampRun more = 0) :
    l.next.1.kind = .timestamp ∧ l.next.1.value = t.written ∧ l.next.2.1.rest = more ∧
      l.next.2.2 = [] := by
  obtain ⟨y1, y2, y3, y4, year, digit, -⟩ := valid.year.four
  have parsed := parseRFC3339_written valid
  obtain ⟨tail, shape⟩ : ∃ tail, t.written = t.year ++ 0x2D :: tail := ⟨_, rfl⟩
  generalize t.written = written at *
  have past : pastDigits (written ++ more) 0 = 4 := by
    rw [pastDigits, List.drop_zero, spanLength, shape, List.append_assoc,
      takeWhile_digits valid.year.2 (by simp [isDigit]), valid.year.1]
  have dash : peek (written ++ more) 4 = 0x2D := by
    rw [shape, year]
    rfl
  have long : 4 ≤ written.length := by
    rw [shape, List.length_append, valid.year.1]
    omega
  have width : 4 + timestampRun ((written ++ more).drop 4) = written.length := by
    rw [List.drop_append_of_le_length long,
      timestampRun_append (fun c member => runs c (List.mem_of_mem_drop member)), ends, List.length_drop]
    omega
  have starts : ∃ after, written ++ more = y1 :: after := by
    rw [shape, year]
    exact ⟨_, rfl⟩
  obtain ⟨after, starts⟩ := starts
  have token : scan l.tolerant l.maxBytesLiteral (written ++ more) =
      .verbatim .timestamp (written ++ more) written.length := by
    rw [starts, scan_digit digit, ← starts, scanMagnitude]
    simp only [past, dash, Nat.sub_zero, Bool.not_false, decide_true, Bool.and_self, if_true]
    rw [scanTimestamp]
    simp only [width, List.take_left, parsed]
    rfl
  rw [starts] at opens token
  rw [Lexer.next_scan opens (digit_apart digit []).1, token, ← starts]
  refine ⟨rfl, List.take_left, ?_, rfl⟩
  rw [Lexer.rest_advance, opens, ← starts]
  exact List.drop_left

theorem text_runs (t : CivilTime) (nanos : Nat) : ∀ c ∈ (t.text nanos).written, Runs c := by
  have mark {c : UInt8} (listed : c = 0x2D ∨ c = 0x54 ∨ c = 0x3A ∨ c = 0x2E ∨ c = 0x5A) : Runs c := by
    obtain rfl | rfl | rfl | rfl | rfl := listed <;> exact ⟨by decide, by decide⟩
  have digits {width n : Nat} {c : UInt8} (member : c ∈ zeroPadded width n) : Runs c :=
    runs_digit (zeroPadded_digits member)
  have fraction {c : UInt8} (member : c ∈ (t.text nanos).fraction) : Runs c := by
    simp only [CivilTime.text] at member
    split at member
    · cases member
    · obtain point | places := List.mem_cons.mp member
      · exact mark (by simp [point])
      · exact digits places
  intro c member
  simp only [TimestampText.written, List.mem_append, List.mem_cons] at member
  obtain year | dash | month | dash | day | letter | hour | colon | minute | colon | second | places |
    zone := member
  · exact digits year
  · exact mark (by simp [dash])
  · exact digits month
  · exact mark (by simp [dash])
  · exact digits day
  · exact mark (by simp [letter])
  · exact digits hour
  · exact mark (by simp [colon])
  · exact digits minute
  · exact mark (by simp [colon])
  · exact digits second
  · exact fraction places
  · exact mark (by simp [List.mem_singleton.mp zone])

def EndsTimestamp (more : Bytes) : Prop :=
  more = [] ∨ peek more 0 ∈ text " \n\t\r,]\x7d)#" ∨ opensWith (text "//") more = true ∨
    opensWith (text "/*") more = true

theorem EndsTimestamp.run {more : Bytes} (ends : EndsTimestamp more) : timestampRun more = 0 := by
  obtain rfl | ended | line | block := ends
  · rfl
  · have table : ∀ c ∈ text " \n\t\r,]\x7d)#", endsRun c = true :=
      List.all_eq_true.mp (by decide)
    cases more with
    | nil => rfl
    | cons c rest => rw [timestampRun, if_pos (table c ended)]
  · obtain ⟨after, rfl⟩ := List.isPrefixOf_iff_prefix.mp line
    rfl
  · obtain ⟨after, rfl⟩ := List.isPrefixOf_iff_prefix.mp block
    rfl

/-- The text of a time up to the year 9999 is read back, by the parser and as one token. -/
theorem formatRFC3339Nano_readsBack (t : CivilTime) (year : t.date.year ≤ 9999) (nanos : Nat)
    (below : nanos < 10 ^ 9) :
    formatRFC3339Nano t.seconds nanos = (t.text nanos).written ∧
      parseRFC3339 (formatRFC3339Nano t.seconds nanos) = some ⟨t.seconds, nanos⟩ ∧
      ∀ (l : Lexer) (more : Bytes), EndsTimestamp more →
        l.rest = formatRFC3339Nano t.seconds nanos ++ more →
        l.next.1.kind = .timestamp ∧ l.next.1.value = formatRFC3339Nano t.seconds nanos ∧
          l.next.2.1.rest = more ∧ l.next.2.2 = [] := by
  obtain ⟨valid, instant⟩ := t.text_valid year below
  rw [t.formatRFC3339Nano_text below]
  refine ⟨rfl, ?_, fun l more ends opens => ?_⟩
  · rw [parseRFC3339_written valid, instant]
  · exact next_timestamp valid (text_runs t nanos) opens ends.run

theorem formatRFC3339Nano_readsBack_leap :
    formatRFC3339Nano (-62035804801) 500000000 = text "0004-02-29T23:59:59.5Z" ∧
      parseRFC3339 (text "0004-02-29T23:59:59.5Z") = some ⟨-62035804801, 500000000⟩ := by
  let t : CivilTime :=
    ⟨⟨4, 2, 29, by decide, by decide, by decide, by decide⟩, 23, 59, 59, by decide, by decide, by decide⟩
  have seconds : t.seconds = -62035804801 := by decide
  obtain ⟨written, parsed, -⟩ := formatRFC3339Nano_readsBack t (by decide) 500000000 (by decide)
  have shape : (t.text 500000000).written = text "0004-02-29T23:59:59.5Z" := by decide
  rw [written, shape, seconds] at parsed
  rw [seconds, shape] at written
  exact ⟨written, parsed⟩

end Protowire.Pxf
