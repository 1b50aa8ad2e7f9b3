import Protowire.Detail.Bytes
import Protowire.Detail.Calendar
import Protowire.Detail.Padded

/-!
The language of timestamps. `ParseRFC3339` looks at fixed offsets; what it accepts is a date, a
clock, a fraction and a zone in that order.
-/

namespace Protowire

open Support

variable {s zone : Bytes} {start : Nat}

def Digits (count : Nat) (s : Bytes) : Prop := s.length = count ∧ ∀ c ∈ s, isDigit c = true

inductive IsFraction : Bytes → Prop
  | absent : IsFraction []
  | digits {mark : UInt8} {places : Bytes} (marked : mark = 0x2E ∨ mark = 0x2C)
      (nonempty : places ≠ []) (all : ∀ c ∈ places, isDigit c = true) : IsFraction (mark :: places)

/-- `Z`, or an offset of hours and minutes to 24:60. -/
inductive IsZone : Bytes → Prop
  | utc : IsZone [0x5A]
  | offset {sign : UInt8} {hours minutes : Bytes} (signed : sign = 0x2B ∨ sign = 0x2D)
      (hoursDigits : Digits 2 hours) (minutesDigits : Digits 2 minutes)
      (hoursHigh : digitsValue 0 hours ≤ 24) (minutesHigh : digitsValue 0 minutes ≤ 60) :
      IsZone (sign :: (hours ++ 0x3A :: minutes))

structure TimestampText where
  year : Bytes
  month : Bytes
  day : Bytes
  hour : Bytes
  minute : Bytes
  second : Bytes
  fraction : Bytes
  zone : Bytes

namespace TimestampText

def written (t : TimestampText) : Bytes :=
  t.year ++ 0x2D :: (t.month ++ 0x2D :: (t.day ++ 0x54 :: (t.hour ++ 0x3A :: (t.minute ++
    0x3A :: (t.second ++ (t.fraction ++ t.zone))))))

structure Valid (t : TimestampText) : Prop where
  year : Digits 4 t.year
  month : Digits 2 t.month
  day : Digits 2 t.day
  hour : Digits 1 t.hour ∨ Digits 2 t.hour
  minute : Digits 2 t.minute
  second : Digits 2 t.second
  fraction : IsFraction t.fraction
  zone : IsZone t.zone
  monthRange : 1 ≤ digitsValue 0 t.month ∧ digitsValue 0 t.month ≤ 12
  dayRange : 1 ≤ digitsValue 0 t.day ∧
    digitsValue 0 t.day ≤ daysInMonth (digitsValue 0 t.year) (digitsValue 0 t.month)
  hourHigh : digitsValue 0 t.hour ≤ 23
  minuteHigh : digitsValue 0 t.minute ≤ 59
  secondHigh : digitsValue 0 t.second ≤ 59

end TimestampText

def fractionNanos : Bytes → Nat
  | [] => 0
  | _ :: places => digitsValue 0 (places.take 9) * 10 ^ (9 - (places.take 9).length)

def zoneSeconds : Bytes → Int
  | sign :: rest =>
    if sign = 0x5A then 0
    else
      let offset : Int := digitsValue 0 (rest.take 2) * 3600 + digitsValue 0 (rest.drop 3) * 60
      if sign = 0x2D then -offset else offset
  | [] => 0

def TimestampText.instant (t : TimestampText) : Timestamp :=
  ⟨daysFromCivil (digitsValue 0 t.year) (digitsValue 0 t.month) (digitsValue 0 t.day) * 86400 +
    digitsValue 0 t.hour * 3600 + digitsValue 0 t.minute * 60 + digitsValue 0 t.second -
      zoneSeconds t.zone,
    fractionNanos t.fraction⟩

theorem Digits.one (digits : Digits 1 s) : ∃ a, s = [a] ∧ isDigit a = true := by
  match s, digits with
  | [a], ⟨_, all⟩ => exact ⟨a, rfl, all a (by simp)⟩

theorem Digits.two (digits : Digits 2 s) :
    ∃ a b, s = [a, b] ∧ isDigit a = true ∧ isDigit b = true := by
  match s, digits with
  | [a, b], ⟨_, all⟩ => exact ⟨a, b, rfl, all a (by simp), all b (by simp)⟩

theorem Digits.four (digits : Digits 4 s) :
    ∃ a b c d, s = [a, b, c, d] ∧ isDigit a = true ∧ isDigit b = true ∧ isDigit c = true ∧
      isDigit d = true := by
  match s, digits with
  | [a, b, c, d], ⟨_, all⟩ =>
    exact ⟨a, b, c, d, rfl, all a (by simp), all b (by simp), all c (by simp), all d (by simp)⟩

theorem peek_append (front rest : Bytes) (index : Nat) :
    peek (front ++ rest) (front.length + index) = peek rest index := by
  rw [← peek_drop, List.drop_left]

theorem parseFraction_append (front rest : Bytes) :
    parseFraction (front ++ rest) front.length =
      ((parseFraction rest 0).1, front.length + (parseFraction rest 0).2) := by
  have drop (index : Nat) : (front ++ rest).drop (front.length + index) = rest.drop index := by
    rw [← List.drop_drop, List.drop_left]
  have first := peek_append front rest 0
  rw [Nat.add_zero] at first
  simp only [parseFraction, first, peek_append, drop, Nat.zero_add]
  split
  · simp only [Nat.add_assoc]
  · rfl

theorem parseZone_append (front rest : Bytes) :
    parseZone (front ++ rest) front.length = parseZone rest 0 := by
  have first := peek_append front rest 0
  rw [Nat.add_zero] at first
  have drop (index : Nat) : (front ++ rest).drop (front.length + index) = rest.drop index := by
    rw [← List.drop_drop, List.drop_left]
  have outside : front.length + rest.length ≤ front.length ↔ rest.length ≤ 0 := by omega
  have last : front.length + 1 = front.length + rest.length ↔ 1 = rest.length := by omega
  have size : front.length + rest.length - front.length = rest.length - 0 := by omega
  simp only [parseZone, parseUInt, first, peek_append, drop, Nat.zero_add, List.length_append, outside,
    last, size]

theorem IsZone.opens (valid : IsZone zone) :
    ∃ c rest, zone = c :: rest ∧ isDigit c = false ∧ c ≠ 0x2E ∧ c ≠ 0x2C := by
  cases valid with
  | utc => exact ⟨_, _, rfl, by decide, by decide, by decide⟩
  | offset signed =>
    obtain rfl | rfl := signed <;> exact ⟨_, _, rfl, by decide, by decide, by decide⟩

theorem parseFraction_valid {fraction : Bytes} (valid : IsFraction fraction) (zoned : IsZone zone) :
    parseFraction (fraction ++ zone) 0 = (fractionNanos fraction, fraction.length) := by
  obtain ⟨c, rest, opens, notDigit, notPoint, notComma⟩ := zoned.opens
  cases valid with
  | absent =>
    rw [List.nil_append, parseFraction, opens]
    simp [notPoint, notComma, fractionNanos]
  | digits marked nonempty all =>
    rename_i mark places
    obtain ⟨first, more, rfl⟩ := List.exists_cons_of_ne_nil nonempty
    have digit : isDigit first = true := all first (by simp)
    have run : ((first :: more) ++ zone).takeWhile isDigit = first :: more := by
      rw [List.takeWhile_append_of_pos all, opens, List.takeWhile_cons_of_neg (by simp [notDigit])]
      simp
    rw [parseFraction, if_pos ⟨marked, digit⟩]
    simp only [List.cons_append, Nat.zero_add, List.drop_succ_cons, List.drop_zero] at run ⊢
    rw [run, fractionNanos, List.length_cons, Nat.add_comm 1]
    rfl

theorem parseZone_valid (valid : IsZone zone) : parseZone zone 0 = some (zoneSeconds zone) := by
  cases valid with
  | utc => decide
  | offset signed hoursDigits minutesDigits hoursHigh minutesHigh =>
    obtain ⟨a, b, rfl, digitA, digitB⟩ := hoursDigits.two
    obtain ⟨c, d, rfl, digitC, digitD⟩ := minutesDigits.two
    have within : ¬(24 < digitsValue 0 [a, b] ∨ 60 < digitsValue 0 [c, d]) := by omega
    obtain rfl | rfl := signed
    · simp [parseZone, parseUInt, zoneSeconds, digitA, digitB, digitC, digitD, within]
    · simp [parseZone, parseUInt, zoneSeconds, digitA, digitB, digitC, digitD, within]

structure Accepts (s : Bytes) (hourDigits year month day hour minute second : Nat) (zone : Int) :
    Prop where
  long : 19 ≤ s.length
  firstDash : peek s 4 = 0x2D
  secondDash : peek s 7 = 0x2D
  mark : peek s 10 = 0x54
  digits : hourDigits = if isDigit (peek s 12) then 2 else 1
  longer : 11 + hourDigits + 1 + 6 ≤ s.length
  firstColon : peek s (11 + hourDigits + 1 - 1) = 0x3A
  secondColon : peek s (11 + hourDigits + 1 + 2) = 0x3A
  yearRead : parseUInt s 0 4 = some year
  monthRead : parseUInt s 5 2 = some month
  dayRead : parseUInt s 8 2 = some day
  hourRead : parseUInt s 11 hourDigits = some hour
  minuteRead : parseUInt s (11 + hourDigits + 1) 2 = some minute
  secondRead : parseUInt s (11 + hourDigits + 1 + 3) 2 = some second
  zoneRead : parseZone s (parseFraction s (11 + hourDigits + 1 + 5)).2 = some zone
  ranges : 1 ≤ month ∧ month ≤ 12 ∧ 1 ≤ day ∧ day ≤ daysInMonth year month ∧ hour ≤ 23 ∧
    minute ≤ 59 ∧ second ≤ 59

theorem parseRFC3339_some_iff {ts : Timestamp} : parseRFC3339 s = some ts ↔
    ∃ hourDigits year month day hour minute second zone,
      Accepts s hourDigits year month day hour minute second zone ∧
      ts = ⟨daysFromCivil year month day * 86400 + hour * 3600 + minute * 60 + second - zone,
        (parseFraction s (11 + hourDigits + 1 + 5)).1⟩ := by
  simp only [parseRFC3339, Option.bind_eq_bind, Option.bind_none, Option.ite_none_left_eq_some,
    Option.bind_eq_some_iff]
  constructor
  · rintro ⟨long, marks, rest, year, yearRead, month, monthRead, day, dayRead, hour, hourRead, minute,
      minuteRead, second, secondRead, zone, zoneRead, ranges, found⟩
    simp only [not_or, Ne, not_not, Nat.not_lt] at marks rest ranges
    obtain ⟨firstDash, secondDash, mark⟩ := marks
    obtain ⟨longer, firstColon, secondColon⟩ := rest
    exact ⟨_, year, month, day, hour, minute, second, zone, ⟨by omega, firstDash, secondDash, mark, rfl,
      longer, firstColon, secondColon, yearRead, monthRead, dayRead, hourRead, minuteRead, secondRead,
      zoneRead, ranges⟩, (Option.some.inj found).symm⟩
  · rintro ⟨hourDigits, year, month, day, hour, minute, second, zone, accepts, rfl⟩
    obtain ⟨long, firstDash, secondDash, mark, rfl, longer, firstColon, secondColon, yearRead, monthRead,
      dayRead, hourRead, minuteRead, secondRead, zoneRead, ranges⟩ := accepts
    simp only [not_or, Ne, not_not, Nat.not_lt]
    exact ⟨long, ⟨firstDash, secondDash, mark⟩, ⟨longer, firstColon, secondColon⟩, year, yearRead, month,
      monthRead, day, dayRead, hour, hourRead, minute, minuteRead, second, secondRead, zone, zoneRead, ranges, rfl⟩
theorem parseUInt_field {field : Bytes} (at_ : (s.drop start).take field.length = field)
    (digits : ∀ c ∈ field, isDigit c = true) :
    parseUInt s start field.length = some (digitsValue 0 field) := by
  rw [parseUInt, at_]
  exact if_pos (List.all_eq_true.mpr digits)

theorem parseRFC3339_written {t : TimestampText} (valid : t.Valid) :
    parseRFC3339 t.written = some t.instant := by
  obtain ⟨year, month, day, hour, minute, second, fraction, zone⟩ := t
  obtain ⟨yearDigits, monthDigits, dayDigits, hourDigits, minuteDigits, secondDigits, isFraction, isZone,
    monthRange, dayRange, hourHigh, minuteHigh, secondHigh⟩ := valid
  simp only at *
  have fractionRead := parseFraction_valid isFraction isZone
  have nonempty : 0 < (fraction ++ zone).length := by
    obtain ⟨c, rest, rfl, -⟩ := isZone.opens
    simp
  have zoneRead (front : Bytes) :
      parseZone (front ++ (fraction ++ zone)) (parseFraction (front ++ (fraction ++ zone)) front.length).2 =
        some (zoneSeconds zone) := by
    rw [parseFraction_append, fractionRead, ← List.append_assoc, ← List.length_append, parseZone_append]
    exact parseZone_valid isZone
  have nanosRead (front : Bytes) :
      (parseFraction (front ++ (fraction ++ zone)) front.length).1 = fractionNanos fraction := by
    rw [parseFraction_append, fractionRead]
  have ranges : 1 ≤ digitsValue 0 month ∧ digitsValue 0 month ≤ 12 ∧ 1 ≤ digitsValue 0 day ∧
      digitsValue 0 day ≤ daysInMonth (digitsValue 0 year) (digitsValue 0 month) ∧
      digitsValue 0 hour ≤ 23 ∧ digitsValue 0 minute ≤ 59 ∧ digitsValue 0 second ≤ 59 :=
    ⟨monthRange.1, monthRange.2, dayRange.1, dayRange.2, hourHigh, minuteHigh, secondHigh⟩
  obtain ⟨y1, y2, y3, y4, rfl, -⟩ := yearDigits.four
  obtain ⟨m1, m2, rfl, -⟩ := monthDigits.two
  obtain ⟨d1, d2, rfl, -⟩ := dayDigits.two
  obtain ⟨i1, i2, rfl, -⟩ := minuteDigits.two
  obtain ⟨s1, s2, rfl, -⟩ := secondDigits.two
  rw [parseRFC3339_some_iff]
  obtain hourDigits | hourDigits := hourDigits
  · obtain ⟨h1, rfl, -⟩ := hourDigits.one
    let front : Bytes :=
      [y1, y2, y3, y4, 0x2D, m1, m2, 0x2D, d1, d2, 0x54, h1, 0x3A, i1, i2, 0x3A, s1, s2]
    have length : (front ++ (fraction ++ zone)).length = 18 + (fraction ++ zone).length :=
      List.length_append
    refine ⟨1, _, _, _, _, _, _, _, ⟨?_, rfl, rfl, rfl, rfl, ?_, rfl, rfl,
      parseUInt_field rfl yearDigits.2, parseUInt_field rfl monthDigits.2,
      parseUInt_field rfl dayDigits.2, parseUInt_field rfl hourDigits.2,
      parseUInt_field rfl minuteDigits.2, parseUInt_field rfl secondDigits.2, zoneRead front, ranges⟩, ?_⟩
    · exact length ▸ (by omega)
    · exact length ▸ (by omega)
    · exact congrArg (Timestamp.mk _) (nanosRead front).symm
  · obtain ⟨h1, h2, rfl, -, digit⟩ := hourDigits.two
    let front : Bytes :=
      [y1, y2, y3, y4, 0x2D, m1, m2, 0x2D, d1, d2, 0x54, h1, h2, 0x3A, i1, i2, 0x3A, s1, s2]
    have length : (front ++ (fraction ++ zone)).length = 19 + (fraction ++ zone).length :=
      List.length_append
    refine ⟨2, _, _, _, _, _, _, _, ⟨?_, rfl, rfl, rfl, (if_pos digit).symm, ?_, rfl, rfl,
      parseUInt_field rfl yearDigits.2, parseUInt_field rfl monthDigits.2,
      parseUInt_field rfl dayDigits.2, parseUInt_field rfl hourDigits.2,
      parseUInt_field rfl minuteDigits.2, parseUInt_field rfl secondDigits.2, zoneRead front, ranges⟩, ?_⟩
    · exact length ▸ (by omega)
    · exact length ▸ (by omega)
    · exact congrArg (Timestamp.mk _) (nanosRead front).symm

theorem parseUInt_some {length value : Nat} (read : parseUInt s start length = some value)
    (inside : start + length ≤ s.length) :
    Digits length ((s.drop start).take length) ∧ value = digitsValue 0 ((s.drop start).take length) := by
  rw [parseUInt, Option.ite_none_right_eq_some] at read
  obtain ⟨digits, found⟩ := read
  refine ⟨⟨?_, List.all_eq_true.mp digits⟩, (Option.some.inj found).symm⟩
  rw [List.length_take, List.length_drop]
  omega

theorem drop_field (s : Bytes) (start length : Nat) :
    s.drop start = (s.drop start).take length ++ s.drop (start + length) := by
  rw [← List.drop_drop, List.take_append_drop]

theorem drop_mark {mark : UInt8} (inside : start < s.length) (marked : peek s start = mark) :
    s.drop start = mark :: s.drop (start + 1) := by
  rw [List.drop_eq_getElem_cons inside, ← marked]
  simp [peek, inside]

theorem parseFraction_split (s : Bytes) :
    ∃ fraction rest, s = fraction ++ rest ∧ IsFraction fraction ∧
      parseFraction s 0 = (fractionNanos fraction, fraction.length) := by
  rw [parseFraction]
  split
  · rename_i marked
    match s, marked with
    | mark :: first :: more, ⟨marked, digit⟩ =>
      simp only [Nat.zero_add, List.drop_succ_cons, List.drop_zero, peek_succ, peek_zero] at marked digit ⊢
      refine ⟨mark :: (first :: more).takeWhile isDigit, (first :: more).dropWhile isDigit, ?_, ?_, ?_⟩
      · rw [List.cons_append, List.takeWhile_append_dropWhile]
      · refine .digits marked ?_ fun c member => List.mem_takeWhile_imp member
        simp [digit]
      · rw [fractionNanos, List.length_cons, Nat.add_comm 1]
  · exact ⟨[], s, rfl, .absent, rfl⟩

theorem parseZone_some {east : Int} (read : parseZone zone 0 = some east) :
    IsZone zone ∧ east = zoneSeconds zone := by
  have valid : IsZone zone := by
    unfold parseZone at read
    simp only [Option.ite_none_left_eq_some] at read
    obtain ⟨some_, read⟩ := read
    split at read
    · rename_i utc
      obtain ⟨last, -⟩ := Option.ite_none_right_eq_some.mp read
      match zone, last, utc with
      | [c], _, utc =>
        obtain rfl : c = 0x5A := utc
        exact .utc
    · simp only [Option.ite_none_right_eq_some, Option.bind_eq_bind, Option.bind_none,
        Option.bind_eq_some_iff, Option.ite_none_left_eq_some, not_or, Ne, not_not] at read
      obtain ⟨sign, ⟨length, colon⟩, hours, hoursRead, minutes, minutesRead, range, -⟩ := read
      obtain ⟨hoursDigits, rfl⟩ := parseUInt_some hoursRead (by omega)
      obtain ⟨minutesDigits, rfl⟩ := parseUInt_some minutesRead (by omega)
      match zone, length, colon with
      | [mark, a, b, c, d, e], _, colon =>
        obtain rfl : c = 0x3A := colon
        exact .offset sign hoursDigits minutesDigits (Nat.le_of_not_lt range.1)
          (Nat.le_of_not_lt range.2)
  rw [parseZone_valid valid] at read
  exact ⟨valid, (Option.some.inj read).symm⟩

theorem parseRFC3339_some {ts : Timestamp} (read : parseRFC3339 s = some ts) :
    ∃ t : TimestampText, t.Valid ∧ s = t.written ∧ ts = t.instant := by
  suffices found : ∃ t : TimestampText, t.Valid ∧ s = t.written by
    obtain ⟨t, valid, rfl⟩ := found
    rw [parseRFC3339_written valid] at read
    exact ⟨t, valid, rfl, (Option.some.inj read).symm⟩
  obtain ⟨hourDigits, year, month, day, hour, minute, second, zone, accepts, -⟩ :=
    parseRFC3339_some_iff.mp read
  obtain ⟨long, firstDash, secondDash, mark, hourLength, longer, firstColon, secondColon, yearRead,
    monthRead, dayRead, hourRead, minuteRead, secondRead, zoneRead, ranges⟩ := accepts
  have oneOrTwo : hourDigits = 1 ∨ hourDigits = 2 := by
    rw [hourLength]
    split
    · exact .inr rfl
    · exact .inl rfl
  obtain ⟨yearDigits, rfl⟩ := parseUInt_some yearRead (by omega)
  obtain ⟨monthDigits, rfl⟩ := parseUInt_some monthRead (by omega)
  obtain ⟨dayDigits, rfl⟩ := parseUInt_some dayRead (by omega)
  obtain ⟨hourDigit, rfl⟩ := parseUInt_some hourRead (by omega)
  obtain ⟨minuteDigits, rfl⟩ := parseUInt_some minuteRead (by omega)
  obtain ⟨secondDigits, rfl⟩ := parseUInt_some secondRead (by omega)
  obtain ⟨fraction, rest, split, isFraction, fractionRead⟩ :=
    parseFraction_split (s.drop (11 + hourDigits + 1 + 5))
  have isZone : IsZone rest := by
    have front : s = s.take (11 + hourDigits + 1 + 5) ++ (fraction ++ rest) := by
      rw [← split, List.take_append_drop]
    have length : (s.take (11 + hourDigits + 1 + 5)).length = 11 + hourDigits + 1 + 5 := by
      rw [List.length_take]
      omega
    generalize s.take (11 + hourDigits + 1 + 5) = lead at front length
    rw [← length, front, parseFraction_append, ← split, fractionRead, split, ← List.append_assoc,
      ← List.length_append, parseZone_append] at zoneRead
    exact (parseZone_some zoneRead).1
  refine ⟨⟨(s.drop 0).take 4, (s.drop 5).take 2, (s.drop 8).take 2, (s.drop 11).take hourDigits,
    (s.drop (11 + hourDigits + 1)).take 2, (s.drop (11 + hourDigits + 1 + 3)).take 2, fraction, rest⟩,
    ⟨yearDigits, monthDigits, dayDigits, ?_, minuteDigits, secondDigits, isFraction, isZone,
      ⟨ranges.1, ranges.2.1⟩, ⟨ranges.2.2.1, ranges.2.2.2.1⟩, ranges.2.2.2.2.1, ranges.2.2.2.2.2.1,
      ranges.2.2.2.2.2.2⟩, ?_⟩
  · obtain rfl | rfl := oneOrTwo
    · exact .inl hourDigit
    · exact .inr hourDigit
  · have yearEnd : s = (s.drop 0).take 4 ++ s.drop 4 := drop_field s 0 4
    have monthEnd : s.drop 5 = (s.drop 5).take 2 ++ s.drop 7 := drop_field s 5 2
    have dayEnd : s.drop 8 = (s.drop 8).take 2 ++ s.drop 10 := drop_field s 8 2
    have hourEnd := drop_field s 11 hourDigits
    have minuteEnd := drop_field s (11 + hourDigits + 1) 2
    have secondEnd : s.drop (11 + hourDigits + 1 + 2 + 1) =
        (s.drop (11 + hourDigits + 1 + 3)).take 2 ++ s.drop (11 + hourDigits + 1 + 5) :=
      drop_field s (11 + hourDigits + 1 + 3) 2
    rw [Nat.add_sub_cancel] at firstColon
    have atMonth : s.drop 4 = 0x2D :: ((s.drop 5).take 2 ++ s.drop 7) := by
      rw [drop_mark (by omega) firstDash, ← monthEnd]
    have atDay : s.drop 7 = 0x2D :: ((s.drop 8).take 2 ++ s.drop 10) := by
      rw [drop_mark (by omega) secondDash, ← dayEnd]
    have atHour : s.drop 10 = 0x54 :: ((s.drop 11).take hourDigits ++ s.drop (11 + hourDigits)) := by
      rw [drop_mark (by omega) mark, ← hourEnd]
    have atMinute : s.drop (11 + hourDigits) =
        0x3A :: ((s.drop (11 + hourDigits + 1)).take 2 ++ s.drop (11 + hourDigits + 1 + 2)) := by
      rw [drop_mark (by omega) firstColon, ← minuteEnd]
    have atSecond : s.drop (11 + hourDigits + 1 + 2) =
        0x3A :: ((s.drop (11 + hourDigits + 1 + 3)).take 2 ++ (fraction ++ rest)) := by
      rw [← split, ← secondEnd]
      exact drop_mark (by omega) secondColon
    calc s = (s.drop 0).take 4 ++ s.drop 4 := yearEnd
      _ = _ := by
          rw [atMonth, atDay, atHour, atMinute, atSecond]
          rfl

theorem daysInMonth_eq (year : Nat) {month : Nat} (low : 1 ≤ month) (high : month ≤ 12) :
    daysInMonth year month = monthLength year month := by
  have leap : leapDay year = if year % 4 = 0 ∧ (year % 100 ≠ 0 ∨ year % 400 = 0) then 1 else 0 := by
    simp [leapDay, isLeap]
  obtain rfl | rfl | rfl | rfl | rfl | rfl | rfl | rfl | rfl | rfl | rfl | rfl :
      month = 1 ∨ month = 2 ∨ month = 3 ∨ month = 4 ∨ month = 5 ∨ month = 6 ∨ month = 7 ∨ month = 8 ∨
        month = 9 ∨ month = 10 ∨ month = 11 ∨ month = 12 := by omega
  case inr.inl => simp [daysInMonth, monthLength, leap]
  all_goals simp [daysInMonth, monthLength]

theorem trimZeros_spec {width n : Nat} (positive : 0 < n) (below : n < 10 ^ width) :
    ∃ kept m : Nat, trimZeros width n = (kept, (m : Int)) ∧ 0 < kept ∧ kept ≤ width ∧ m < 10 ^ kept ∧
      m * 10 ^ (width - kept) = n := by
  induction width generalizing n with
  | zero => omega
  | succ width ih =>
    have quotient : (n : Int).tdiv 10 = ((n / 10 : Nat) : Int) := rfl
    rw [trimZeros]
    by_cases zero : (n : Int).tmod 10 = 0
    · have even : n % 10 = 0 := Int.ofNat.inj zero
      rw [if_pos zero, quotient]
      obtain ⟨kept, m, trimmed, some_, narrow, small, value⟩ :=
        ih (show 0 < n / 10 by omega) (show n / 10 < 10 ^ width by rw [Nat.pow_succ] at below; omega)
      refine ⟨kept, m, trimmed, some_, by omega, small, ?_⟩
      rw [Nat.succ_sub narrow, Nat.pow_succ, ← Nat.mul_assoc, value]
      omega
    · rw [if_neg zero]
      exact ⟨width + 1, n, rfl, by omega, Nat.le_refl _, below, by simp⟩

structure CivilTime where
  date : Date
  hour : Nat
  minute : Nat
  second : Nat
  hourHigh : hour < 24
  minuteHigh : minute < 60
  secondHigh : second < 60

namespace CivilTime

def seconds (t : CivilTime) : Int :=
  ((t.date.number : Int) - 719528) * 86400 + (t.hour * 3600 + t.minute * 60 + t.second : Nat)

def text (t : CivilTime) (nanos : Nat) : TimestampText where
  year := zeroPadded 4 t.date.year
  month := zeroPadded 2 t.date.month
  day := zeroPadded 2 t.date.day
  hour := zeroPadded 2 t.hour
  minute := zeroPadded 2 t.minute
  second := zeroPadded 2 t.second
  fraction :=
    if nanos = 0 then []
    else 0x2E :: zeroPadded (trimZeros 9 nanos).1 (trimZeros 9 nanos).2.natAbs
  zone := [0x5A]

theorem day_le (t : CivilTime) : t.date.day ≤ 31 := by
  have high := t.date.dayHigh
  rw [monthLength] at high
  have leap : leapDay t.date.year ≤ 1 := by
    rw [leapDay]
    split <;> decide
  split at high
  · omega
  · split at high <;> omega

theorem text_valid (t : CivilTime) (year : t.date.year ≤ 9999) {nanos : Nat} (below : nanos < 10 ^ 9) :
    (t.text nanos).Valid ∧ (t.text nanos).instant = ⟨t.seconds, nanos⟩ := by
  have padded {width n : Nat} (positive : 0 < width) (below : n < 10 ^ width) :
      Digits width (zeroPadded width n) :=
    ⟨zeroPadded_length below positive, fun c member => zeroPadded_digits member⟩
  have monthLow := t.date.monthLow
  have monthHigh := t.date.monthHigh
  have dayLow := t.date.dayLow
  have dayHigh := t.date.dayHigh
  have day := t.day_le
  have hourHigh := t.hourHigh
  have minuteHigh := t.minuteHigh
  have secondHigh := t.secondHigh
  have fraction : IsFraction (t.text nanos).fraction ∧ fractionNanos (t.text nanos).fraction = nanos := by
    by_cases zero : nanos = 0
    · simp only [text, if_pos zero]
      exact ⟨.absent, zero.symm⟩
    · obtain ⟨kept, m, trimmed, some_, narrow, small, value⟩ := trimZeros_spec (by omega) below
      simp only [text, if_neg zero, trimmed, Int.natAbs_natCast]
      have length := zeroPadded_length small some_
      refine ⟨.digits (.inl rfl) ?_ fun c member => zeroPadded_digits member, ?_⟩
      · rw [← List.length_pos_iff, length]
        exact some_
      · rw [fractionNanos, List.take_of_length_le (by omega), length, digitsValue_zeroPadded, value]
  refine ⟨⟨padded (by decide) (by omega), padded (by decide) (by omega), padded (by decide) (by omega),
    .inr (padded (by decide) (by omega)), padded (by decide) (by omega), padded (by decide) (by omega),
    fraction.1, .utc, ?_, ?_, ?_, ?_, ?_⟩, ?_⟩
  · simp only [text, digitsValue_zeroPadded]
    exact ⟨monthLow, monthHigh⟩
  · simp only [text, digitsValue_zeroPadded, daysInMonth_eq _ monthLow monthHigh]
    exact ⟨dayLow, dayHigh⟩
  · simp only [text, digitsValue_zeroPadded]
    omega
  · simp only [text, digitsValue_zeroPadded]
    omega
  · simp only [text, digitsValue_zeroPadded]
    omega
  · have date := daysFromCivil_number t.date
    rw [TimestampText.instant, fraction.2]
    simp only [text, digitsValue_zeroPadded, date, seconds, zoneSeconds, if_true, Timestamp.mk.injEq,
      and_true]
    omega

theorem formatRFC3339Nano_text (t : CivilTime) {nanos : Nat} (below : nanos < 10 ^ 9) :
    formatRFC3339Nano t.seconds nanos = (t.text nanos).written := by
  have hourHigh := t.hourHigh
  have minuteHigh := t.minuteHigh
  have secondHigh := t.secondHigh
  generalize clock : t.hour * 3600 + t.minute * 60 + t.second = tod
  have seconds : t.seconds = ((t.date.number : Int) - 719528) * 86400 + tod := by
    rw [CivilTime.seconds, clock]
  have days : t.seconds.fdiv 86400 = (t.date.number : Int) - 719528 := by
    rw [Int.fdiv_eq_ediv_of_nonneg _ (by decide)]
    omega
  have rest : (t.seconds.fmod 86400).toNat = tod := by
    rw [Int.fmod_eq_emod_of_nonneg _ (by decide)]
    omega
  have date : civilFromDays ((t.date.number : Int) - 719528) =
      ((t.date.year : Int), t.date.month, t.date.day) := by
    obtain ⟨found, civil, number⟩ :=
      civilFromDays_date (show 0 ≤ (t.date.number : Int) - 719528 + 719528 by omega)
    rw [civil, Date.number_injective (show found.number = t.date.number by omega)]
  have hour : tod / 3600 = t.hour := by omega
  have minute : tod / 60 % 60 = t.minute := by omega
  have second : tod % 60 = t.second := by omega
  have unsigned {width n : Nat} : signedPadded width n = zeroPadded width n := by
    rw [signedPadded, if_neg (by omega), Int.natAbs_natCast]
  have fraction : (if (nanos : Int) = 0 then []
      else Protowire.text "." ++ signedPadded (trimZeros 9 nanos).1 (trimZeros 9 nanos).2) =
        (t.text nanos).fraction := by
    by_cases zero : nanos = 0
    · simp only [text, zero, Nat.cast_zero, if_true]
    · obtain ⟨kept, m, trimmed, -⟩ := trimZeros_spec (by omega) below
      simp only [text, if_neg zero, trimmed, unsigned, Int.natAbs_natCast]
      rw [if_neg (by omega)]
      rfl
  simp only [formatRFC3339Nano, days, rest, date, hour, minute, second, unsigned, fraction]
  simp only [List.append_assoc]
  rfl

end CivilTime

end Protowire
