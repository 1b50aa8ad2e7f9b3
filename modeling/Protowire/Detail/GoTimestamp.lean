import Protowire.Detail.GoTimestampCore
import Protowire.Detail.Rfc3339
import Protowire.Support.Outcome

/-!
The two readers of timestamps take the same texts.
-/

namespace Protowire

open Support

theorem literal_ok_iff {v value rest : Bytes} {c : UInt8} :
    literal v c value = .ok rest ↔ value = c :: rest := by
  rw [literal]
  cases value with
  | nil => simp
  | cons d more =>
    by_cases same : d = c
    · simp [same]
    · simp [same]

theorem getNum_fixed_iff {value rest : Bytes} {n : Nat} :
    getNum value true = some (n, rest) ↔
      ∃ field, Digits 2 field ∧ value = field ++ rest ∧ n = digitsValue 0 field := by
  constructor
  · intro read
    simp only [getNum, Option.ite_none_left_eq_some, if_true] at read
    obtain ⟨first, second, found⟩ := read
    rcases value with _ | ⟨a, _ | ⟨b, more⟩⟩
    · simp at first
    · simp at second
    · obtain ⟨rfl, rfl⟩ := Prod.mk.inj (Option.some.inj found)
      have digitA : isDigit a = true := by simpa using first
      have digitB : isDigit b = true := by
        rw [not_or, not_not] at second
        exact second.2
      exact ⟨[a, b], ⟨rfl, by simp [digitA, digitB]⟩, rfl, by simp [digitsValue]⟩
  · rintro ⟨field, digits, rfl, rfl⟩
    obtain ⟨a, b, rfl, digitA, digitB⟩ := digits.two
    rw [getNum, if_neg (by simp [digitA]), if_neg (by simp [digitB])]
    simp [digitsValue]

theorem getNum_free_iff {value rest : Bytes} {n : Nat} :
    getNum value false = some (n, rest) ↔
      ∃ field, (Digits 2 field ∨ Digits 1 field ∧ isDigit (peek rest 0) = false) ∧ value = field ++ rest ∧
        n = digitsValue 0 field := by
  constructor
  · intro read
    simp only [getNum, Option.ite_none_left_eq_some] at read
    obtain ⟨first, found⟩ := read
    rcases value with _ | ⟨a, more⟩
    · simp at first
    · have digitA : isDigit a = true := by simpa using first
      split at found
      · rename_i stops
        obtain ⟨rfl, rfl⟩ := Prod.mk.inj (Option.some.inj found)
        refine ⟨[a], .inr ⟨⟨rfl, by simp [digitA]⟩, ?_⟩, rfl, by simp [digitsValue]⟩
        cases more with
        | nil => rfl
        | cons b more =>
          obtain short | stops := stops
          · simp only [List.length_cons] at short
            omega
          · simpa using stops
      · rename_i goesOn
        rw [not_or, not_not] at goesOn
        rcases more with _ | ⟨b, more⟩
        · simp at goesOn
        · obtain ⟨rfl, rfl⟩ := Prod.mk.inj (Option.some.inj found)
          exact ⟨[a, b], .inl ⟨rfl, by simpa [digitA] using goesOn.2⟩, rfl, by simp [digitsValue]⟩
  · rintro ⟨field, two | ⟨one, stops⟩, rfl, rfl⟩
    · obtain ⟨a, b, rfl, digitA, digitB⟩ := two.two
      rw [getNum, if_neg (by simp [digitA]), if_neg (by simp [digitB])]
      simp [digitsValue]
    · obtain ⟨a, rfl, digitA⟩ := one.one
      rw [getNum, if_neg (by simp [digitA]), if_pos (by simp [stops])]
      simp [digitsValue]

theorem numberField_ok_iff {v elem value : Bytes} {fixed : Bool} {found : Nat × Bytes} :
    numberField v fixed elem value = .ok found ↔ getNum value fixed = some found := by
  rw [numberField]
  cases getNum value fixed with
  | none => simp
  | some read => simp

theorem pastSeconds_split (value : Bytes) :
    ∃ fraction, value = fraction ++ pastSeconds value ∧ IsFraction fraction := by
  rw [pastSeconds]
  split
  · rename_i marked
    match value, marked with
    | mark :: first :: more, ⟨_, marked, digit⟩ =>
      have digit : isDigit first = true := digit
      refine ⟨mark :: first :: more.takeWhile isDigit, ?_, .digits marked (by simp) ?_⟩
      · rw [Nat.add_comm, List.drop_succ_cons, List.drop_succ_cons, List.drop_succ_cons,
          List.drop_succ_cons, List.drop_zero, drop_spanLength]
        simp
      · intro c member
        obtain rfl | member := List.mem_cons.mp member
        · exact digit
        · exact List.mem_takeWhile_imp member
  · exact ⟨[], rfl, .absent⟩

theorem pastSeconds_fraction {fraction zone : Bytes} (valid : IsFraction fraction) (zoned : IsZone zone) :
    pastSeconds (fraction ++ zone) = zone := by
  obtain ⟨c, rest, opens, notDigit, notPoint, notComma⟩ := zoned.opens
  cases valid with
  | absent =>
    rw [List.nil_append, pastSeconds, if_neg]
    simp [opens, notPoint, notComma]
  | digits marked nonempty all =>
    rename_i mark places
    obtain ⟨first, more, rfl⟩ := List.exists_cons_of_ne_nil nonempty
    have digit : isDigit first = true := all first (by simp)
    have run : (more ++ zone).takeWhile isDigit = more := by
      rw [List.takeWhile_append_of_pos (fun c member => all c (by simp [member])), opens,
        List.takeWhile_cons_of_neg (by simp [notDigit])]
      simp
    rw [pastSeconds, if_pos ⟨by simp, marked, digit⟩]
    simp only [List.cons_append, List.drop_succ_cons, List.drop_zero, spanLength, run, Nat.add_comm 2]
    exact List.drop_left

theorem zoneField_valid (v : Bytes) {zone : Bytes} (valid : IsZone zone) : zoneField v zone = .ok [] := by
  cases valid with
  | utc => rfl
  | offset signed hoursDigits minutesDigits hoursHigh minutesHigh =>
    have hours := getNum_fixed_iff.mpr ⟨_, hoursDigits, (List.append_nil _).symm, rfl⟩
    have minutes := getNum_fixed_iff.mpr ⟨_, minutesDigits, (List.append_nil _).symm, rfl⟩
    obtain ⟨a, b, rfl, -⟩ := hoursDigits.two
    obtain ⟨c, d, rfl, -⟩ := minutesDigits.two
    obtain rfl | rfl := signed
    · simp [zoneField, hours, minutes, Nat.not_lt.mpr hoursHigh, Nat.not_lt.mpr minutesHigh]
    · simp [zoneField, hours, minutes, Nat.not_lt.mpr hoursHigh, Nat.not_lt.mpr minutesHigh]

theorem zoneField_ok {v zone : Bytes} (read : zoneField v zone = .ok []) : IsZone zone := by
  rw [zoneField] at read
  split at read
  · rename_i letter
    rcases zone with _ | ⟨c, rest⟩
    · exact absurd rfl letter.1
    · obtain rfl : c = 0x5A := letter.2
      obtain rfl : rest = [] := Except.ok.inj read
      exact .utc
  split at read
  · cases read
  rename_i shape
  rw [not_or, not_not] at shape
  cases hours : getNum ((zone.drop 1).take 2) true with
  | none =>
    simp only [hours, Option.isSome_none, Option.map_none, Option.getD_none, Bool.false_eq_true,
      false_and, not_false_eq_true, true_or, if_true, Nat.not_lt_zero, if_false] at read
    cases read
  | some hour =>
    cases minutes : getNum ((zone.drop 4).take 2) true with
    | none =>
      simp only [hours, minutes] at read
      split at read <;> cases read
    | some minute =>
      simp only [hours, minutes, Option.isSome_some, if_true, Option.map_some, Option.getD_some,
        and_self, not_true, false_or] at read
      split at read
      · cases read
      split at read
      · cases read
      split at read
      · cases read
      rename_i hoursHigh minutesHigh signed
      -- Six bytes, as none are left behind them.
      have length : zone.length = 6 := by
        have none_ := congrArg List.length (Except.ok.inj read)
        simp only [List.length_drop, List.length_nil] at none_
        omega
      obtain ⟨hoursField, hoursDigits, hoursShape, hoursValue⟩ := getNum_fixed_iff.mp hours
      obtain ⟨minutesField, minutesDigits, minutesShape, minutesValue⟩ := getNum_fixed_iff.mp minutes
      rcases zone with _ | ⟨sign, _ | ⟨a, _ | ⟨b, _ | ⟨colon, _ | ⟨c, _ | ⟨d, _ | ⟨e, rest⟩⟩⟩⟩⟩⟩⟩ <;>
        simp only [List.length_cons, List.length_nil] at length <;> try omega
      obtain rfl : colon = 0x3A := shape.2
      have two {field rest : Bytes} {x y : UInt8} (digits : Digits 2 field)
          (same : [x, y] = field ++ rest) : field = [x, y] := by
        rw [← List.take_left' digits.1, ← same]
        rfl
      have hoursSame : hoursField = [a, b] := two hoursDigits hoursShape
      have minutesSame : minutesField = [c, d] := two minutesDigits minutesShape
      rw [hoursSame] at hoursDigits hoursValue
      rw [minutesSame] at minutesDigits minutesValue
      have sign_ : sign = 0x2B ∨ sign = 0x2D := by
        rw [not_and_or, not_not, not_not] at signed
        exact signed
      exact .offset sign_ hoursDigits minutesDigits (by omega) (by omega)

theorem timestampFault_ok_iff {v : Bytes} :
    timestampFault v = .ok () ↔ ∃ t : TimestampText, t.Valid ∧ v = t.written := by
  simp only [timestampFault, except_bind_ok_iff, except_guard_ok_iff, Prod.exists, literal_ok_iff,
    numberField_ok_iff, getNum_fixed_iff, getNum_free_iff]
  constructor
  · rintro ⟨long, _, dash, month, _, ⟨monthField, monthDigits, rfl, rfl⟩, monthRange, _, dash', day, _,
      ⟨dayField, dayDigits, rfl, rfl⟩, _, mark, hour, _, ⟨hourField, hourDigits, rfl, rfl⟩, hourHigh, _, colon,
      minute, _, ⟨minuteField, minuteDigits, rfl, rfl⟩, minuteHigh, _, colon', second, after,
      ⟨secondField, secondDigits, rfl, rfl⟩, secondHigh, _, zone, last, dayRange⟩
    subst dash' mark colon colon'
    rw [not_or, not_not, Nat.not_lt] at long
    have none_ : _ = [] := List.isEmpty_iff.mp (not_not.mp last)
    rw [none_] at zone
    obtain ⟨fraction, fractionShape, isFraction⟩ := pastSeconds_split after
    have isZone := zoneField_ok zone
    have yearDigits : Digits 4 (v.take 4) :=
      ⟨by rw [List.length_take]; omega, List.all_eq_true.mp long.2⟩
    have monthValid : 1 ≤ digitsValue 0 monthField ∧ digitsValue 0 monthField ≤ 12 := by omega
    have dayValid : 1 ≤ digitsValue 0 dayField ∧
        digitsValue 0 dayField ≤ daysInMonth (digitsValue 0 (v.take 4)) (digitsValue 0 monthField) := by
      by_contra out
      rw [if_pos (by omega)] at dayRange
      cases dayRange
    refine ⟨⟨v.take 4, monthField, dayField, hourField, minuteField, secondField, fraction,
      pastSeconds after⟩, ⟨yearDigits, monthDigits, dayDigits, ?_, minuteDigits, secondDigits, isFraction,
        isZone, ?_, ?_, ?_, ?_, ?_⟩, ?_⟩
    · exact hourDigits.elim .inr fun one => .inl one.1
    · exact monthValid
    · exact dayValid
    · exact Nat.le_of_lt_succ (Nat.lt_of_not_le hourHigh)
    · exact Nat.le_of_lt_succ (Nat.lt_of_not_le minuteHigh)
    · exact Nat.le_of_lt_succ (Nat.lt_of_not_le secondHigh)
    · rw [TimestampText.written, ← fractionShape, ← dash, List.take_append_drop]
  · rintro ⟨t, valid, rfl⟩
    obtain ⟨monthLow, monthHigh⟩ := valid.monthRange
    obtain ⟨dayLow, dayHigh⟩ := valid.dayRange
    have hourHigh := valid.hourHigh
    have minuteHigh := valid.minuteHigh
    have secondHigh := valid.secondHigh
    have year : t.written.take 4 = t.year := List.take_left' valid.year.1
    have after : t.written.drop 4 = _ := List.drop_left' valid.year.1
    have hour : Digits 2 t.hour ∨ Digits 1 t.hour ∧ isDigit 0x3A = false :=
      valid.hour.elim (fun one => .inr ⟨one, by decide⟩) .inl
    have zone := zoneField_valid t.written valid.zone
    rw [year, after]
    refine ⟨?_, _, rfl, _, _, ⟨_, valid.month, rfl, rfl⟩, by omega, _, rfl, _, _, ⟨_, valid.day, rfl, rfl⟩,
      _, rfl, _, _, ⟨_, hour, rfl, rfl⟩, by omega, _, rfl, _, _, ⟨_, valid.minute, rfl, rfl⟩, by omega, _, rfl,
      _, _, ⟨_, valid.second, rfl, rfl⟩, by omega, [], ?_, by simp, ?_⟩
    · rw [not_or, not_not, List.all_eq_true]
      refine ⟨?_, valid.year.2⟩
      rw [TimestampText.written, List.length_append, valid.year.1]
      omega
    · rw [pastSeconds_fraction valid.fraction valid.zone]
      exact zone
    · exact if_neg (by omega)

inductive FaultMessage (v : Bytes) : Bytes → Prop
  | unread (rest elem : Bytes) : FaultMessage v (timeError v rest elem)
  | outside {what : Bytes} (listed : what ∈ [text "month", text "day", text "hour", text "minute",
      text "second", text "time zone offset hour", text "time zone offset minute"]) :
      FaultMessage v (rangeError v what)
  | extra {rest : Bytes} (nonempty : rest ≠ []) :
      FaultMessage v (timeMessage v (text ": extra text: " ++ timeQuote rest))

theorem FaultMessage.ne {v message : Bytes} (fault : FaultMessage v message) : message ≠ notReached v := by
  intro same
  cases fault with
  | unread rest elem =>
    rw [timeError, notReached, timeMessage] at same
    simp only [List.append_assoc, List.append_cancel_left_eq] at same
    have heads : some (0x20 : UInt8) = some 0x3A := congrArg List.head? same
    exact absurd heads (by decide)
  | outside listed =>
    rw [rangeError, notReached, timeMessage, timeMessage, List.append_cancel_left_eq] at same
    simp only [List.mem_cons, List.not_mem_nil, or_false] at listed
    obtain rfl | rfl | rfl | rfl | rfl | rfl | rfl := listed <;> exact absurd same (by decide)
  | extra nonempty =>
    rename_i rest
    have quoted : text ": extra text: \"\"" = text ": extra text: " ++ timeQuote [] := by decide
    rw [notReached, timeMessage, timeMessage, quoted, List.append_cancel_left_eq,
      List.append_cancel_left_eq] at same
    obtain ⟨c, more, rfl⟩ := List.exists_cons_of_ne_nil nonempty
    have some_ : 0 < (timeQuoteByte c).length := by
      rw [timeQuoteByte]
      repeat' split
      all_goals simp
    have lengths := congrArg List.length same
    simp only [timeQuote, List.flatMap_cons, List.flatMap_nil, List.length_cons, List.length_append,
      List.length_nil] at lengths
    omega

theorem literal_raises (v : Bytes) (c : UInt8) (value : Bytes) :
    Raises (FaultMessage v) (literal v c value) := by
  rw [literal]
  split
  · exact raises_ok _
  · exact raises_error (.unread _ _)

theorem numberField_raises (v : Bytes) (fixed : Bool) (elem value : Bytes) :
    Raises (FaultMessage v) (numberField v fixed elem value) := by
  rw [numberField]
  split
  · exact raises_ok _
  · exact raises_error (.unread _ _)

theorem zoneField_raises (v value : Bytes) : Raises (FaultMessage v) (zoneField v value) := by
  rw [zoneField]
  refine .ite (raises_ok _) (.ite (raises_error (.unread _ _)) (.ite (raises_error ?_) (.ite (raises_error ?_)
    (.ite (raises_error (.unread _ _)) (raises_ok _)))))
  · exact .outside (by decide)
  · exact .outside (by decide)

theorem timestampFault_raises (v : Bytes) : Raises (FaultMessage v) (timestampFault v) := by
  have number (fixed : Bool) (elem value : Bytes) := numberField_raises v fixed elem value
  have mark (c : UInt8) (value : Bytes) := literal_raises v c value
  rw [timestampFault]
  refine .guard (.unread _ _) ((mark _ _).bind fun value => (number _ _ _).bind fun month => ?_)
  refine .guard (.outside (by decide)) ((mark _ _).bind fun value => (number _ _ _).bind fun day => ?_)
  refine (mark _ _).bind fun value => (number _ _ _).bind fun hour => ?_
  refine .guard (.outside (by decide)) ((mark _ _).bind fun value => (number _ _ _).bind fun minute => ?_)
  refine .guard (.outside (by decide)) ((mark _ _).bind fun value => (number _ _ _).bind fun second => ?_)
  refine .guard (.outside (by decide)) ((zoneField_raises v _).bind fun value => ?_)
  by_cases empty : value = []
  · rw [if_neg (by simp [empty])]
    exact .ite (raises_error (.outside (by decide))) (raises_ok ())
  · exact .guard (.extra empty) (.ite (raises_error (.outside (by decide))) (raises_ok ()))

/-- A fault is found in just the texts that the parser refuses. -/
theorem goTimestampError_refuses (s : Bytes) :
    parseRFC3339 s = none ↔ goTimestampError s ≠ notReached s := by
  have language : (parseRFC3339 s).isSome = true ↔ timestampFault s = .ok () := by
    rw [timestampFault_ok_iff, Option.isSome_iff_exists]
    constructor
    · rintro ⟨ts, read⟩
      obtain ⟨t, valid, shape, -⟩ := parseRFC3339_some read
      exact ⟨t, valid, shape⟩
    · rintro ⟨t, valid, rfl⟩
      exact ⟨_, parseRFC3339_written valid⟩
  have raised := timestampFault_raises s
  rw [← Option.not_isSome_iff_eq_none, language, goTimestampError]
  cases fault : timestampFault s with
  | error message => simpa using (raised message fault).ne
  | ok _ => simp

end Protowire
