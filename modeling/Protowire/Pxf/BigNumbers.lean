import Mathlib.Data.Nat.Digits.Defs
import Protowire.Detail.Decimal
import Protowire.Pxf.Decoder

/-!
The digit limit over whole decodes. The digits of a literal are counted by one scan of its text
and its value is read by another, so the two are compared here: a literal whose counted digits
are within the limit stands for a number of no more digits. The scale of a `pxf.Decimal` is
counted by neither; it is the length of the literal's fraction, leading zeros included.
-/

namespace Protowire

namespace Pxf

def endsDigits (c : UInt8) : Prop := c = 0x65 ∨ c = 0x45 ∨ c = 0x70

theorem not_endsDigits_of_isDigit {c : UInt8} (digit : isDigit c) : ¬endsDigits c := by
  rintro (rfl | rfl | rfl) <;> exact absurd digit (by decide)

theorem countLiteralDigitsFrom_cons (leading : Bool) (c : UInt8) (rest : Bytes)
    (digit : isDigit c) :
    countLiteralDigitsFrom leading (c :: rest) =
      if leading && c = 0x30 then countLiteralDigitsFrom leading rest
      else countLiteralDigitsFrom false rest + 1 := by
  have here : ¬(c = 0x65 ∨ c = 0x45 ∨ c = 0x70) := not_endsDigits_of_isDigit digit
  simp only [countLiteralDigitsFrom, if_neg here, digit, Bool.not_true, Bool.false_or]

theorem countLiteralDigitsFrom_filter (leading : Bool) (s : Bytes)
    (plain : ∀ c ∈ s, ¬endsDigits c) :
    countLiteralDigitsFrom leading s = countLiteralDigitsFrom leading (s.filter isDigit) := by
  induction s generalizing leading with
  | nil => rfl
  | cons c rest ih =>
    have here : ¬(c = 0x65 ∨ c = 0x45 ∨ c = 0x70) := plain c (by simp)
    have later := ih
    specialize later false fun d found => plain d (by simp [found])
    cases digit : isDigit c with
    | false =>
      rw [List.filter_cons_of_neg (by simp [digit])]
      simp only [countLiteralDigitsFrom, if_neg here, digit, Bool.not_false, Bool.true_or,
        if_true]
      exact ih leading fun d found => plain d (by simp [found])
    | true =>
      rw [List.filter_cons_of_pos digit]
      rw [countLiteralDigitsFrom_cons _ _ _ digit, countLiteralDigitsFrom_cons _ _ _ digit]
      split
      · exact ih leading fun d found => plain d (by simp [found])
      · rw [later]

theorem digitsValue_lt (leading : Bool) (s : Bytes) (accumulated : Nat)
    (digits : s.all isDigit) (zero : leading = true → accumulated = 0) :
    digitsValue accumulated s < (accumulated + 1) * 10 ^ countLiteralDigitsFrom leading s := by
  induction s generalizing leading accumulated with
  | nil =>
    have nothing : countLiteralDigitsFrom leading [] = 0 := rfl
    rw [nothing, pow_zero]
    exact Nat.lt_of_lt_of_eq (Nat.lt_succ_self accumulated) (Nat.mul_one _).symm
  | cons c rest ih =>
    simp only [List.all_cons, Bool.and_eq_true] at digits
    have small := digitValue_le c digits.1
    have counted := countLiteralDigitsFrom_cons leading c rest digits.1
    generalize countLiteralDigitsFrom leading (c :: rest) = count at counted ⊢
    by_cases leads : leading && c = 0x30
    · rw [if_pos leads] at counted
      simp only [Bool.and_eq_true, decide_eq_true_eq] at leads
      have start := zero leads.1
      have nothing : digitValue c = 0 := by rw [leads.2]; decide
      have same : digitsValue accumulated (c :: rest) = digitsValue 0 rest := by
        rw [digitsValue_cons, start, nothing]
      have bound := ih leading 0 digits.2 fun _ => rfl
      calc digitsValue accumulated (c :: rest) = digitsValue 0 rest := same
        _ < (0 + 1) * 10 ^ countLiteralDigitsFrom leading rest := bound
        _ = (accumulated + 1) * 10 ^ count := by rw [counted, start]
    · rw [if_neg leads] at counted
      have bound := ih false (accumulated * 10 + digitValue c) digits.2 (by simp)
      generalize countLiteralDigitsFrom false rest = later at bound counted
      calc digitsValue (accumulated * 10 + digitValue c) rest
          < (accumulated * 10 + digitValue c + 1) * 10 ^ later := bound
        _ ≤ ((accumulated + 1) * 10) * 10 ^ later := Nat.mul_le_mul_right _ (by omega)
        _ = (accumulated + 1) * 10 ^ count := by
            rw [counted, pow_succ, Nat.mul_assoc, Nat.mul_comm 10]

theorem digitsValue_filter_lt (s : Bytes) (plain : ∀ c ∈ s, ¬endsDigits c) :
    digitsValue 0 (s.filter isDigit) < 10 ^ countLiteralDigits s := by
  have bound := digitsValue_lt true (s.filter isDigit) 0 (by simp) fun _ => rfl
  rwa [← countLiteralDigitsFrom_filter true s plain, zero_add, one_mul] at bound

def digitCount (n : Nat) : Nat := (decimal n).length

theorem digitCount_le {n limit count : Nat} (value : n < 10 ^ count) (within : count ≤ limit)
    (positive : 0 < limit) : digitCount n ≤ limit := by
  have below : n < 10 ^ limit := lt_of_lt_of_le value (Nat.pow_le_pow_right (by omega) within)
  simpa [digitCount, decimal] using Nat.toDigits_length 10 n limit positive below

theorem splitSign_cases (s : Bytes) :
    s = (Pb.splitSign s).2 ∨ ∃ sign, (sign = 0x2D ∨ sign = 0x2B) ∧
      s = sign :: (Pb.splitSign s).2 := by
  cases s with
  | nil => exact .inl rfl
  | cons c rest =>
    by_cases minus : c = 0x2D
    · exact .inr ⟨c, .inl minus, by simp [Pb.splitSign, peek, minus]⟩
    · by_cases plus : c = 0x2B
      · exact .inr ⟨c, .inr plus, by simp [Pb.splitSign, peek, plus]⟩
      · exact .inl (by simp [Pb.splitSign, peek, minus, plus])

theorem splitSign_plain {s : Bytes} (plain : ∀ c ∈ (Pb.splitSign s).2, ¬endsDigits c) :
    (∀ c ∈ s, ¬endsDigits c) ∧ s.filter isDigit = (Pb.splitSign s).2.filter isDigit := by
  obtain same | ⟨sign, which, split⟩ := splitSign_cases s
  · rw [← same] at plain ⊢
    exact ⟨plain, rfl⟩
  · have harmless : ¬endsDigits sign ∧ isDigit sign = false := by
      obtain rfl | rfl := which <;> exact ⟨by simp [endsDigits], by decide⟩
    refine ⟨fun c found => ?_, ?_⟩
    · rw [split] at found
      obtain rfl | later := List.mem_cons.mp found
      · exact harmless.1
      · exact plain c later
    · generalize (Pb.splitSign s).2 = unsigned at split
      rw [split, List.filter_cons_of_neg (by simp [harmless.2])]

theorem parseDigits_eq_some {mag value : Nat} {s : Bytes} (read : Pb.parseDigits mag s = some value) :
    s.all isDigit = true ∧ value = digitsValue mag s := by
  simp only [Pb.parseDigits] at read
  split at read
  · rename_i digits
    exact ⟨digits, (Option.some.inj read).symm⟩
  · cases read

theorem plain_of_digits {s : Bytes} (digits : s.all isDigit = true) : ∀ c ∈ s, ¬endsDigits c :=
  fun c found => not_endsDigits_of_isDigit (List.all_eq_true.mp digits c found)

theorem parseBigInt_lt {s : Bytes} {n : Pb.BigInt} (read : Pb.parseBigInt s = some n) :
    n.abs < 10 ^ countLiteralDigits s := by
  simp only [Pb.parseBigInt] at read
  split at read
  · cases read
  · obtain ⟨abs, digits, made⟩ := Option.map_eq_some_iff.mp read
    obtain ⟨all, value⟩ := parseDigits_eq_some digits
    obtain ⟨plain, same⟩ := splitSign_plain (plain_of_digits all)
    have bound := digitsValue_filter_lt s plain
    rw [same, List.filter_eq_self.mpr (List.all_eq_true.mp all), ← value] at bound
    rwa [← made]

theorem wholePart_fractionPart (s : Bytes) :
    s = Pb.wholePart s ++ Pb.fractionPart s ∨
      s = Pb.wholePart s ++ 0x2E :: Pb.fractionPart s := by
  have split : Pb.wholePart s ++ s.dropWhile (· ≠ 0x2E) = s := List.takeWhile_append_dropWhile
  cases rest : s.dropWhile (· ≠ 0x2E) with
  | nil =>
    left
    rw [rest] at split
    simp only [Pb.fractionPart, rest, List.drop_nil]
    exact split.symm
  | cons c fraction =>
    right
    have point : c = 0x2E := by
      have stopped := List.head?_dropWhile_not (fun c : UInt8 => decide (c ≠ 0x2E)) s
      rw [rest] at stopped
      simpa using stopped
    rw [rest, point] at split
    simp only [Pb.fractionPart, rest, List.drop_succ_cons, List.drop_zero]
    exact split.symm

theorem parseDecimal_lt {s : Bytes} {n : Pb.Decimal} (read : Pb.parseDecimal s = some n) :
    n.unscaled < 10 ^ countLiteralDigits s ∧
      n.scale = (Pb.fractionPart (Pb.splitSign s).2).length := by
  simp only [Pb.parseDecimal] at read
  split at read
  · cases read
  · obtain ⟨mag, whole, read⟩ := Option.bind_eq_some_iff.mp read
    obtain ⟨unscaled, fraction, made⟩ := Option.bind_eq_some_iff.mp read
    obtain ⟨wholeDigits, rfl⟩ := parseDigits_eq_some whole
    obtain ⟨fractionDigits, rfl⟩ := parseDigits_eq_some fraction
    obtain rfl := Option.some.inj made
    refine ⟨?_, rfl⟩
    generalize unsigned : (Pb.splitSign s).2 = u at wholeDigits fractionDigits
    have digits : u.filter isDigit = Pb.wholePart u ++ Pb.fractionPart u := by
      have wholeKept := List.filter_eq_self.mpr (List.all_eq_true.mp wholeDigits)
      have fractionKept := List.filter_eq_self.mpr (List.all_eq_true.mp fractionDigits)
      obtain split | split := wholePart_fractionPart u
      · conv_lhs => rw [split]
        rw [List.filter_append, wholeKept, fractionKept]
      · conv_lhs => rw [split]
        rw [List.filter_append, List.filter_cons_of_neg (by decide), wholeKept, fractionKept]
    have plain : ∀ c ∈ u, ¬endsDigits c := by
      intro c found
      obtain split | split := wholePart_fractionPart u <;> rw [split] at found
      · obtain found | found := List.mem_append.mp found
        · exact plain_of_digits wholeDigits c found
        · exact plain_of_digits fractionDigits c found
      · obtain found | found := List.mem_append.mp found
        · exact plain_of_digits wholeDigits c found
        · obtain rfl | found := List.mem_cons.mp found
          · simp [endsDigits]
          · exact plain_of_digits fractionDigits c found
    obtain ⟨all, same⟩ := @splitSign_plain s (by rwa [unsigned])
    have bound := digitsValue_filter_lt s all
    rwa [same, unsigned, digits, digitsValue_append] at bound

def fractionDigits (literal : Bytes) : Nat := (Pb.fractionPart (Pb.splitSign literal).2).length

def Event.MagnitudeWithin (limit : Nat) : Event → Prop
  | .bigInt _ n => digitCount n.abs ≤ limit
  | .decimal _ n => digitCount n.unscaled ≤ limit
  | _ => True

def Event.ScaleWithin (limit : Nat) : Event → Prop
  | .decimal _ n => n.scale.natAbs ≤ limit
  | _ => True

def Event.FractionWithin (limit : Nat) : Event → Prop
  | .decimal literal _ => fractionDigits literal ≤ limit
  | _ => True

def Event.Checked (limit : Nat) (event : Event) : Prop :=
  event.MagnitudeWithin limit ∧ (event.ScaleWithin limit ↔ event.FractionWithin limit)

theorem Event.checked_of_passed {limit : Nat} {event : Event} (passed : event.isLiteral = false) :
    event.Checked limit := by
  cases event <;> simp_all [isLiteral, Checked, MagnitudeWithin, ScaleWithin, FractionWithin]

theorem bigNumberOf_checked {limits : Limits} (positive : 0 < limits.maxDigits) {d : Descriptor}
    {sub found : Message} {t : Token} {events : List Event}
    (read : bigNumberOf limits d sub t = .ok (found, events)) :
    ∀ event ∈ events, event.Checked limits.maxDigits := by
  simp only [bigNumberOf] at read
  split at read
  · cases read
  rename_i counted
  have within : countLiteralDigits t.value ≤ limits.maxDigits := Nat.le_of_not_lt counted
  split at read
  · cases number : Pb.parseBigInt t.value with
    | none => simp [number] at read
    | some n =>
      simp only [number, Except.ok.injEq, Prod.mk.injEq] at read
      have bound := digitCount_le (parseBigInt_lt number) within positive
      simp [← read.2, Event.Checked, Event.MagnitudeWithin, Event.ScaleWithin,
        Event.FractionWithin, bound]
  · cases number : decimalLiteral t.value with
    | none => simp [number] at read
    | some n =>
      simp only [number, Except.ok.injEq, Prod.mk.injEq] at read
      obtain ⟨m, parsed, rfl⟩ := Option.map_eq_some_iff.mp number
      obtain ⟨value, scale⟩ := parseDecimal_lt parsed
      have bound := digitCount_le value within positive
      simp [← read.2, Event.Checked, Event.MagnitudeWithin, Event.ScaleWithin,
        Event.FractionWithin, bound, scale, fractionDigits]

theorem literalOf_checked {host : Host} {limits : Limits} (positive : 0 < limits.maxDigits)
    {base64 : Bytes → Except Nat Bytes} {d : Descriptor} {fd : FieldDescriptor}
    {sub found : Message} {t : Token} {events : List Event}
    (read : literalOf host limits base64 d fd sub t = .ok (some (found, events))) :
    ∀ event ∈ events, event.Checked limits.maxDigits := by
  have none_recorded : ∀ {made : Message},
      (Except.ok (some (made, [])) : Except Bytes (Option (Message × List Event))) =
        .ok (some (found, events)) → ∀ event ∈ events, event.Checked limits.maxDigits := by
    intro made same event member
    simp only [Except.ok.injEq, Option.some.injEq, Prod.mk.injEq] at same
    simp [← same.2] at member
  simp only [literalOf] at read
  split at read
  · split at read
    · cases read
    · exact none_recorded read
  split at read
  · split at read
    · cases read
    · exact none_recorded read
  split at read
  · split at read
    · cases read
    · exact none_recorded read
  split at read
  · cases read
  split at read
  · split at read
    · cases read
    · split at read
      · cases read
      · exact none_recorded read
  split at read
  · cases number : bigNumberOf limits d sub t with
    | error msg => simp [number] at read
    | ok made =>
      simp only [number, Functor.map, Except.map, Except.ok.injEq, Option.some.injEq] at read
      exact bigNumberOf_checked positive (number.trans (congrArg _ read))
  · cases read

theorem checked_order (ctx : Context) (positive : 0 < ctx.limits.maxDigits) :
    Decoder.DecoderOrder ctx fun d e =>
      ∀ event ∈ e.trace, event ∈ d.trace ∨ event.Checked ctx.limits.maxDigits where
  refl _ _ member := .inl member
  trans _ _ _ first second event member := by
    obtain earlier | checked := second event member
    · exact first event earlier
    · exact .inr checked
  moved _ _ _ _ member := .inl member
  literal d type fd sub found events read event member := by
    obtain earlier | new := List.mem_append.mp member
    · exact .inl earlier
    · exact .inr (literalOf_checked positive read event new)
  passed d event passed e member := by
    obtain earlier | new := List.mem_append.mp member
    · exact .inl earlier
    · obtain rfl := List.mem_singleton.mp new
      exact .inr (Event.checked_of_passed passed)

theorem unmarshalEvents_checked (pool : Pool) (host : Host) (opts : UnmarshalOptions) (type : Nat)
    (input : Bytes) : ∀ event ∈ unmarshalEvents pool host opts type input,
      event.Checked (resolveLimits opts).maxDigits := by
  intro event member
  have positive : 0 < (resolveLimits opts).maxDigits := by
    simp only [resolveLimits, selected, maxNumericLiteralDigits]
    split <;> omega
  simp only [unmarshalEvents] at member
  split at member
  · rename_i read traced
    simp only [unmarshalTraced] at traced
    split at traced <;> try cases traced
    split at traced <;> cases traced
    rename_i found d ran
    simp only [runDecoder] at ran
    split at ran
    · cases ran
    have kept := (Decoder.decodeDocument_stepwise type).keeps
      (checked_order (contextOf pool host opts) positive)
      (Decoder.start input (contextOf pool host opts).limits.maxBytesLiteral)
    rw [ran] at kept
    obtain earlier | checked := kept event member
    · cases earlier
    · exact checked
  · cases member

/-- A decode that succeeds keeps the digit limit: the magnitude of every big number bound by a
literal has at most so many digits, and the scale of every decimal is within the limit exactly
when its literal has no more digits than that after its point. -/
theorem unmarshal_within_digits (pool : Pool) (host : Host) (opts : UnmarshalOptions) (type : Nat)
    (input : Bytes) :
    (∀ event ∈ unmarshalEvents pool host opts type input,
      event.MagnitudeWithin (resolveLimits opts).maxDigits ∧
        event.ScaleWithin (resolveLimits opts).maxDigits) ↔
      ∀ event ∈ unmarshalEvents pool host opts type input,
        event.FractionWithin (resolveLimits opts).maxDigits := by
  have checked := unmarshalEvents_checked pool host opts type input
  constructor
  · intro within event member
    exact (checked event member).2.mp (within event member).2
  · intro within event member
    exact ⟨(checked event member).1, (checked event member).2.mpr (within event member)⟩

def decimalPool : Pool where
  messages :=
    [{ fullName := text "test.Price"
       fields := [{ name := text "x", index := 0, type := .message 1, hasPresence := true }] },
     { fullName := text "pxf.Decimal"
       fields := [{ name := text "unscaled", index := 0, type := .bytes },
         { name := text "scale", index := 1, type := .int32 },
         { name := text "negative", index := 2, type := .bool }] }]

def silentHost : Host := ⟨fun _ => none, fun _ => none, fun _ _ _ _ => .error [], fun _ _ => []⟩

/-- Under a limit of two digits a decimal of scale four is decoded: the zeros that lead the
literal count for the scale and not for the limit. -/
theorem unmarshal_scale_past_limit :
    ∃ n : Pb.Decimal, Event.decimal (text "0.0005") n ∈
        unmarshalEvents decimalPool silentHost { maxNumericLiteralDigits := 2 } 0
          (text "x = 0.0005") ∧
      (resolveLimits { maxNumericLiteralDigits := 2 }).maxDigits < n.scale.natAbs :=
  ⟨⟨5, 4, false⟩, by decide, by decide⟩

end Pxf

end Protowire
