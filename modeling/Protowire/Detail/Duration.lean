import Mathlib.Algebra.GroupWithZero.Nat
import Mathlib.Data.List.TakeWhile
import Protowire.Detail.Bytes
import Protowire.Detail.Decimal
import Protowire.Detail.TimeCore

/-!
What a duration text stands for, and where `ParseDuration` finds it. A text is a sign and
segments, and each segment is worth its number times its unit, cut to whole nanoseconds. The
parser reads nine digits of a fraction and multiplies them by the unit in 64 bits before it
divides, which is exact for every unit but the minute and the hour.
-/

namespace Protowire

open Support

variable {s rest : Bytes} {total scale : Nat} {segments : List Segment}

def durationUnits : List (Bytes × Nat) :=
  [(text "ns", 1), (text "us", 1000), ([0xC2, 0xB5, 0x73], 1000), ([0xCE, 0xBC, 0x73], 1000),
    (text "ms", 1000000), (text "s", 1000000000), (text "m", 60000000000),
    (text "h", 3600000000000)]

structure Segment where
  whole : Bytes
  fraction : Option Bytes
  unit : Bytes
  scale : Nat
  digits : ∀ c ∈ whole ++ fraction.getD [], isDigit c = true
  numeral : whole ++ fraction.getD [] ≠ []
  known : (unit, scale) ∈ durationUnits

namespace Segment

def pointed : Option Bytes → Bytes
  | none => []
  | some digits => 0x2E :: digits

def written (segment : Segment) : Bytes :=
  segment.whole ++ (pointed segment.fraction ++ segment.unit)

def nanos (segment : Segment) : Nat :=
  let fraction := segment.fraction.getD []
  digitsValue 0 segment.whole * segment.scale +
    digitsValue 0 fraction * segment.scale / 10 ^ fraction.length

def Exact (segment : Segment) : Prop :=
  let fraction := segment.fraction.getD []
  digitsValue 0 segment.whole < 2 ^ 63 ∧
    digitsValue 0 (fraction.take 9) * segment.scale < 2 ^ 63 ∧
      digitsValue 0 (fraction.drop 9) * segment.scale < 10 ^ fraction.length

end Segment

inductive DurationSign where
  | absent
  | plus
  | minus
deriving DecidableEq

def DurationSign.written : DurationSign → Bytes
  | .absent => []
  | .plus => text "+"
  | .minus => text "-"

def DurationSign.apply : DurationSign → Nat → Int
  | .minus, total => -total
  | _, total => total

def segmentsWritten (segments : List Segment) : Bytes := segments.flatMap Segment.written

def segmentsNanos (segments : List Segment) : Nat := (segments.map Segment.nanos).sum

inductive Denotes : Bytes → Int → Prop
  | zero (sign : DurationSign) : Denotes (sign.written ++ text "0") 0
  | segments (sign : DurationSign) (segments : List Segment) (nonempty : segments ≠ []) :
      Denotes (sign.written ++ segmentsWritten segments) (sign.apply (segmentsNanos segments))

theorem Denotes.of_eq {total : Int} (sign : DurationSign) (nonempty : segments ≠ [])
    (spelled : s = sign.written ++ segmentsWritten segments)
    (value : total = sign.apply (segmentsNanos segments)) : Denotes s total := by
  rw [spelled, value]
  exact .segments sign segments nonempty

def Duration.ofNanos (total : Int) : Duration := ⟨total.tdiv 1000000000, total.tmod 1000000000⟩

def Duration.Splits (d : Duration) (total : Int) : Prop :=
  d.seconds * 1000000000 + d.nanos = total ∧ d.nanos.natAbs < 1000000000 ∧
    (0 ≤ d.seconds ∧ 0 ≤ d.nanos ∨ d.seconds ≤ 0 ∧ d.nanos ≤ 0)

theorem Duration.ofNanos_splits (total : Int) : (ofNanos total).Splits total := by
  have whole := Int.mul_tdiv_add_tmod total 1000000000
  have rest := Int.natAbs_tmod total 1000000000
  refine ⟨by rw [ofNanos, Int.mul_comm]; exact whole, ?_, ?_⟩
  · rw [ofNanos, rest]
    exact Nat.mod_lt _ (by decide)
  · rcases Int.le_total 0 total with positive | negative
    · exact .inl ⟨Int.tdiv_nonneg positive (by decide), Int.tmod_nonneg _ positive⟩
    · rw [ofNanos, ← Int.neg_neg total, Int.neg_tdiv, Int.neg_tmod]
      exact .inr ⟨Int.neg_nonpos_of_nonneg (Int.tdiv_nonneg (by omega) (by decide)),
        Int.neg_nonpos_of_nonneg (Int.tmod_nonneg _ (by omega))⟩

theorem Duration.ofNanos_injective {first second : Int} (same : ofNanos first = ofNanos second) :
    first = second := by
  obtain ⟨seconds, nanos⟩ := Duration.mk.inj same
  rw [← Int.mul_tdiv_add_tmod first 1000000000, seconds, nanos, Int.mul_tdiv_add_tmod]

namespace Segment

def cut (segment : Segment) : Nat :=
  let kept := (segment.fraction.getD []).take 9
  digitsValue 0 segment.whole * segment.scale + digitsValue 0 kept * segment.scale / 10 ^ kept.length

def Kept (segment : Segment) : Prop :=
  digitsValue 0 segment.whole ≤ maxInt64 ∧
    digitsValue 0 ((segment.fraction.getD []).take 9) * segment.scale ≤ maxInt64

instance (segment : Segment) : Decidable segment.Kept :=
  inferInstanceAs (Decidable (_ ∧ _))

theorem exact_iff (segment : Segment) : segment.Exact ↔ segment.Kept ∧
    digitsValue 0 ((segment.fraction.getD []).drop 9) * segment.scale <
      10 ^ (segment.fraction.getD []).length := by
  simp only [Exact, Kept, maxInt64]
  omega

theorem scale_cases (segment : Segment) :
    0 < segment.scale ∧ (segment.scale ∣ 10 ^ 9 ∨ 10 ^ 9 ∣ segment.scale) := by
  have known := segment.known
  generalize segment.scale = scale at known ⊢
  generalize segment.unit = unit at known
  simp only [durationUnits, List.mem_cons, Prod.mk.injEq, List.not_mem_nil, or_false] at known
  obtain ⟨-, rfl⟩ | ⟨-, rfl⟩ | ⟨-, rfl⟩ | ⟨-, rfl⟩ | ⟨-, rfl⟩ | ⟨-, rfl⟩ | ⟨-, rfl⟩ | ⟨-, rfl⟩ := known
    <;> decide

theorem cut_tail (kept : Nat) {tail past : Nat} (positive : 0 < scale)
    (cases : scale ∣ 10 ^ 9 ∨ 10 ^ 9 ∣ scale) (below : tail < 10 ^ past) :
    kept * scale / 10 ^ 9 ≤ (kept * 10 ^ past + tail) * scale / 10 ^ (9 + past) ∧
      ((kept * 10 ^ past + tail) * scale / 10 ^ (9 + past) = kept * scale / 10 ^ 9 ↔
        tail * scale < 10 ^ (9 + past)) := by
  have power : 0 < 10 ^ past := Nat.pow_pos (by decide)
  have whole := Nat.div_add_mod (kept * scale) (10 ^ 9)
  have rest := Nat.mod_lt (kept * scale) (show 10 ^ 9 > 0 by decide)
  generalize quotient : kept * scale / 10 ^ 9 = q at whole ⊢
  generalize remainder : kept * scale % 10 ^ 9 = r at whole rest
  have sum : (kept * 10 ^ past + tail) * scale =
      r * 10 ^ past + tail * scale + 10 ^ (9 + past) * q := by
    rw [Nat.add_mul, Nat.mul_right_comm, ← whole, Nat.pow_add]
    ring
  rw [sum, Nat.add_mul_div_left _ _ (Nat.pow_pos (by decide))]
  refine ⟨Nat.le_add_left .., ?_⟩
  rw [Nat.add_eq_right, Nat.div_eq_zero_iff_lt (Nat.pow_pos (by decide))]
  obtain ⟨count, divides⟩ | ⟨count, multiple⟩ := cases
  · -- The remainder is a number of units, so it leaves room for one more.
    have room : r + scale ≤ 10 ^ 9 := by
      have units : scale ∣ r := by
        rw [← remainder]
        exact (Nat.dvd_mod_iff ⟨count, divides⟩).mpr (Nat.dvd_mul_left ..)
      obtain ⟨taken, same⟩ := units
      rw [same, divides] at rest
      have fewer := Nat.lt_of_mul_lt_mul_left rest
      calc r + scale = scale * (taken + 1) := by rw [same]; ring
        _ ≤ scale * count := Nat.mul_le_mul_left _ fewer
        _ = 10 ^ 9 := divides.symm
    have less : r * 10 ^ past + tail * scale < 10 ^ (9 + past) := by
      calc r * 10 ^ past + tail * scale < r * 10 ^ past + 10 ^ past * scale :=
            Nat.add_lt_add_left (Nat.mul_lt_mul_of_pos_right below positive) _
        _ = (r + scale) * 10 ^ past := by ring
        _ ≤ 10 ^ 9 * 10 ^ past := Nat.mul_le_mul_right _ room
        _ = 10 ^ (9 + past) := (Nat.pow_add ..).symm
    exact ⟨fun _ => by omega, fun _ => less⟩
  · have none_ : r = 0 := by
      rw [← remainder, multiple, Nat.mul_left_comm, Nat.mul_mod_right]
    rw [none_, Nat.zero_mul, Nat.zero_add]

theorem cut_le_nanos (segment : Segment) : segment.cut ≤ segment.nanos ∧
    (segment.nanos = segment.cut ↔
      digitsValue 0 ((segment.fraction.getD []).drop 9) * segment.scale <
        10 ^ (segment.fraction.getD []).length) := by
  obtain ⟨positive, cases⟩ := segment.scale_cases
  have digits : ∀ c ∈ segment.fraction.getD [], isDigit c = true :=
    fun c member => segment.digits c (by simp [member])
  simp only [cut, nanos]
  generalize segment.fraction.getD [] = fraction at digits ⊢
  by_cases short : fraction.length ≤ 9
  · rw [List.take_of_length_le short, List.drop_eq_nil_of_le short]
    exact ⟨Nat.le_refl _, by simp [digitsValue]⟩
  · have kept : (fraction.take 9).length = 9 := by
      rw [List.length_take]
      omega
    have long : fraction.length = 9 + (fraction.drop 9).length := by
      rw [List.length_drop]
      omega
    have below : digitsValue 0 (fraction.drop 9) < 10 ^ (fraction.drop 9).length :=
      digitsValue_lt_pow fun c member => digits c (List.mem_of_mem_drop member)
    have value : digitsValue 0 fraction =
        digitsValue 0 (fraction.take 9) * 10 ^ (fraction.drop 9).length +
          digitsValue 0 (fraction.drop 9) := by
      conv_lhs => rw [← List.take_append_drop 9 fraction, digitsValue_append, digitsValue_high]
    obtain ⟨least, same⟩ := cut_tail (digitsValue 0 (fraction.take 9)) positive cases below
    rw [value, kept, long, Nat.add_left_cancel_iff]
    exact ⟨Nat.add_le_add_left least _, same⟩

end Segment

theorem wholeValue_eq (digits : Bytes) (whole : Nat) (start : whole ≤ maxInt64) :
    wholeValue whole digits =
      if digitsValue whole digits ≤ maxInt64 then some (digitsValue whole digits) else none := by
  induction digits generalizing whole with
  | nil => exact (if_pos start).symm
  | cons c rest ih =>
    rw [wholeValue, digitsValue_cons]
    by_cases exceeds : maxInt64 < whole * 10 + digitValue c
    · rw [if_pos (.inr exceeds), if_neg]
      rw [digitsValue_high]
      have power : 1 ≤ 10 ^ rest.length := Nat.pow_pos (by decide)
      have grows := Nat.mul_le_mul_left (whole * 10 + digitValue c) power
      omega
    · rw [if_neg (by omega), ih _ (by omega)]

theorem unitNanos_some {length : Nat} (found : unitNanos s = some (scale, length)) :
    ∃ unit, (unit, scale) ∈ durationUnits ∧ unit.length = length ∧ s = unit ++ s.drop length := by
  have opened {unit : Bytes} (opens : opensWith unit s = true) : s = unit ++ s.drop unit.length := by
    obtain ⟨rest, rfl⟩ := List.isPrefixOf_iff_prefix.mp opens
    rw [List.drop_left]
  unfold unitNanos at found
  split at found
  · rename_i micro
    cases found
    obtain sign | letter := micro
    · exact ⟨_, by simp [durationUnits], rfl, opened sign⟩
    · exact ⟨_, by simp [durationUnits], rfl, opened letter⟩
  iterate 6
    split at found
    · rename_i opens
      cases found
      exact ⟨_, by simp [durationUnits], rfl, opened opens⟩
  cases found

/-- The unit in front is read whole: only the `m` of minutes has a longer reading, with an `s`
behind it. -/
theorem unitNanos_append {unit : Bytes} (known : (unit, scale) ∈ durationUnits)
    (apart : rest.head? ≠ some 0x73) : unitNanos (unit ++ rest) = some (scale, unit.length) := by
  simp only [durationUnits, List.mem_cons, Prod.mk.injEq, List.not_mem_nil, or_false] at known
  have minutes : unitNanos (text "m" ++ rest) = some (60000000000, 1) := by
    have single : opensWith (text "ms") (text "m" ++ rest) = false := by
      cases rest with
      | nil => decide
      | cons c rest =>
        have other : (0x73 == c) = false := by
          rw [beq_eq_false_iff_ne]
          rintro rfl
          exact apart rfl
        change (true && ((0x73 == c) && true)) = false
        rw [other]
        rfl
    unfold unitNanos
    rw [single]
    rfl
  obtain ⟨rfl, rfl⟩ | ⟨rfl, rfl⟩ | ⟨rfl, rfl⟩ | ⟨rfl, rfl⟩ | ⟨rfl, rfl⟩ | ⟨rfl, rfl⟩ | ⟨rfl, rfl⟩ |
    ⟨rfl, rfl⟩ := known
  case inr.inr.inr.inr.inr.inr.inl => exact minutes
  all_goals rfl

theorem unit_opens {unit : Bytes} (known : (unit, scale) ∈ durationUnits) :
    ∃ c rest, unit = c :: rest ∧ isDigit c = false ∧ c ≠ 0x2E := by
  simp only [durationUnits, List.mem_cons, Prod.mk.injEq, List.not_mem_nil, or_false] at known
  obtain ⟨rfl, -⟩ | ⟨rfl, -⟩ | ⟨rfl, -⟩ | ⟨rfl, -⟩ | ⟨rfl, -⟩ | ⟨rfl, -⟩ | ⟨rfl, -⟩ | ⟨rfl, -⟩ := known
    <;> exact ⟨_, _, rfl, by decide, by decide⟩

theorem takeWhile_digits {digits : Bytes} (all : ∀ c ∈ digits, isDigit c = true)
    (stops : ∀ c, rest.head? = some c → isDigit c = false) :
    (digits ++ rest).takeWhile isDigit = digits := by
  rw [List.takeWhile_append_of_pos all]
  cases rest with
  | nil => simp
  | cons c rest => simp [stops c rfl]

namespace Segment

theorem written_ne_nil (segment : Segment) : segment.written ≠ [] := by
  obtain ⟨c, rest, opens, -, -⟩ := unit_opens segment.known
  simp [written, opens]

theorem written_head (segment : Segment) :
    ∃ c rest, segment.written = c :: rest ∧ (isDigit c = true ∨ c = 0x2E) := by
  have digits := segment.digits
  have numeral := segment.numeral
  rw [written]
  cases whole : segment.whole with
  | cons c rest => exact ⟨c, _, rfl, .inl (digits c (by simp [whole]))⟩
  | nil =>
    cases fraction : segment.fraction with
    | none => exact absurd numeral (by simp [whole, fraction])
    | some found => exact ⟨0x2E, _, rfl, .inr rfl⟩

end Segment

theorem segmentSum (whole scale kept power total : Nat) (rest : Bytes) :
    let added (v : Nat) := (addU64 total v).bind fun total => some (total, rest)
    ((if whole ≤ maxInt64 then some whole else none).bind fun whole =>
      (mulU64 whole scale).bind fun v =>
        if 0 < kept then
          if maxInt64 < kept * scale then none else (addU64 v (kept * scale / power)).bind added
        else added v) =
      if (whole ≤ maxInt64 ∧ kept * scale ≤ maxInt64) ∧
          total + (whole * scale + kept * scale / power) ≤ maxUInt64 then
        some (total + (whole * scale + kept * scale / power), rest)
      else none := by
  intro added
  have least := Nat.zero_le (kept * scale / power)
  by_cases fits : whole ≤ maxInt64
  · rw [if_pos fits, Option.bind_some]
    by_cases exceeds : maxUInt64 < whole * scale
    · rw [mulU64, if_pos exceeds, if_neg (by omega)]
      rfl
    · rw [mulU64, if_neg exceeds, Option.bind_some]
      have sum (v : Nat) : added v = if total + v ≤ maxUInt64 then some (total + v, rest) else none := by
        simp only [added, addU64]
        split <;> simp <;> omega
      by_cases zero : 0 < kept
      · rw [if_pos zero]
        by_cases large : maxInt64 < kept * scale
        · rw [if_pos large, if_neg (by omega)]
        · rw [if_neg large, addU64]
          by_cases above : maxUInt64 < whole * scale + kept * scale / power
          · rw [if_pos above, if_neg (by omega)]
            rfl
          · rw [if_neg above, Option.bind_some, sum]
            simp only [fits, Nat.le_of_not_lt large, true_and]
      · obtain rfl : kept = 0 := by omega
        rw [if_neg zero, sum]
        simp [fits]
  · rw [if_neg fits, if_neg (fun both => fits both.1.1)]
    rfl

namespace Segment

variable (segment : Segment) (rest : Bytes)

def afterWhole : Bytes := pointed segment.fraction ++ (segment.unit ++ rest)

theorem written_append : segment.written ++ rest = segment.whole ++ segment.afterWhole rest := by
  simp [written, afterWhole]

theorem drop_whole :
    (segment.written ++ rest).drop segment.whole.length = segment.afterWhole rest := by
  rw [written_append, List.drop_left]

theorem takeWhile_whole : (segment.written ++ rest).takeWhile isDigit = segment.whole := by
  obtain ⟨first, following, opens, notDigit, -⟩ := unit_opens segment.known
  have digits := segment.digits
  rw [written_append, afterWhole]
  refine takeWhile_digits (fun c member => digits c (by simp [member])) fun c head => ?_
  cases fraction : segment.fraction with
  | none =>
    simp only [fraction, pointed, opens, List.nil_append, List.cons_append, List.head?_cons,
      Option.some.injEq] at head
    rw [← head, notDigit]
  | some found =>
    simp only [fraction, pointed, List.cons_append, List.head?_cons, Option.some.injEq] at head
    rw [← head]
    decide

theorem point_iff : peek (segment.afterWhole rest) 0 = 0x2E ↔ segment.fraction.isSome = true := by
  obtain ⟨first, following, opens, -, notPoint⟩ := unit_opens segment.known
  rw [afterWhole]
  cases segment.fraction with
  | none => simp [pointed, opens, notPoint]
  | some found => simp [pointed]

theorem takeWhile_fraction :
    (if peek (segment.afterWhole rest) 0 = 0x2E then ((segment.afterWhole rest).drop 1).takeWhile isDigit
      else []) = segment.fraction.getD [] := by
  obtain ⟨first, following, opens, notDigit, -⟩ := unit_opens segment.known
  have digits := segment.digits
  simp only [point_iff]
  rw [afterWhole]
  cases fraction : segment.fraction with
  | none => rfl
  | some found =>
    refine takeWhile_digits (fun c member => digits c (by simp [fraction, member])) fun c head => ?_
    rw [opens, List.cons_append, List.head?_cons, Option.some.injEq] at head
    rw [← head, notDigit]

theorem drop_number :
    (if peek (segment.afterWhole rest) 0 = 0x2E then
        (segment.afterWhole rest).drop (1 + (segment.fraction.getD []).length)
      else segment.afterWhole rest) = segment.unit ++ rest := by
  simp only [point_iff]
  rw [afterWhole]
  cases segment.fraction with
  | none => rfl
  | some found =>
    simp only [pointed, List.cons_append, Option.isSome_some, if_true, Option.getD_some,
      Nat.add_comm 1, List.drop_succ_cons, List.drop_left]

end Segment

theorem durationSegment_written (segment : Segment) (apart : rest.head? ≠ some 0x73) (total : Nat) :
    durationSegment total (segment.written ++ rest) =
      if segment.Kept ∧ total + segment.cut ≤ maxUInt64 then some (total + segment.cut, rest)
      else none := by
  have unit := unitNanos_append segment.known apart
  have some_ : ¬(segment.whole.isEmpty = true ∧ (segment.fraction.getD []).isEmpty = true) := by
    simpa using segment.numeral
  unfold durationSegment
  simp only [segment.takeWhile_whole, segment.drop_whole, segment.takeWhile_fraction,
    segment.drop_number, unit, wholeValue_eq _ 0 (Nat.zero_le _)]
  simp only [if_neg some_, Option.bind_some, Option.bind_none, Option.bind_eq_bind, List.drop_left]
  exact segmentSum ..

theorem Segment.written_injective {first second : Segment} {following : Bytes}
    (apart : rest.head? ≠ some 0x73) (also : following.head? ≠ some 0x73)
    (same : first.written ++ rest = second.written ++ following) :
    first = second ∧ rest = following := by
  have whole : first.whole = second.whole := by
    rw [← first.takeWhile_whole rest, same, second.takeWhile_whole]
  have after : first.afterWhole rest = second.afterWhole following := by
    rw [← first.drop_whole, ← second.drop_whole, same, whole]
  have digits : first.fraction.getD [] = second.fraction.getD [] := by
    rw [← first.takeWhile_fraction rest, after, second.takeWhile_fraction]
  have pointed : first.fraction.isSome = second.fraction.isSome := by
    rw [Bool.eq_iff_iff, ← first.point_iff rest, after, second.point_iff]
  have fraction : first.fraction = second.fraction := by
    cases one : first.fraction <;> cases other : second.fraction <;> simp_all
  have unit : first.unit ++ rest = second.unit ++ following := by
    rw [← first.drop_number, ← second.drop_number, after, fraction]
  have found := unitNanos_append first.known apart
  rw [unit, unitNanos_append second.known also] at found
  obtain ⟨scale, length⟩ := Prod.mk.inj (Option.some.inj found)
  obtain ⟨spelling, rest⟩ := List.append_inj unit length.symm
  refine ⟨?_, rest⟩
  cases first
  cases second
  simp only at whole fraction spelling scale
  subst whole fraction spelling scale
  rfl

theorem durationSegment_some {following : Nat}
    (read : durationSegment total s = some (following, rest)) :
    ∃ segment : Segment, s = segment.written ++ rest := by
  have split : s = s.takeWhile isDigit ++ s.drop (s.takeWhile isDigit).length := by
    rw [← spanLength, drop_spanLength, List.takeWhile_append_dropWhile]
  have digits : ∀ c ∈ s.takeWhile isDigit, isDigit c = true :=
    fun c member => List.mem_takeWhile_imp member
  unfold durationSegment at read
  simp only [Option.bind_eq_bind, Option.bind_none, Option.bind_some, Option.bind_eq_some_iff,
    Option.ite_none_left_eq_some] at read
  generalize s.drop (s.takeWhile isDigit).length = after at read split
  generalize s.takeWhile isDigit = number at read split digits
  obtain ⟨whole, -, numeral, ⟨scale, length⟩, unit, v, -, read⟩ := read
  have last {kept part : Nat} {left : Bytes}
      (read : (if 0 < kept then
          if maxInt64 < kept * scale then none
          else (addU64 v part).bind fun v => (addU64 total v).bind fun total => some (total, left)
        else (addU64 total v).bind fun total => some (total, left)) = some (following, rest)) :
      left = rest := by
    have added {v : Nat} (read : ((addU64 total v).bind fun total => some (total, left)) =
        some (following, rest)) : left = rest := by
      obtain ⟨_, -, read⟩ := Option.bind_eq_some_iff.mp read
      exact (Prod.mk.inj (Option.some.inj read)).2
    split at read
    · obtain ⟨-, read⟩ := Option.ite_none_left_eq_some.mp read
      obtain ⟨_, -, read⟩ := Option.bind_eq_some_iff.mp read
      exact added read
    · exact added read
  by_cases pointed : peek after 0 = 0x2E
  · simp only [if_pos pointed] at numeral unit read
    obtain ⟨spelling, known, rfl, opens⟩ := unitNanos_some unit
    obtain ⟨rest', rfl⟩ : ∃ more, after = 0x2E :: more := by
      cases after with
      | nil => exact absurd pointed (by decide)
      | cons c more => exact ⟨more, by rw [← pointed]; rfl⟩
    rw [Nat.add_comm, List.drop_succ_cons, List.drop_succ_cons, List.drop_zero] at opens
    have fraction : ∀ c ∈ rest'.takeWhile isDigit, isDigit c = true :=
      fun c member => List.mem_takeWhile_imp member
    refine ⟨⟨number, some (rest'.takeWhile isDigit), spelling, scale, ?_, ?_, known⟩, ?_⟩
    · intro c member
      obtain member | member := List.mem_append.mp member
      · exact digits c member
      · exact fraction c member
    · simpa using numeral
    · have body : rest' = rest'.takeWhile isDigit ++ rest'.drop (rest'.takeWhile isDigit).length := by
        rw [← spanLength, drop_spanLength, List.takeWhile_append_dropWhile]
      have tail : (rest'.drop (rest'.takeWhile isDigit).length).drop spelling.length = rest := by
        rw [← last read, Nat.add_comm 1]
        rfl
      rw [split, Segment.written, Segment.pointed, ← tail]
      conv_lhs => rw [body, opens]
      simp
  · simp only [if_neg pointed] at numeral unit read
    obtain ⟨spelling, known, rfl, opens⟩ := unitNanos_some unit
    refine ⟨⟨number, none, spelling, scale, ?_, ?_, known⟩, ?_⟩
    · simpa using digits
    · simpa using numeral
    · rw [split, ← last read, opens, Segment.written, Segment.pointed]
      simp

def segmentsCut (segments : List Segment) : Nat := (segments.map Segment.cut).sum

theorem segmentsWritten_head (segments : List Segment) :
    (segmentsWritten segments).head? ≠ some 0x73 ∧ (segmentsWritten segments).head? ≠ some 0x2D ∧
      (segmentsWritten segments).head? ≠ some 0x2B := by
  cases segments with
  | nil => simp [segmentsWritten]
  | cons segment rest =>
    obtain ⟨c, more, opens, digit | point⟩ := segment.written_head
    · simp only [segmentsWritten, List.flatMap_cons, opens, List.cons_append, List.head?_cons, Ne,
        Option.some.injEq]
      refine ⟨?_, ?_, ?_⟩ <;> rintro rfl <;> exact absurd digit (by decide)
    · simp [segmentsWritten, opens, point]

def durationTurn : Nat × Bytes → Turn (Nat × Bytes) (Option Nat) :=
  fun (total, s) =>
    if s.isEmpty then .done (some total)
    else
      match durationSegment total s with
      | none => .done none
      | some following => .next following

theorem durationTurn_lowers : Lowers (fun state => state.2.length) durationTurn := by
  intro state following turned
  obtain ⟨total, s⟩ := state
  rw [durationTurn] at turned
  split at turned
  · cases turned
  · split at turned
    · cases turned
    · rename_i read
      cases turned
      obtain ⟨segment, rfl⟩ := durationSegment_some read
      have nonempty := List.length_pos_iff.mpr segment.written_ne_nil
      simp only [List.length_append]
      omega

def durationTotalFrom (total : Nat) (s : Bytes) : Option Nat :=
  loop (fun state => state.2.length) durationTurn (fun _ => none) (total, s)

theorem durationTotalFrom_nil (total : Nat) : durationTotalFrom total [] = some total :=
  loop_done rfl

theorem durationTotalFrom_cons (nonempty : s ≠ []) :
    durationTotalFrom total s = (durationSegment total s).bind fun following =>
      durationTotalFrom following.1 following.2 := by
  have turn : durationTurn (total, s) =
      match durationSegment total s with
      | none => .done none
      | some following => .next following := by
    rw [durationTurn]
    exact if_neg (by simpa using nonempty)
  cases read : durationSegment total s with
  | none =>
    rw [read] at turn
    exact loop_done turn
  | some following =>
    rw [read] at turn
    exact loop_next durationTurn_lowers turn

theorem durationTotalFrom_segments (segments : List Segment) (total : Nat) (start : total ≤ maxUInt64) :
    durationTotalFrom total (segmentsWritten segments) =
      if (∀ segment ∈ segments, segment.Kept) ∧ total + segmentsCut segments ≤ maxUInt64 then
        some (total + segmentsCut segments)
      else none := by
  induction segments generalizing total with
  | nil => simp [segmentsWritten, segmentsCut, durationTotalFrom_nil, start]
  | cons segment rest ih =>
    have nonempty : segmentsWritten (segment :: rest) ≠ [] := by
      simp [segmentsWritten, segment.written_ne_nil]
    have shape : segmentsWritten (segment :: rest) = segment.written ++ segmentsWritten rest := rfl
    have sum : segmentsCut (segment :: rest) = segment.cut + segmentsCut rest := rfl
    rw [durationTotalFrom_cons nonempty, shape,
      durationSegment_written segment (segmentsWritten_head rest).1, sum]
    by_cases first : segment.Kept ∧ total + segment.cut ≤ maxUInt64
    · rw [if_pos first, Option.bind_some, ih _ first.2]
      simp only [List.forall_mem_cons, first.1, true_and, Nat.add_assoc]
    · rw [if_neg first, if_neg]
      · rfl
      · rintro ⟨kept, within⟩
        exact first ⟨kept segment (by simp), by omega⟩

theorem durationTotalFrom_some {sum : Nat} (read : durationTotalFrom total s = some sum) :
    ∃ segments, s = segmentsWritten segments := by
  induction length : s.length using Nat.strongRecOn generalizing s total with
  | ind n ih =>
    by_cases empty : s = []
    · exact ⟨[], empty⟩
    · rw [durationTotalFrom_cons empty, Option.bind_eq_some_iff] at read
      obtain ⟨⟨following, rest⟩, first, read⟩ := read
      obtain ⟨segment, rfl⟩ := durationSegment_some first
      have nonempty := List.length_pos_iff.mpr segment.written_ne_nil
      rw [List.length_append] at length
      obtain ⟨segments, rfl⟩ := ih rest.length (by omega) read rfl
      exact ⟨segment :: segments, rfl⟩

def parseMagnitude (sign : DurationSign) (body : Bytes) : Option Duration :=
  if body = text "0" then some (.ofNanos 0)
  else (durationTotalFrom 0 body).bind fun total =>
    if fitsInt64 (sign.apply total) then some (.ofNanos (sign.apply total)) else none

theorem fitsInt64_apply (sign : DurationSign) (total : Nat) :
    fitsInt64 (sign.apply total) = true ↔
      total ≤ if sign = .minus then maxInt64 + 1 else maxInt64 := by
  simp only [fitsInt64, Bool.and_eq_true, decide_eq_true_eq, maxInt64]
  cases sign <;> simp [DurationSign.apply] <;> omega

theorem parseDuration_sign (sign : DurationSign) {body : Bytes} (nonempty : body ≠ [])
    (unsigned : sign = .absent → body.head? ≠ some 0x2D ∧ body.head? ≠ some 0x2B) :
    parseDuration (sign.written ++ body) = parseMagnitude sign body := by
  have bound (total : Nat) : (if (if sign = .minus then maxInt64 + 1 else maxInt64) < total then none
        else some (Duration.ofNanos (sign.apply total))) =
      if fitsInt64 (sign.apply total) then some (.ofNanos (sign.apply total)) else none := by
    have fits := fitsInt64_apply sign total
    by_cases exceeds : (if sign = .minus then maxInt64 + 1 else maxInt64) < total
    · rw [if_pos exceeds, if_neg (by rw [fits]; omega)]
    · rw [if_neg exceeds, if_pos (by rw [fits]; omega)]
  obtain ⟨c, rest, rfl⟩ := List.exists_cons_of_ne_nil nonempty
  have total : durationTotal (c :: rest) = durationTotalFrom 0 (c :: rest) := rfl
  rw [parseMagnitude]
  simp only [← bound]
  cases sign with
  | absent =>
    have notMinus : c ≠ 0x2D := by simpa using (unsigned rfl).1
    have notPlus : c ≠ 0x2B := by simpa using (unsigned rfl).2
    simp only [parseDuration, DurationSign.written, List.nil_append, peek_zero, notMinus, notPlus,
      or_self, if_false, List.isEmpty_cons, Bool.false_eq_true, total, Option.bind_eq_bind,
      Option.bind_none]
    rfl
  | plus =>
    change parseDuration (0x2B :: c :: rest) = _
    simp only [parseDuration, peek_zero, or_true, if_true, List.isEmpty_cons, Bool.false_eq_true,
      if_false, List.drop_succ_cons, List.drop_zero, total, Option.bind_eq_bind, Option.bind_none]
    rfl
  | minus =>
    change parseDuration (0x2D :: c :: rest) = _
    simp only [parseDuration, peek_zero, true_or, if_true, List.isEmpty_cons, Bool.false_eq_true,
      if_false, List.drop_succ_cons, List.drop_zero, total, Option.bind_eq_bind, Option.bind_none]
    rfl

theorem segmentsWritten_long (nonempty : segments ≠ []) :
    2 ≤ (segmentsWritten segments).length := by
  obtain ⟨segment, rest, rfl⟩ := List.exists_cons_of_ne_nil nonempty
  obtain ⟨c, more, opens, -, -⟩ := unit_opens segment.known
  have numeral := List.length_pos_iff.mpr segment.numeral
  have part : (segment.fraction.getD []).length ≤ (Segment.pointed segment.fraction).length := by
    cases segment.fraction <;> simp [Segment.pointed]
  simp only [segmentsWritten, List.flatMap_cons, Segment.written, opens, List.length_append,
    List.length_cons] at numeral ⊢
  omega

theorem parseDuration_segments (sign : DurationSign) (nonempty : segments ≠ []) :
    parseDuration (sign.written ++ segmentsWritten segments) =
      if (∀ segment ∈ segments, segment.Kept) ∧ fitsInt64 (sign.apply (segmentsCut segments)) then
        some (.ofNanos (sign.apply (segmentsCut segments)))
      else none := by
  have long := segmentsWritten_long nonempty
  have some_ : segmentsWritten segments ≠ [] := by
    intro empty
    simp [empty] at long
  have notZero : segmentsWritten segments ≠ text "0" := by
    intro zero
    rw [zero] at long
    exact absurd long (by decide)
  have fits := fitsInt64_apply sign (segmentsCut segments)
  rw [parseDuration_sign sign some_ (fun _ => (segmentsWritten_head segments).2), parseMagnitude, if_neg notZero,
    durationTotalFrom_segments segments 0 (Nat.zero_le _), Nat.zero_add]
  by_cases kept : ∀ segment ∈ segments, segment.Kept
  · by_cases within : segmentsCut segments ≤ maxUInt64
    · rw [if_pos ⟨kept, within⟩, Option.bind_some]
      exact if_congr (and_iff_right kept).symm rfl rfl
    · rw [if_neg (fun both => within both.2), if_neg]
      · rfl
      · rintro ⟨-, held⟩
        rw [fits] at held
        simp only [maxInt64, maxUInt64] at held within
        split at held <;> omega
  · rw [if_neg (fun both => kept both.1), if_neg (fun both => kept both.1)]
    rfl

theorem parseDuration_zero (sign : DurationSign) :
    parseDuration (sign.written ++ text "0") = some (.ofNanos 0) := by
  cases sign <;> decide +kernel

theorem parseDuration_some {d : Duration} (read : parseDuration s = some d) :
    ∃ sign : DurationSign, s = sign.written ++ text "0" ∨
      ∃ segments, segments ≠ [] ∧ s = sign.written ++ segmentsWritten segments := by
  obtain ⟨sign, body, rfl, unsigned⟩ : ∃ (sign : DurationSign) (body : Bytes), s = sign.written ++ body ∧
      (sign = .absent → body.head? ≠ some 0x2D ∧ body.head? ≠ some 0x2B) := by
    cases s with
    | nil => exact ⟨.absent, [], rfl, by simp⟩
    | cons c rest =>
      by_cases minus : c = 0x2D
      · exact ⟨.minus, rest, by rw [minus]; rfl, by simp⟩
      · by_cases plus : c = 0x2B
        · exact ⟨.plus, rest, by rw [plus]; rfl, by simp⟩
        · exact ⟨.absent, c :: rest, rfl, by simp [minus, plus]⟩
  have nonempty : body ≠ [] := by
    rintro rfl
    cases sign <;> cases read
  rw [parseDuration_sign sign nonempty unsigned, parseMagnitude] at read
  refine ⟨sign, ?_⟩
  split at read
  · rename_i zero
    rw [zero]
    exact .inl rfl
  · rw [Option.bind_eq_some_iff] at read
    obtain ⟨total, summed, -⟩ := read
    obtain ⟨segments, rfl⟩ := durationTotalFrom_some summed
    refine .inr ⟨segments, ?_, rfl⟩
    rintro rfl
    exact nonempty rfl

theorem segmentsWritten_injective {first second : List Segment}
    (same : segmentsWritten first = segmentsWritten second) : first = second := by
  have nonempty (segment : Segment) (rest : List Segment) : segmentsWritten (segment :: rest) ≠ [] :=
    fun empty => segment.written_ne_nil (List.append_eq_nil_iff.mp empty).1
  induction first generalizing second with
  | nil =>
    cases second with
    | nil => rfl
    | cons segment rest => exact absurd same.symm (nonempty segment rest)
  | cons segment rest ih =>
    cases second with
    | nil => exact absurd same (nonempty segment rest)
    | cons other following =>
      obtain ⟨rfl, after⟩ := Segment.written_injective (segmentsWritten_head rest).1
        (segmentsWritten_head following).1 same
      rw [ih after]

theorem written_head (sign : DurationSign) (segments : List Segment) :
    ((sign.written ++ segmentsWritten segments).head? = some 0x2D ↔ sign = .minus) ∧
      ((sign.written ++ segmentsWritten segments).head? = some 0x2B ↔ sign = .plus) := by
  cases sign with
  | absent => simp [DurationSign.written, segmentsWritten_head segments]
  | plus =>
    change (some 0x2B = some 0x2D ↔ _) ∧ (some 0x2B = some 0x2B ↔ _)
    decide
  | minus =>
    change (some 0x2D = some 0x2D ↔ _) ∧ (some 0x2D = some 0x2B ↔ _)
    decide

theorem written_unique {sign other : DurationSign} {first second : List Segment}
    (same : sign.written ++ segmentsWritten first = other.written ++ segmentsWritten second) :
    sign = other ∧ first = second := by
  have heads := written_head sign first
  rw [same, (written_head other second).1, (written_head other second).2] at heads
  have signs : sign = other := by
    cases sign <;> cases other <;> simp_all
  subst signs
  exact ⟨rfl, segmentsWritten_injective (List.append_cancel_left same)⟩

/-- What the parser asks of segments to find what they stand for: that each be exact where their sum
fits, and where it does not, that one be too large to be read or that they be too much even with
their fractions cut to nine digits. -/
def FoundAsMeant (sign : DurationSign) (segments : List Segment) : Prop :=
  if fitsInt64 (sign.apply (segmentsNanos segments)) then ∀ segment ∈ segments, segment.Exact
  else (∀ segment ∈ segments, segment.Kept) → fitsInt64 (sign.apply (segmentsCut segments)) = false

theorem Segment.Exact.cut_eq {segment : Segment} (exact_ : segment.Exact) :
    segment.Kept ∧ segment.cut = segment.nanos := by
  obtain ⟨kept, tail⟩ := segment.exact_iff.mp exact_
  exact ⟨kept, (segment.cut_le_nanos.2.mpr tail).symm⟩

theorem segmentsCut_le (segments : List Segment) : segmentsCut segments ≤ segmentsNanos segments := by
  induction segments with
  | nil => exact Nat.le_refl _
  | cons segment rest ih => exact Nat.add_le_add segment.cut_le_nanos.1 ih

theorem segmentsCut_eq_iff (segments : List Segment) :
    segmentsCut segments = segmentsNanos segments ↔ ∀ segment ∈ segments, segment.cut = segment.nanos := by
  induction segments with
  | nil => simp [segmentsCut, segmentsNanos]
  | cons segment rest ih =>
    have first := segment.cut_le_nanos.1
    have others := segmentsCut_le rest
    have cut : segmentsCut (segment :: rest) = segment.cut + segmentsCut rest := rfl
    have nanos : segmentsNanos (segment :: rest) = segment.nanos + segmentsNanos rest := rfl
    rw [List.forall_mem_cons, ← ih, cut, nanos]
    omega

theorem segmentsCut_exact (exactly : ∀ segment ∈ segments, segment.Exact) :
    (∀ segment ∈ segments, segment.Kept) ∧ segmentsCut segments = segmentsNanos segments :=
  ⟨fun segment member => (exactly segment member).cut_eq.1,
    (segmentsCut_eq_iff segments).mpr fun segment member => (exactly segment member).cut_eq.2⟩

theorem parseDuration_meant {sign : DurationSign} (nonempty : segments ≠ [])
    (fits : fitsInt64 (sign.apply (segmentsNanos segments)) = true) :
    parseDuration (sign.written ++ segmentsWritten segments) =
        some (.ofNanos (sign.apply (segmentsNanos segments))) ↔
      ∀ segment ∈ segments, segment.Exact := by
  rw [parseDuration_segments sign nonempty, Option.ite_none_right_eq_some]
  constructor
  · rintro ⟨⟨kept, -⟩, found⟩ segment member
    have total := Duration.ofNanos_injective (Option.some.inj found)
    have same : segmentsCut segments = segmentsNanos segments := by
      cases sign <;> simp only [DurationSign.apply] at total <;> omega
    have cut := (segmentsCut_eq_iff segments).mp same segment member
    exact segment.exact_iff.mpr ⟨kept segment member, segment.cut_le_nanos.2.mp cut.symm⟩
  · intro exactly
    obtain ⟨kept, same⟩ := segmentsCut_exact exactly
    rw [same]
    exact ⟨⟨kept, fits⟩, rfl⟩

theorem denotes_segments {sign : DurationSign} {value : Int} (nonempty : segments ≠ []) :
    Denotes (sign.written ++ segmentsWritten segments) value ↔
      value = sign.apply (segmentsNanos segments) := by
  constructor
  · intro denotes
    generalize opens : sign.written ++ segmentsWritten segments = s at denotes
    cases denotes with
    | zero other =>
      have heads := written_head sign segments
      rw [opens] at heads
      have signs : sign = other := by
        cases other <;> cases sign <;> first | rfl | exact absurd heads (by decide)
      subst signs
      have long := segmentsWritten_long nonempty
      rw [List.append_cancel_left opens] at long
      exact absurd long (by decide)
    | segments other found _ =>
      obtain ⟨rfl, rfl⟩ := written_unique opens
      rfl
  · rintro rfl
    exact .segments sign segments nonempty

/-- The parser takes a text for what it stands for, and refuses it where that does not fit or it
stands for nothing, just when its segments, if it has any, are such as to be found. -/
theorem parseDuration_exact (s : Bytes) :
    (∀ d, parseDuration s = some d ↔
      ∃ total, Denotes s total ∧ fitsInt64 total = true ∧ d = .ofNanos total) ↔
    ∀ (sign : DurationSign) (segments : List Segment), segments ≠ [] →
      s = sign.written ++ segmentsWritten segments → FoundAsMeant sign segments := by
  constructor
  · rintro meant sign segments nonempty rfl
    rw [FoundAsMeant]
    split
    · next fits =>
        rw [← parseDuration_meant nonempty fits, meant]
        exact ⟨_, .segments sign segments nonempty, fits, rfl⟩
    · next past =>
        intro kept
        by_contra fits
        have found := parseDuration_segments sign nonempty
        rw [if_pos ⟨kept, Bool.eq_true_of_not_eq_false fits⟩, meant] at found
        obtain ⟨total, denotes, within, -⟩ := found
        rw [(denotes_segments nonempty).mp denotes] at within
        exact past within
  · intro found d
    constructor
    · intro read
      obtain ⟨sign, rfl | ⟨segments, nonempty, rfl⟩⟩ := parseDuration_some read
      · rw [parseDuration_zero] at read
        exact ⟨0, .zero sign, by decide, (Option.some.inj read).symm⟩
      · have sound := found sign segments nonempty rfl
        rw [FoundAsMeant] at sound
        split at sound
        · next fits =>
            rw [(parseDuration_meant nonempty fits).mpr sound] at read
            exact ⟨_, .segments sign segments nonempty, fits, (Option.some.inj read).symm⟩
        · rw [parseDuration_segments sign nonempty, Option.ite_none_right_eq_some] at read
          obtain ⟨⟨kept, within⟩, -⟩ := read
          rw [sound kept] at within
          cases within
    · rintro ⟨total, denotes, fits, rfl⟩
      cases denotes with
      | zero sign => exact parseDuration_zero sign
      | segments sign segments nonempty =>
        have sound := found sign segments nonempty rfl
        rw [FoundAsMeant, if_pos fits] at sound
        exact (parseDuration_meant nonempty fits).mpr sound

theorem parseDuration_exact_mixed :
    parseDuration (text "-1h30.25m") = some ⟨-5415, 0⟩ := by
  let hours : Segment :=
    ⟨text "1", none, text "h", 3600000000000, List.all_eq_true.mp (by decide), by decide, by decide⟩
  let minutes : Segment :=
    ⟨text "30", some (text "25"), text "m", 60000000000, List.all_eq_true.mp (by decide), by decide,
      by decide⟩
  have shape : text "-1h30.25m" = DurationSign.minus.written ++ segmentsWritten [hours, minutes] := by
    decide
  have denotes : Denotes (text "-1h30.25m") (-5415000000000) :=
    .of_eq .minus (by simp) shape (by decide)
  refine ((parseDuration_exact _).mpr ?_ _).mpr ⟨_, denotes, by decide, by decide⟩
  intro sign segments _ opens
  obtain ⟨rfl, rfl⟩ := written_unique (shape.symm.trans opens)
  rw [FoundAsMeant, if_pos (by decide)]
  intro segment member
  simp only [List.mem_cons, List.not_mem_nil, or_false] at member
  obtain rfl | rfl := member
  · exact ⟨by decide, by decide, by decide⟩
  · exact ⟨by decide, by decide, by decide⟩

/-- The tenth digit of a fraction of an hour is worth 360 nanoseconds and is dropped; nine digits
of one overflow; and the least count is refused where it is written in one segment. -/
theorem parseDuration_inexact :
    (Denotes (text "0.0000000001h") 360 ∧ parseDuration (text "0.0000000001h") = some (.ofNanos 0)) ∧
    (Denotes (text "0.999999999h") 3599999996400 ∧ parseDuration (text "0.999999999h") = none) ∧
    (Denotes (text "-9223372036854775808ns") (-(2 : Int) ^ 63) ∧
      fitsInt64 (-(2 : Int) ^ 63) = true ∧ parseDuration (text "-9223372036854775808ns") = none) := by
  let hours (digits : Bytes) (all : ∀ c ∈ text "0" ++ digits, isDigit c = true) : Segment :=
    ⟨text "0", some digits, text "h", 3600000000000, all, by simp [show text "0" = [0x30] from rfl],
      by decide⟩
  let least : Segment :=
    ⟨text "9223372036854775808", none, text "ns", 1, List.all_eq_true.mp (by decide), by decide,
      by decide⟩
  refine ⟨⟨?_, by decide⟩, ⟨?_, by decide +kernel⟩, ?_, by decide, by decide +kernel⟩
  · exact .of_eq .absent (List.cons_ne_nil (hours (text "0000000001") (List.all_eq_true.mp (by decide))) [])
      (by decide) (by decide +kernel)
  · exact .of_eq .absent (List.cons_ne_nil (hours (text "999999999") (List.all_eq_true.mp (by decide))) [])
      (by decide) (by decide +kernel)
  · exact .of_eq .minus (List.cons_ne_nil least []) (by decide) (by decide +kernel)

end Protowire
