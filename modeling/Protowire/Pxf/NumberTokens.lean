import Protowire.Detail.Decimal
import Protowire.Pxf.TimeTokens

/-!
Numbers as tokens. A literal with a sign, a fraction, an exponent and a precision suffix, each
of them there or not, is one token up to a byte that does not go on with it.
-/

namespace Protowire.Pxf

variable {rest s more : Bytes} {at_ : Nat}

structure Numeral where
  minus : Bool := false
  whole : Bytes
  fraction : Bytes := []
  exponent : Option (Bool × Bytes) := none
  prec : Bytes := []
  nonempty : whole ≠ []
  whole_digits : ∀ c ∈ whole, isDigit c = true
  fraction_digits : ∀ c ∈ fraction, isDigit c = true
  exponent_digits : ∀ e ∈ exponent, ∀ c ∈ e.2, isDigit c = true
  prec_digits : ∀ c ∈ prec, isDigit c = true

namespace Numeral

theorem no_digits : ∀ c ∈ ([] : Bytes), isDigit c = true := List.forall_mem_nil _

theorem no_exponent : ∀ e ∈ (none : Option (Bool × Bytes)), ∀ c ∈ e.2, isDigit c = true :=
  fun e member => absurd member (Option.not_mem_none e)

def sign (n : Numeral) : Bytes := if n.minus then [0x2D] else []

def pointed (n : Numeral) : Bytes := if n.fraction.isEmpty then [] else 0x2E :: n.fraction

def scaled (n : Numeral) : Bytes :=
  match n.exponent with
  | none => []
  | some (negative, digits) => 0x65 :: (if negative then 0x2D else 0x2B) :: digits

def suffix (n : Numeral) : Bytes := if n.prec.isEmpty then [] else 0x70 :: n.prec

def literal (n : Numeral) : Bytes := n.sign ++ (n.whole ++ (n.pointed ++ n.scaled))

def kind (n : Numeral) : TokenKind :=
  if n.fraction.isEmpty && n.exponent.isNone then .int else .float

end Numeral

def EndsNumber (more : Bytes) : Prop :=
  isIdentPart (peek more 0) = false ∧ peek more 0 ≠ 0x2D ∧ peek more 0 ≠ 0xC2

theorem spanLength_digits {digits : Bytes} (all : ∀ c ∈ digits, isDigit c = true)
    (ends : isDigit (peek rest 0) = false) :
    spanLength isDigit (digits ++ rest) = digits.length := by
  rw [spanLength, takeWhile_digits all]
  intro c head
  rw [peek, List.getD_eq_getElem?_getD, ← List.head?_eq_getElem?, head] at ends
  simpa using ends

theorem pastDigits_eq {digits : Bytes} (behind : s.drop at_ = digits ++ rest)
    (all : ∀ c ∈ digits, isDigit c = true) (ends : isDigit (peek rest 0) = false) :
    pastDigits s at_ = at_ + digits.length ∧ s.drop (at_ + digits.length) = rest := by
  rw [pastDigits, behind, spanLength_digits all ends, ← List.drop_drop, behind, List.drop_left]
  exact ⟨rfl, rfl⟩

theorem peek_at (behind : s.drop at_ = rest) (index : Nat) :
    peek s (at_ + index) = peek rest index := by
  rw [← behind, peek_drop]

def Leaves (c : UInt8) : Prop :=
  isDigit c = false ∧ c ≠ 0x2D ∧ c ≠ 0x2E ∧ isDurationUnit c = false ∧ c ≠ 0xC2

instance (c : UInt8) : Decidable (Leaves c) := inferInstanceAs (Decidable (_ ∧ _))

theorem Leaves.unit (leaves : Leaves (peek s 0)) : atDurationUnit s = false := by
  obtain ⟨-, -, -, unit, micro⟩ := leaves
  simp [atDurationUnit, unit, micro]

section

variable {n : Numeral} {more : Bytes} (ends : EndsNumber more)

include ends

theorem EndsNumber.apart {c : UInt8} (part : isIdentPart c = true) : peek more 0 ≠ c := by
  intro same
  have plain := ends.1
  rw [same, part] at plain
  cases plain

theorem EndsNumber.leaves : Leaves (peek more 0) := by
  have plain := ends.1
  refine ⟨?_, ends.2.1, ends.apart (by decide), ?_, ends.2.2⟩
  · simp only [isIdentPart, Bool.or_eq_false_iff] at plain
    exact plain.1.2
  · simp [isDurationUnit, ends.apart (c := 0x68) (by decide), ends.apart (c := 0x6D) (by decide),
      ends.apart (c := 0x73) (by decide), ends.apart (c := 0x6E) (by decide),
      ends.apart (c := 0x75) (by decide)]

theorem Numeral.suffix_leaves : Leaves (peek (n.suffix ++ more) 0) ∧
    peek (n.suffix ++ more) 0 ≠ 0x65 ∧ peek (n.suffix ++ more) 0 ≠ 0x45 := by
  rw [Numeral.suffix]
  split
  · exact ⟨ends.leaves, ends.apart (by decide), ends.apart (by decide)⟩
  · rw [List.cons_append, peek_zero]
    decide

theorem Numeral.scaled_leaves : Leaves (peek (n.scaled ++ (n.suffix ++ more)) 0) := by
  rw [Numeral.scaled]
  split
  · exact (n.suffix_leaves ends).1
  · rw [List.cons_append, peek_zero]
    decide

theorem Numeral.lexPrecision_suffix : lexPrecision (n.suffix ++ more) = n.prec := by
  rw [Numeral.suffix, lexPrecision]
  cases found : n.prec with
  | nil =>
    have none : peek more 0 ≠ 0x70 := ends.apart (by decide)
    simp [none]
  | cons c rest =>
    have digits := n.prec_digits
    rw [found] at digits
    have first : isDigit c = true := digits c (by simp)
    have run : (c :: rest ++ more).takeWhile isDigit = c :: rest := by
      apply takeWhile_digits digits
      intro d head
      have stops := ends.leaves.1
      rw [peek, List.getD_eq_getElem?_getD, ← List.head?_eq_getElem?, head] at stops
      simpa using stops
    simp only [List.isEmpty_cons, Bool.false_eq_true, if_false, List.cons_append, peek_zero,
      peek_succ, first, and_self, if_true, List.drop_succ_cons, List.drop_zero]
    exact run

theorem Numeral.pastFraction_eq
    (behind : s.drop at_ = n.pointed ++ (n.scaled ++ (n.suffix ++ more))) :
    hasFraction s at_ = !n.fraction.isEmpty ∧ pastFraction s at_ = at_ + n.pointed.length := by
  have here := peek_at behind 0
  have next := peek_at behind 1
  have leaves := n.scaled_leaves ends
  rw [Nat.add_zero] at here
  rw [pastFraction, hasFraction, here, next]
  rw [Numeral.pointed] at behind ⊢
  cases found : n.fraction with
  | nil =>
    have point := leaves.2.2.1
    simp [point]
  | cons c rest =>
    have digits := n.fraction_digits
    rw [found] at digits behind
    have first : isDigit c = true := digits c (by simp)
    have after : s.drop (at_ + 1) = c :: rest ++ (n.scaled ++ (n.suffix ++ more)) := by
      rw [← List.drop_drop, behind]
      rfl
    have past := (pastDigits_eq after digits leaves.1).1
    simp [first, past]
    omega

theorem Numeral.pastExponent_eq (behind : s.drop at_ = n.scaled ++ (n.suffix ++ more)) :
    pastExponent s (pastPoint s at_) = at_ + n.scaled.length := by
  have here := peek_at behind 0
  have next := peek_at behind 1
  rw [Nat.add_zero] at here
  have noPoint : peek s at_ ≠ 0x2E := by
    rw [here]
    exact (n.scaled_leaves ends).2.2.1
  obtain ⟨leaves, small, capital⟩ := n.suffix_leaves ends
  rw [pastPoint, if_neg noPoint, pastExponent, here, next]
  rw [Numeral.scaled] at behind ⊢
  cases found : n.exponent with
  | none => simp [small, capital]
  | some e =>
    obtain ⟨negative, digits⟩ := e
    have all := n.exponent_digits _ found
    rw [found] at behind
    have after : s.drop (at_ + 2) = digits ++ (n.suffix ++ more) := by
      rw [← List.drop_drop, behind]
      rfl
    have past := (pastDigits_eq after all leaves.1).1
    cases negative
    · simp [past]
      omega
    · simp [past]
      omega

end

theorem Numeral.scanMagnitude_eq (n : Numeral) (ends : EndsNumber more) :
    scanMagnitude n.minus (n.literal ++ (n.suffix ++ more)) n.sign.length =
      scanNumberToken n.kind (n.literal ++ (n.suffix ++ more)) n.literal.length := by
  generalize opens : n.literal ++ (n.suffix ++ more) = s
  have behind : s.drop n.sign.length =
      n.whole ++ (n.pointed ++ (n.scaled ++ (n.suffix ++ more))) := by
    rw [← opens, Numeral.literal]
    simp
  have leaves := n.scaled_leaves ends
  have stops : isDigit (peek (n.pointed ++ (n.scaled ++ (n.suffix ++ more))) 0) = false ∧
      peek (n.pointed ++ (n.scaled ++ (n.suffix ++ more))) 0 ≠ 0x2D := by
    rw [Numeral.pointed]
    split
    · exact ⟨leaves.1, leaves.2.1⟩
    · rw [List.cons_append, peek_zero]
      decide
  obtain ⟨past, behindWhole⟩ := pastDigits_eq behind n.whole_digits stops.1
  obtain ⟨hasFraction_, pastFraction_⟩ := n.pastFraction_eq ends behindWhole
  have behindFraction : s.drop (n.sign.length + n.whole.length + n.pointed.length) =
      n.scaled ++ (n.suffix ++ more) := by
    rw [← List.drop_drop, behindWhole, List.drop_left]
  have here := peek_at behindFraction 0
  have notDate := peek_at behindWhole 0
  have unit : atDurationUnit (s.drop (n.sign.length + n.whole.length + n.pointed.length)) = false := by
    rw [behindFraction]
    exact leaves.unit
  have width : n.sign.length + n.whole.length + n.pointed.length + n.scaled.length =
      n.literal.length := by
    simp only [Numeral.literal, List.length_append]
    omega
  rw [Nat.add_zero] at here notDate
  rw [scanMagnitude]
  simp only [past, pastFraction_, hasFraction_, unit, Bool.false_eq_true, if_false]
  rw [if_neg (by simp [notDate, stops.2]), here, scanFloat, n.pastExponent_eq ends behindFraction, width]
  obtain ⟨-, small, capital⟩ := n.suffix_leaves ends
  have point := leaves.2.2.1
  rw [Numeral.kind]
  rw [Numeral.scaled] at point width ⊢
  cases found : n.exponent with
  | none =>
    simp only [found, List.length_nil, Nat.add_zero] at width
    simp only [found, List.nil_append] at point
    simp only [List.nil_append, small, capital, point, width]
    cases n.fraction <;> simp
  | some e =>
    obtain ⟨negative, digits⟩ := e
    simp

theorem Numeral.scan_eq (n : Numeral) (ends : EndsNumber more) (tolerant : Bool) (limit : Nat) :
    scan tolerant limit (n.literal ++ (n.suffix ++ more)) =
      { kind := n.kind, value := n.literal, prec := n.prec,
        width := n.literal.length + n.suffix.length } := by
  have number : scan tolerant limit (n.literal ++ (n.suffix ++ more)) =
      scanMagnitude n.minus (n.literal ++ (n.suffix ++ more)) n.sign.length := by
    obtain ⟨c, digits, starts⟩ := List.exists_cons_of_ne_nil n.nonempty
    have digit : isDigit c = true := n.whole_digits c (by simp [starts])
    rw [Numeral.literal, Numeral.sign, starts]
    cases n.minus with
    | false => exact scan_digit digit ..
    | true => exact scan_minus digit ..
  rw [number, n.scanMagnitude_eq ends, scanNumberToken, List.drop_left, n.lexPrecision_suffix ends,
    List.take_left, Numeral.suffix]
  cases n.prec with
  | nil => rfl
  | cons c rest =>
    simp only [List.isEmpty_cons, Bool.false_eq_true, if_false, List.length_cons]
    rw [Nat.add_assoc, Nat.add_comm 1]

theorem Numeral.next_eq (n : Numeral) {l : Lexer} (opens : l.rest = n.literal ++ (n.suffix ++ more))
    (ends : EndsNumber more) :
    l.next.1.kind = n.kind ∧ l.next.1.value = n.literal ∧ l.next.1.prec = n.prec ∧
      l.next.2.1.rest = more ∧ l.next.2.2 = [] := by
  have start : ∃ c after, n.literal ++ (n.suffix ++ more) = c :: after ∧ isSpace c = false := by
    obtain ⟨c, digits, starts⟩ := List.exists_cons_of_ne_nil n.nonempty
    have digit : isDigit c = true := n.whole_digits c (by simp [starts])
    rw [Numeral.literal, Numeral.sign, starts]
    cases n.minus with
    | false => exact ⟨c, _, rfl, (digit_apart digit []).1⟩
    | true => exact ⟨0x2D, _, rfl, by decide⟩
  obtain ⟨c, after, starts, notSpace⟩ := start
  have token := n.scan_eq ends l.tolerant l.maxBytesLiteral
  rw [starts] at opens token
  rw [Lexer.next_scan opens notSpace, token]
  refine ⟨rfl, rfl, rfl, ?_, rfl⟩
  rw [Lexer.rest_advance, opens, ← starts, ← List.drop_drop, List.drop_left, List.drop_left]

end Protowire.Pxf
