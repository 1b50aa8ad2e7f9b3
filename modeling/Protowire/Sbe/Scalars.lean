import Protowire.Detail.FloatConvert
import Protowire.Detail.Utf8
import Protowire.Sbe.Template

/-!
A scalar field through its primitive and back. Integers and bools come back as they were, floats as
well unless they are NaNs; a double kept in a float is rounded, and a text is cut to its length.
-/

namespace Protowire.Sbe

open Support

variable {p : Primitive} {v : Int} {fd : FieldDescriptor} {kind : Kind} {size : Nat} {msg : Message}
  {bytes : Bytes}

/-- What the value of a field satisfies by its type: a closed enum holds only what it declares. -/
def Kind.Admits (kind : Kind) (fd : FieldDescriptor) (msg : Message) : Prop :=
  match kind.cppType with
  | .string => kind = .string → isValidUTF8 (msg.getString fd) = true
  | .float | .double | .bool => True
  | _ => (fieldRange kind).1 ≤ msg.getInt fd ∧ msg.getInt fd ≤ (fieldRange kind).2 ∧
    fd.drops (.int (msg.getInt fd)) = false

def wholeCharacters (s : Bytes) : Nat → Bytes
  | 0 => []
  | size + 1 =>
    if isValidUTF8 (s.take (size + 1)) then s.take (size + 1) else wholeCharacters s size

def padded (s : Bytes) (size : Nat) : Bytes := s.take size ++ List.replicate (size - s.length) 0

def kept (fd : FieldDescriptor) (kind : Kind) (size : Nat) (encoding : Primitive) (msg : Message) :
    Scalar :=
  match kind.cppType with
  | .string =>
    if kind = .string then .bytes (trimmed (wholeCharacters (msg.getString fd) size))
    else .bytes (padded (msg.getString fd) size)
  | .float => .float (msg.getFloat fd)
  | .double =>
    if encoding = .float then .double (widen (narrow (msg.getDouble fd)))
    else .double (msg.getDouble fd)
  | .bool => .bool (msg.getBool fd)
  | _ => .int (msg.getInt fd)

def Scalar.Same : Scalar → Scalar → Prop
  | .float a, .float b => a = b ∨ Binary32.isNaN a = true ∧ Binary32.isNaN b = true
  | a, b => a = b

theorem Scalar.Same.of_eq {a b : Scalar} (eq : a = b) : a.Same b := by
  subst eq
  cases a <;> simp [Scalar.Same]

theorem asSigned_mod (bits n : Nat) : asSigned bits ((n % 2 ^ bits : Nat) : Int) = asSigned bits n := by
  rw [asSigned, asSigned, Int.natCast_emod, Int.emod_bmod]

theorem loadInteger_toLittle (number : p.isInt = true) (low : p.range.1 ≤ v) (high : v ≤ p.range.2) :
    loadInteger p (toLittle p.width (asUnsigned 64 v)) = v := by
  have wide : 8 * p.width ≤ 64 := by cases p <;> decide
  have positive : 0 < 8 * p.width := by revert number; cases p <;> decide
  have bytes : (256 : Nat) ^ p.width = 2 ^ (8 * p.width) := by
    rw [Nat.pow_mul]
  rw [loadInteger, length_toLittle, ofLittle_toLittle, bytes]
  rw [Primitive.range] at low high
  split
  · rename_i signed
    rw [if_pos signed] at low high
    rw [asSigned_mod]
    exact asSigned_asUnsigned positive wide ⟨low, by simp only at high; omega⟩
  · rename_i unsigned
    rw [if_neg unsigned] at low high
    have below : (2 : Int) ^ (8 * p.width) ≤ 2 ^ 64 := by
      exact_mod_cast Nat.pow_le_pow_right (by decide) wide
    rw [Int.natCast_emod, asUnsigned_cast, Int.emod_eq_of_lt low (by simp only at high; omega)]
    exact Int.emod_eq_of_lt low (by push_cast; simp only at high; omega)

theorem rangeOf_int (kind : Kind) (number : p.isInt = true) :
    rangeOf kind p =
      { encLo := p.range.1, encHi := p.range.2
        fieldLo := (fieldRange kind).1, fieldHi := (fieldRange kind).2
        encSigned := p.isSigned
        writeCheck := (fieldRange kind).1 < p.range.1 || (fieldRange kind).2 > p.range.2
        readCheck := kind ≠ .bool &&
          (p.range.1 < (fieldRange kind).1 || p.range.2 > (fieldRange kind).2) } := by
  cases p <;> first | rfl | cases number

theorem scalarBytes_int (number : p.isInt = true)
    (written : scalarBytes fd kind size p msg = .ok bytes) :
    ((rangeOf kind p).writeCheck &&
        !inRange (integerOf kind fd msg) (rangeOf kind p).encLo (rangeOf kind p).encHi) = false ∧
      bytes = toLittle size (asUnsigned 64 (integerOf kind fd msg)) := by
  cases p <;> simp only [scalarBytes] at written
  case float => cases number
  case double => cases number
  case char => cases number
  all_goals
    split at written
    · cases written
    · rename_i admitted
      cases written
      exact ⟨by simpa using admitted, rfl⟩

theorem decodeScalar_int (number : p.isInt = true)
    (admitted : inRange (loadInteger p bytes) (fieldRange kind).1 (fieldRange kind).2 = true) :
    decodeScalar fd kind p bytes = .ok (storedInteger kind (loadInteger p bytes)) := by
  have range := rangeOf_int kind number
  cases p <;> simp only [decodeScalar, range, admitted, Bool.not_true, Bool.and_false]
  case float => cases number
  case double => cases number
  case char => cases number
  all_goals rfl

def Kind.isInteger (kind : Kind) : Bool :=
  match kind.cppType with
  | .string | .float | .double => false
  | _ => true

theorem fieldRange_zero (kind : Kind) : (fieldRange kind).1 ≤ 0 ∧ 0 ≤ (fieldRange kind).2 := by
  cases kind <;> decide

theorem range_zero (p : Primitive) : p.range.1 ≤ 0 ∧ 0 ≤ p.range.2 := by
  cases p <;> decide

theorem inRange_iff {lo hi : Int} (low : lo ≤ 0) (high : 0 ≤ hi) :
    inRange v lo hi = true ↔ lo ≤ v ∧ v ≤ hi := by
  rw [inRange]
  split <;> simp <;> omega

theorem integerOf_range (integer : kind.isInteger = true) (admits : kind.Admits fd msg) :
    (fieldRange kind).1 ≤ integerOf kind fd msg ∧ integerOf kind fd msg ≤ (fieldRange kind).2 := by
  unfold Kind.Admits at admits
  unfold integerOf
  cases type : kind.cppType <;> simp only [Kind.isInteger, type] at integer admits ⊢
  case bool =>
    have range : fieldRange kind = (0, 1) := by
      revert type
      cases kind <;> decide
    rw [range]
    cases msg.getBool fd <;> decide
  case string => cases integer
  case float => cases integer
  case double => cases integer
  all_goals exact ⟨admits.1, admits.2.1⟩

theorem storedInteger_of_range (integer : kind.isInteger = true) (notBool : kind ≠ .bool)
    (low : (fieldRange kind).1 ≤ v) (high : v ≤ (fieldRange kind).2) :
    storedInteger kind v = .int v := by
  cases type : kind.cppType <;> simp only [Kind.isInteger, storedInteger, type] at integer ⊢
  case bool =>
    have bool : kind = .bool := by
      revert type
      cases kind <;> decide
    contradiction
  case string => cases integer
  case float => cases integer
  case double => cases integer
  case int32 | enum =>
    have bounds : fieldRange kind = (-2 ^ 31, 2 ^ 31 - 1) := by
      revert type
      cases kind <;> decide
    rw [bounds] at low high
    rw [asSigned_self (by decide) ⟨by simpa using low, by simp only at high ⊢; omega⟩]
  case int64 =>
    have bounds : fieldRange kind = (-2 ^ 63, 2 ^ 63 - 1) := by
      revert type
      cases kind <;> decide
    rw [bounds] at low high
    rw [asSigned_self (by decide) ⟨by simpa using low, by simp only at high ⊢; omega⟩]
  case uint32 =>
    have bounds : fieldRange kind = (0, 2 ^ 32 - 1) := by
      revert type
      cases kind <;> decide
    rw [bounds] at low high
    rw [asUnsigned_cast, Int.emod_eq_of_lt low (by simp only at high ⊢; omega)]
  case uint64 =>
    have bounds : fieldRange kind = (0, 2 ^ 64 - 1) := by
      revert type
      cases kind <;> decide
    rw [bounds] at low high
    rw [asUnsigned_cast, Int.emod_eq_of_lt low (by simp only at high ⊢; omega)]

theorem storedInteger_integerOf (integer : kind.isInteger = true) (admits : kind.Admits fd msg)
    (size : Nat) (p : Primitive) :
    storedInteger kind (integerOf kind fd msg) = kept fd kind size p msg := by
  have range := integerOf_range integer admits
  by_cases bool : kind = .bool
  · subst bool
    simp only [storedInteger, integerOf, kept, Kind.cppType]
    by_cases held : msg.getBool fd = true <;> simp [held]
  · rw [storedInteger_of_range integer bool range.1 range.2]
    revert integer bool
    cases kind <;> simp [Kind.isInteger, Kind.cppType, integerOf, kept]

theorem scalarBytes_range (integer : kind.isInteger = true) (number : p.isInt = true)
    (admits : kind.Admits fd msg) (written : scalarBytes fd kind size p msg = .ok bytes) :
    p.range.1 ≤ integerOf kind fd msg ∧ integerOf kind fd msg ≤ p.range.2 := by
  have field := integerOf_range integer admits
  have admitted := (scalarBytes_int number written).1
  rw [rangeOf_int kind number] at admitted
  rcases Bool.and_eq_false_iff.mp admitted with unchecked | inside
  · simp only [Bool.or_eq_false_iff, decide_eq_false_iff_not] at unchecked
    omega
  · exact (inRange_iff (range_zero p).1 (range_zero p).2).mp (by simpa using inside)

theorem takes_integer (integer : kind.isInteger = true) (taken : kind.takes p size = true) :
    p.isInt = true ∧ size = p.width := by
  revert taken integer
  unfold Kind.takes Kind.isInteger
  cases kind.cppType <;> simp

theorem integer_restored (integer : kind.isInteger = true) (taken : kind.takes p size = true)
    (admits : kind.Admits fd msg) (written : scalarBytes fd kind size p msg = .ok bytes) :
    decodeScalar fd kind p bytes = .ok (kept fd kind size p msg) := by
  obtain ⟨number, rfl⟩ := takes_integer integer taken
  obtain rfl := (scalarBytes_int number written).2
  have field := integerOf_range integer admits
  have primitive := scalarBytes_range integer number admits written
  have loaded := loadInteger_toLittle number primitive.1 primitive.2
  have within : inRange (loadInteger p (toLittle p.width (asUnsigned 64 (integerOf kind fd msg))))
      (fieldRange kind).1 (fieldRange kind).2 = true := by
    rw [loaded, inRange_iff (fieldRange_zero kind).1 (fieldRange_zero kind).2]
    exact field
  rw [decodeScalar_int number within, loaded, storedInteger_integerOf integer admits p.width p]

theorem floatFits_widen (bits : UInt32) : floatFits (widen bits) = true := by
  rw [floatFits, Binary64.isInf, isNaN_widen, magnitude_widen]
  rcases Nat.lt_trichotomy (Binary32.magnitude bits) Binary32.infinity with finite | inf | nan
  · simp [widenMagnitude_le finite]
  · simp [widenMagnitude, inf, Binary64.infinity]
  · have : Binary32.isNaN bits = true := decide_eq_true nan
    simp [this]

theorem same_narrow_widen (bits : UInt32) : Scalar.Same (.float (narrow (widen bits))) (.float bits) := by
  cases number : Binary32.isNaN bits with
  | false => exact .inl (narrow_widen number)
  | true => exact .inr ⟨by rw [isNaN_narrow, isNaN_widen, number], number⟩

theorem Scalar.Same.trans_float {a b c : UInt32} (first : Scalar.Same (.float a) (.float b))
    (second : Scalar.Same (.float b) (.float c)) : Scalar.Same (.float a) (.float c) := by
  rcases first with rfl | ⟨nanA, nanB⟩
  · exact second
  · rcases second with rfl | ⟨_, nanC⟩
    · exact .inr ⟨nanA, nanB⟩
    · exact .inr ⟨nanA, nanC⟩

theorem ofNat_toLittle_four (bits : UInt32) :
    UInt32.ofNat (ofLittle (toLittle 4 bits.toNat)) = bits := by
  rw [ofLittle_toLittle, Nat.mod_eq_of_lt (by exact bits.toNat_lt), UInt32.ofNat_toNat]

theorem ofNat_toLittle_eight (bits : UInt64) :
    UInt64.ofNat (ofLittle (toLittle 8 bits.toNat)) = bits := by
  rw [ofLittle_toLittle, Nat.mod_eq_of_lt (by exact bits.toNat_lt), UInt64.ofNat_toNat]

theorem float_restored (floating : kind.cppType = .float ∨ kind.cppType = .double)
    (taken : kind.takes p size = true) (written : scalarBytes fd kind size p msg = .ok bytes) :
    ∃ value, decodeScalar fd kind p bytes = .ok value ∧
      value.Same (kept fd kind size p msg) := by
  have number : p = .float ∨ p = .double := by
    revert taken
    unfold Kind.takes
    rcases floating with type | type <;> cases p <;> simp [type]
  rcases number with rfl | rfl
  · simp only [scalarBytes] at written
    split at written
    · cases written
    cases written
    simp only [decodeScalar, ofNat_toLittle_four]
    refine ⟨_, rfl, ?_⟩
    rcases floating with type | type
    · simp only [storedDouble, doubleOf, kept, type, if_true]
      exact (same_narrow_widen _).trans_float (same_narrow_widen _)
    · simp only [storedDouble, doubleOf, kept, type, reduceCtorEq, if_false, if_true]
      exact .of_eq rfl
  · cases written
    simp only [decodeScalar, ofNat_toLittle_eight]
    rcases floating with type | type
    · simp only [storedDouble, doubleOf, kept, type, if_true, floatFits_widen, Bool.not_true,
        Bool.and_false]
      exact ⟨_, rfl, same_narrow_widen _⟩
    · have unchecked : (rangeOf kind .double).readCheck = false := by
        revert type
        cases kind <;> decide
      simp only [storedDouble, doubleOf, kept, type, unchecked, reduceCtorEq, if_false,
        Bool.false_and, Bool.false_eq_true]
      exact ⟨_, rfl, .of_eq rfl⟩

theorem trimmed_zeros (s : Bytes) (n : Nat) : trimmed (s ++ List.replicate n 0) = trimmed s := by
  induction n with
  | zero => simp
  | succ n ih =>
    rw [List.replicate_succ', ← List.append_assoc, trimmed, List.rdropWhile_concat_pos _ _ _ (by simp)]
    exact ih

theorem take_characterStart {s : Bytes} (valid : isValidUTF8 s = true) (long : size < s.length) :
    s.take (characterStart s size) = wholeCharacters s size := by
  induction size with
  | zero => rfl
  | succ size ih =>
    have cut := isValidUTF8_take valid long
    rw [characterStart, wholeCharacters]
    split
    · rename_i continues
      rw [if_neg (by rw [cut, ← continues_iff]; exact not_not.mpr continues)]
      exact ih (by omega)
    · rename_i starts
      rw [if_pos (by rwa [cut, ← continues_iff])]

theorem take_cutLength {s : Bytes} (valid : isValidUTF8 s = true) (size : Nat) :
    s.take (cutLength s size true) = wholeCharacters s size := by
  rw [cutLength]
  split
  · rename_i short
    cases size with
    | zero => simp_all [wholeCharacters]
    | succ size =>
      have whole : s.take (size + 1) = s := List.take_of_length_le short
      rw [wholeCharacters, whole, if_pos valid, List.take_length]
  · rename_i long
    exact take_characterStart valid (by omega)

theorem isValidUTF8_wholeCharacters (s : Bytes) (size : Nat) :
    isValidUTF8 (wholeCharacters s size) = true := by
  induction size with
  | zero => rfl
  | succ size ih =>
    rw [wholeCharacters]
    split
    · assumption
    · exact ih

theorem text_restored (type : kind.cppType = .string) (admits : kind.Admits fd msg) :
    decodeScalar fd kind .char (fixedString fd kind size msg) =
      .ok (kept fd kind size .char msg) := by
  simp only [Kind.Admits, type] at admits
  simp only [decodeScalar, kept, type]
  by_cases string : kind = .string
  · have cut := take_cutLength (admits string) size
    have read : trimmed (fixedString fd kind size msg) =
        trimmed (wholeCharacters (msg.getString fd) size) := by
      rw [fixedString, trimmed_zeros]
      simp only [string, decide_true, cut]
    have valid : isValidUTF8 (trimmed (wholeCharacters (msg.getString fd) size)) = true :=
      isValidUTF8_rdropWhile (isValidUTF8_wholeCharacters _ _)
    simp [string] at read ⊢
    simp [read, valid]
  · have cut : fixedString fd kind size msg = padded (msg.getString fd) size := by
      rw [fixedString, padded, cutLength]
      simp only [string, decide_false, Bool.false_eq_true, if_false]
      split
      · rename_i short
        rw [List.take_length, List.take_of_length_le short]
      · rename_i long
        rw [Nat.sub_self, Nat.sub_eq_zero_of_le (by omega)]
    simp [string, cut]

theorem drops_number {info : FieldInfo} (number : kind ≠ .enum) (value : Scalar) :
    (FieldDescriptor.scalar info kind).drops value = false := by
  cases kind <;> first | rfl | contradiction

theorem drops_kept {info : FieldInfo} {value : Scalar} (admits : kind.Admits (.scalar info kind) msg)
    (same : value.Same (kept (.scalar info kind) kind size p msg)) :
    (FieldDescriptor.scalar info kind).drops value = false := by
  by_cases enum : kind = .enum
  · subst enum
    cases value <;> cases same
    exact admits.2.2
  · exact drops_number enum value

theorem scalar_restored {ft : FieldTemplate} {info : FieldInfo} (field : ft.fd = .scalar info kind)
    (encoded : ft.encoding = some p) (taken : kind.takes p ft.size = true)
    (admits : kind.Admits (.scalar info kind) msg) (written : leafBytes ft msg = .ok bytes) :
    ∃ value, decodeScalar (.scalar info kind) kind p bytes = .ok value ∧
      value.Same (kept (.scalar info kind) kind ft.size p msg) := by
  by_cases text : kind.cppType = .string
  · have char : p = .char := by simpa [Kind.takes, text] using taken
    subst char
    rw [leafBytes, field, encoded] at written
    cases written
    exact ⟨_, text_restored text admits, .of_eq rfl⟩
  · have number : scalarBytes (.scalar info kind) kind ft.size p msg = .ok bytes := by
      have notChar := (takes_number text taken).1
      rw [leafBytes, field, encoded] at written
      cases p <;> first | exact written | contradiction
    by_cases floating : kind.cppType = .float ∨ kind.cppType = .double
    · exact float_restored floating taken number
    · have integer : kind.isInteger = true := by
        unfold Kind.isInteger
        revert text floating
        cases kind.cppType <;> simp
      exact ⟨_, integer_restored integer taken admits number, .of_eq rfl⟩

end Protowire.Sbe
