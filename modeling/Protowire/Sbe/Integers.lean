import Protowire.Sbe.View

/-!
Integers as the 64 bits that carry them. The value of a field and the value on the wire both travel
as the bits of a uint64 or of an int64, with a note of which, and the checks compare those bits.
They come to the checks on the integers themselves, and these skip nothing that could fail.
-/

namespace Protowire.Sbe

open Support

variable {kind : Kind} {fd : FieldDescriptor} {msg : Message} {p : Primitive} {bytes : Bytes}

/-- `InRange` of an integer held as the bits of a uint64, or of an int64. -/
def bitsInRange (v : Nat) (isUnsigned : Bool) (lo hi : Int) : Bool :=
  if !isUnsigned && asSigned 64 v < 0 then lo ≤ asSigned 64 v else v ≤ hi

def intString (v : Nat) (isUnsigned : Bool) : Bytes :=
  if isUnsigned then signedDecimal v else signedDecimal (asSigned 64 v)

def fieldBits (kind : Kind) (fd : FieldDescriptor) (msg : Message) : Nat × Bool :=
  match kind.cppType with
  | .bool => (if msg.getBool fd then 1 else 0, true)
  | .uint32 | .uint64 => (asUnsigned 64 (msg.getInt fd), true)
  | _ => (asUnsigned 64 (msg.getInt fd), false)

/-- `WriteScalar` with an integer primitive. -/
def writeInteger (fd : FieldDescriptor) (kind : Kind) (size : Nat) (encoding : Primitive)
    (msg : Message) : Except Problem Bytes :=
  let rg := rangeOf kind encoding
  let (v, isUnsigned) := fieldBits kind fd msg
  if rg.writeCheck && !bitsInRange v isUnsigned rg.encLo rg.encHi then
    .error (.stated (text "sbe: field " ++ fd.fullName ++ text ": value " ++
      intString v isUnsigned ++ text " is outside the range of " ++ encoding.encodingName ++
      text ", [" ++ signedDecimal rg.encLo ++ text ", " ++ signedDecimal rg.encHi ++ text "]"))
  else .ok (toLittle size v)

def signExtended (size bits : Nat) : Nat :=
  if size = 1 then asUnsigned 64 (asSigned 8 bits)
  else if size = 2 then asUnsigned 64 (asSigned 16 bits)
  else if size = 4 then asUnsigned 64 (asSigned 32 bits)
  else bits

/-- `DecodeScalarField` with an integer primitive. -/
def decodeInteger (fd : FieldDescriptor) (kind : Kind) (encoding : Primitive) (bytes : Bytes) :
    Except Problem Scalar :=
  let rg := rangeOf kind encoding
  let bits := if rg.encSigned then signExtended bytes.length (ofLittle bytes) else ofLittle bytes
  if rg.readCheck && !bitsInRange bits (!rg.encSigned) rg.fieldLo rg.fieldHi then
    .error (.stated (text "sbe: field " ++ fd.fullName ++ text ": wire value " ++
      intString bits (!rg.encSigned) ++ text " (" ++ encoding.encodingName ++
      text ") does not fit a " ++ kind.typeName ++ text " field, [" ++ signedDecimal rg.fieldLo ++
      text ", " ++ signedDecimal rg.fieldHi ++ text "]"))
  else .ok (storedInteger kind bits)

def carried (v : Nat) (isUnsigned : Bool) : Int := if isUnsigned then v else asSigned 64 v

theorem bitsInRange_eq {v : Nat} (small : v < 2 ^ 64) (isUnsigned : Bool) (lo hi : Int) :
    bitsInRange v isUnsigned lo hi = inRange (carried v isUnsigned) lo hi := by
  cases isUnsigned with
  | true =>
    have nonneg : ¬ (v : Int) < 0 := by omega
    simp [bitsInRange, inRange, carried, nonneg]
  | false =>
    by_cases negative : asSigned 64 v < 0
    · simp [bitsInRange, inRange, carried, negative]
    · have same : asSigned 64 v = v := by
        have read := asSigned_of_lt (by decide) small
        split at read <;> omega
      simp [bitsInRange, inRange, carried, same]

theorem intString_eq (v : Nat) (isUnsigned : Bool) :
    intString v isUnsigned = signedDecimal (carried v isUnsigned) := by
  cases isUnsigned <;> simp [intString, carried]

theorem fieldBits_carried (integer : kind.isInteger = true) (admits : kind.Admits fd msg) :
    (fieldBits kind fd msg).1 = asUnsigned 64 (integerOf kind fd msg) ∧
      carried (fieldBits kind fd msg).1 (fieldBits kind fd msg).2 = integerOf kind fd msg := by
  have range := integerOf_range integer admits
  have signed {v : Int} (low : -2 ^ 63 ≤ v) (high : v ≤ 2 ^ 63 - 1) :
      asSigned 64 (asUnsigned 64 v) = v :=
    asSigned_asUnsigned (by decide) (by decide) ⟨low, by omega⟩
  have unsigned {v : Int} (low : 0 ≤ v) (high : v ≤ 2 ^ 64 - 1) : (asUnsigned 64 v : Int) = v := by
    rw [asUnsigned_cast]
    exact Int.emod_eq_of_lt low (by omega)
  cases kind
  case double | float | string | bytes => cases integer
  case bool =>
    simp only [fieldBits, integerOf, Kind.cppType, carried]
    cases msg.getBool fd <;> decide
  case uint32 | uint64 | fixed32 | fixed64 =>
    simp only [fieldBits, integerOf, Kind.cppType, carried, fieldRange, if_true] at range ⊢
    exact ⟨trivial, unsigned range.1 (by omega)⟩
  all_goals
    simp only [fieldBits, integerOf, Kind.cppType, carried, fieldRange, Bool.false_eq_true,
      if_false] at range ⊢
    exact ⟨trivial, signed (by omega) (by omega)⟩

theorem writeInteger_eq {size : Nat} (integer : kind.isInteger = true) (number : p.isInt = true)
    (admits : kind.Admits fd msg) :
    writeInteger fd kind size p msg = scalarBytes fd kind size p msg := by
  obtain ⟨bits, value⟩ := fieldBits_carried integer admits
  have small : (fieldBits kind fd msg).1 < 2 ^ 64 := by
    rw [bits]
    exact asUnsigned_lt 64 _
  have checked (lo hi : Int) := bitsInRange_eq small (fieldBits kind fd msg).2 lo hi
  simp only [writeInteger, checked, intString_eq, value]
  rw [bits]
  cases p
  case float | double | char => cases number
  all_goals rfl

theorem scalarBytes_iff {size : Nat} (integer : kind.isInteger = true) (number : p.isInt = true)
    (admits : kind.Admits fd msg) :
    (∃ bytes, scalarBytes fd kind size p msg = .ok bytes) ↔
      p.range.1 ≤ integerOf kind fd msg ∧ integerOf kind fd msg ≤ p.range.2 := by
  constructor
  · rintro ⟨bytes, written⟩
    exact scalarBytes_range integer number admits written
  · intro within
    have inside := (inRange_iff (range_zero p).1 (range_zero p).2).mpr within
    have range := rangeOf_int kind number
    cases p
    case float | double | char => cases number
    all_goals
      simp only [scalarBytes, range, inside, Bool.not_true, Bool.and_false, Bool.false_eq_true,
        if_false]
      exact ⟨_, rfl⟩

theorem wireBits (number : p.isInt = true) (whole : bytes.length = p.width) :
    (if p.isSigned then signExtended bytes.length (ofLittle bytes) else ofLittle bytes) =
        asUnsigned 64 (loadInteger p bytes) ∧
      carried (asUnsigned 64 (loadInteger p bytes)) (!p.isSigned) = loadInteger p bytes := by
  have range := loadInteger_range number whole
  have small : ofLittle bytes < 2 ^ 64 := by
    have wide : 256 ^ p.width ≤ 2 ^ 64 := by cases p <;> decide
    exact Nat.lt_of_lt_of_le (whole ▸ ofLittle_lt bytes) wide
  cases signed : p.isSigned with
  | false =>
    have value : loadInteger p bytes = ofLittle bytes := by simp [loadInteger, signed]
    have same : asUnsigned 64 (ofLittle bytes) = ofLittle bytes := by
      have cast := asUnsigned_cast 64 (ofLittle bytes)
      omega
    rw [value, same]
    exact ⟨if_neg Bool.false_ne_true, if_pos rfl⟩
  | true =>
    have fits : FitsSigned 64 (loadInteger p bytes) := by
      revert range
      cases p <;> simp_all [FitsSigned, Primitive.range, Primitive.width, Primitive.isSigned] <;> omega
    refine ⟨?_, ?_⟩
    · have wide := asUnsigned_asSigned small
      simp only [if_true, loadInteger, signed, whole]
      cases p
      case int8 | int16 | int32 | int64 => simp [Primitive.width, signExtended, wide]
      all_goals cases signed
    · simp only [carried, Bool.not_true, Bool.false_eq_true, if_false]
      exact asSigned_asUnsigned (by decide) (by decide) fits

theorem storedInteger_wrap (kind : Kind) {v : Int} (low : -2 ^ 63 ≤ v) (high : v ≤ 2 ^ 64 - 1) :
    storedInteger kind (asUnsigned 64 v) = storedInteger kind v := by
  have signed (bits : Nat) (fits : bits ≤ 64) : asSigned bits (asUnsigned 64 v) = asSigned bits v := by
    have divides : (2 : Int) ^ bits ∣ 2 ^ 64 := pow_dvd_pow 2 fits
    simp only [asSigned, Int.bmod_def, asUnsigned_cast, Nat.cast_pow, Nat.cast_ofNat,
      Int.emod_emod_of_dvd _ divides]
  have unsigned (bits : Nat) (fits : bits ≤ 64) :
      asUnsigned bits (asUnsigned 64 v) = asUnsigned bits v := by
    rw [asUnsigned, asUnsigned_cast, asUnsigned,
      Int.emod_emod_of_dvd _ (pow_dvd_pow 2 fits)]
  have zero : asUnsigned 64 v = 0 ↔ v = 0 := by
    have cast := asUnsigned_cast 64 v
    omega
  unfold storedInteger
  cases kind.cppType <;> simp [signed, unsigned, zero]

theorem decodeInteger_eq (fd : FieldDescriptor) (kind : Kind) (number : p.isInt = true)
    (whole : bytes.length = p.width) :
    decodeInteger fd kind p bytes = decodeScalar fd kind p bytes := by
  obtain ⟨bits, value⟩ := wireBits number whole
  have range := loadInteger_range number whole
  have low : -2 ^ 63 ≤ p.range.1 := by cases p <;> decide
  have high : p.range.2 ≤ 2 ^ 64 - 1 := by cases p <;> decide
  have stored := storedInteger_wrap kind (by omega : -2 ^ 63 ≤ loadInteger p bytes) (by omega)
  have checked (lo hi : Int) := bitsInRange_eq (asUnsigned_lt 64 (loadInteger p bytes))
    (!p.isSigned) lo hi
  simp only [decodeInteger, rangeOf_int kind number, bits, checked, intString_eq, value, stored]
  cases p
  case float | double | char => cases number
  all_goals rfl

theorem decodeScalar_iff (fd : FieldDescriptor) (integer : kind.isInteger = true)
    (number : p.isInt = true) (whole : bytes.length = p.width) :
    (kind = .bool → decodeScalar fd kind p bytes = .ok (.bool (loadInteger p bytes ≠ 0))) ∧
      (kind ≠ .bool →
        ((fieldRange kind).1 ≤ loadInteger p bytes ∧ loadInteger p bytes ≤ (fieldRange kind).2 →
          decodeScalar fd kind p bytes = .ok (.int (loadInteger p bytes))) ∧
        (¬ ((fieldRange kind).1 ≤ loadInteger p bytes ∧ loadInteger p bytes ≤ (fieldRange kind).2) →
          ∃ problem, decodeScalar fd kind p bytes = .error problem)) := by
  refine ⟨?_, fun notBool => ⟨fun within => ?_, fun outside => ?_⟩⟩
  · rintro rfl
    have unchecked : (rangeOf .bool p).readCheck = false := by rw [rangeOf_int .bool number]; rfl
    cases p
    case float | double | char => cases number
    all_goals
      simp only [decodeScalar, unchecked, Bool.false_and, Bool.false_eq_true, if_false]
      rfl
  · have inside := (inRange_iff (fieldRange_zero kind).1 (fieldRange_zero kind).2).mpr within
    rw [decodeScalar_int number inside, storedInteger_of_range integer notBool within.1 within.2]
  · cases read : decodeScalar fd kind p bytes with
    | error problem => exact ⟨problem, rfl⟩
    | ok value => exact absurd ((decodeScalar_int_ok number whole read).2 notBool) outside

theorem drops_iff {info : FieldInfo} {value : Scalar} :
    (FieldDescriptor.scalar info kind).drops value = true ↔
      kind = .enum ∧ ∃ declared number, info.closed = some declared ∧ value = .int number ∧
        number ∉ declared := by
  by_cases enum : kind = .enum
  · subst enum
    cases value with
    | int number => cases closed : info.closed <;> simp [FieldDescriptor.drops, closed]
    | _ => simp [FieldDescriptor.drops]
  · simp [drops_number enum, enum]

theorem decodeLeaf_int {info : FieldInfo} {kind : Kind} {p : Primitive} {offset size : Nat}
    (block : Bytes) (msg : Message) :
    decodeLeaf (.mk (.scalar info kind) offset size (some p) []) block msg =
      (decodeScalar (.scalar info kind) kind p (subspan block offset size)).map
        (msg.setScalar (.scalar info kind)) := by
  change (decodeScalar _ kind p (subspan block offset size) >>= _) = _
  cases decodeScalar (.scalar info kind) kind p (subspan block offset size) <;> rfl

/-- Integers are never changed on the way: what a primitive can hold is written and comes back, and
what is on the wire is stored as it is or refused, which it is where the field cannot hold it. Only
a number that a closed enum does not declare is neither stored nor refused. -/
theorem integers_exact {info : FieldInfo} {kind : Kind} {p : Primitive} {size : Nat}
    (integer : kind.isInteger = true) (allowed : fieldEncodingSize info kind = .ok (p, size)) :
    (∀ msg, kind.Admits (.scalar info kind) msg →
      scalarBytes (.scalar info kind) kind size p msg =
          writeInteger (.scalar info kind) kind size p msg ∧
        ((∃ bytes, writeInteger (.scalar info kind) kind size p msg = .ok bytes) ↔
          p.range.1 ≤ integerOf kind (.scalar info kind) msg ∧
            integerOf kind (.scalar info kind) msg ≤ p.range.2) ∧
        ∀ bytes, writeInteger (.scalar info kind) kind size p msg = .ok bytes →
          decodeInteger (.scalar info kind) kind p bytes =
              .ok (kept (.scalar info kind) kind size p msg) ∧
            (FieldDescriptor.scalar info kind).drops (kept (.scalar info kind) kind size p msg) =
              false) ∧
    (∀ bytes, bytes.length = size →
      decodeScalar (.scalar info kind) kind p bytes =
          decodeInteger (.scalar info kind) kind p bytes ∧
        (kind = .bool → decodeInteger (.scalar info kind) kind p bytes =
          .ok (.bool (loadInteger p bytes ≠ 0))) ∧
        (kind ≠ .bool →
          ((fieldRange kind).1 ≤ loadInteger p bytes ∧
              loadInteger p bytes ≤ (fieldRange kind).2 →
            decodeInteger (.scalar info kind) kind p bytes = .ok (.int (loadInteger p bytes))) ∧
          (¬ ((fieldRange kind).1 ≤ loadInteger p bytes ∧
              loadInteger p bytes ≤ (fieldRange kind).2) →
            ∃ problem, decodeInteger (.scalar info kind) kind p bytes = .error problem))) ∧
    ∀ offset block msg,
      decodeLeaf (.mk (.scalar info kind) offset size (some p) []) block msg =
          (decodeScalar (.scalar info kind) kind p (subspan block offset size)).map
            (msg.setScalar (.scalar info kind)) ∧
        ∀ value, ((FieldDescriptor.scalar info kind).drops value = false →
            (msg.setScalar (.scalar info kind) value).scalar info.number = some value) ∧
          ((FieldDescriptor.scalar info kind).drops value = true →
            msg.setScalar (.scalar info kind) value = msg) ∧
          ((FieldDescriptor.scalar info kind).drops value = true ↔
            kind = .enum ∧ ∃ declared number, info.closed = some declared ∧ value = .int number ∧
              number ∉ declared) := by
  have taken := fieldEncodingSize_takes allowed
  obtain ⟨number, rfl⟩ := takes_integer integer taken
  refine ⟨fun msg admits => ?_, fun bytes whole => ?_, fun offset block msg => ?_⟩
  · rw [writeInteger_eq integer number admits]
    refine ⟨rfl, scalarBytes_iff integer number admits, fun bytes written => ?_⟩
    have length : bytes.length = p.width := by
      rw [(scalarBytes_int number written).2, length_toLittle]
    rw [decodeInteger_eq _ kind number length]
    exact ⟨integer_restored integer taken admits written, drops_kept admits (.of_eq rfl)⟩
  · rw [decodeInteger_eq _ kind number whole]
    exact ⟨rfl, decodeScalar_iff _ integer number whole⟩
  · refine ⟨decodeLeaf_int block msg, fun value => ⟨fun keeps => ?_, fun drops => ?_, ?_⟩⟩
    · exact (Message.setScalar_keeps msg keeps).2.1
    · exact Message.setScalar_drops msg drops
    · exact drops_iff

def shortPrice : FieldInfo where
  name := text "px"
  fullName := text "m.px"
  number := 1
  encoding := some (text "int16")

theorem integers_exact_short :
    decodeLeaf (.mk (.scalar shortPrice .sint64) 0 2 (some .int16) []) [0xFE, 0xFF] .fresh =
      .ok (Message.fresh.setScalar (.scalar shortPrice .sint64) (.int (-2))) := by
  have allowed : fieldEncodingSize shortPrice .sint64 = .ok (.int16, 2) := rfl
  have value : loadInteger .int16 [0xFE, 0xFF] = -2 := by decide
  obtain ⟨-, bytes, leaf⟩ := integers_exact rfl allowed
  obtain ⟨same, -, read⟩ := bytes [0xFE, 0xFF] rfl
  have read := (read (by decide)).1
  rw [value] at read
  rw [(leaf 0 [0xFE, 0xFF] .fresh).1]
  change (decodeScalar _ _ _ [0xFE, 0xFF]).map _ = _
  rw [same, read (by decide)]
  rfl

theorem integers_dropped :
    Codec.new [sampleFile (some [0, 1])] = .ok (sampleCodec (some [0, 1])) ∧
      ∃ back, (sampleCodec (some [0, 1])).unmarshal (text "Sample") [1, 0, 8, 0, 2, 0, 0, 0, 5]
        .fresh = .ok back ∧ back.scalar 1 = none :=
  ⟨rfl, _, rfl, by decide⟩

end Protowire.Sbe
