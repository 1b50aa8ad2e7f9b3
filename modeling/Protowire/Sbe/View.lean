import Protowire.Sbe.RoundTrip

/-!
Views against decoding. A view reads a field by its size alone: the first byte of a bool, a signed
integer by the sign of its top bit, a float as the double it is. Decoding goes by the primitive and
the field. The two agree where the bytes leave no such choice, and only there.
-/

namespace Protowire.Sbe

open Support

variable {p : Primitive} {bytes data : Bytes}

def SameDouble (a b : UInt64) : Prop :=
  a = b ∨ Binary64.isNaN a = true ∧ Binary64.isNaN b = true

def ReadsAs (kind : Kind) (fd : FieldDescriptor) (view : View) (msg : Message) : Prop :=
  match kind.cppType with
  | .bool => view.bool fd.name = msg.getBool fd
  | .int32 | .int64 | .enum => view.int fd.name = msg.getInt fd
  | .uint32 | .uint64 => (view.uint fd.name : Int) = msg.getInt fd
  | .float => SameDouble (view.float fd.name) (widen (msg.getFloat fd))
  | .double => SameDouble (view.float fd.name) (msg.getDouble fd)
  | .string =>
    if kind = .string then view.string fd.name = msg.getString fd
    else view.bytes fd.name = msg.getString fd

/-- The bytes of a field that a view reads as decoding does: a true bool has its first byte set, an
unsigned primitive of a signed field or an enum its top bit clear, a double of a float field no
more than a float holds. -/
def PlainScalar (kind : Kind) (p : Primitive) (bytes : Bytes) : Prop :=
  match kind.cppType with
  | .bool => ofLittle bytes ≠ 0 → bytes.getD 0 0 ≠ 0
  | .int32 | .int64 | .enum =>
    p.isSigned = false → ofLittle bytes < 2 ^ (8 * bytes.length - 1)
  | .float =>
    p = .double →
      SameDouble (.ofNat (ofLittle bytes)) (widen (narrow (.ofNat (ofLittle bytes))))
  | _ => True

def viewedDouble (bytes : Bytes) : UInt64 :=
  if bytes.length = 4 then widen (.ofNat (ofLittle bytes))
  else if bytes.length = 8 then .ofNat (ofLittle bytes)
  else 0

/-- The bytes of a field that a view reads as what the field reads as when it is unset. -/
def ReadsUnset (info : FieldInfo) (kind : Kind) (bytes : Bytes) : Prop :=
  let unset := Message.fresh
  match kind.cppType with
  | .bool => decide (bytes.getD 0 0 ≠ 0) = unset.getBool (.scalar info kind)
  | .int32 | .int64 | .enum =>
    asSigned (8 * bytes.length) (ofLittle bytes) = unset.getInt (.scalar info kind)
  | .uint32 | .uint64 => (ofLittle bytes : Int) = unset.getInt (.scalar info kind)
  | .float => SameDouble (viewedDouble bytes) (widen (unset.getFloat (.scalar info kind)))
  | .double => SameDouble (viewedDouble bytes) (unset.getDouble (.scalar info kind))
  | .string =>
    if kind = .string then trimmed bytes = unset.getString (.scalar info kind)
    else bytes = unset.getString (.scalar info kind)

theorem width_bits (length : bytes.length = p.width) : ofLittle bytes < 2 ^ (8 * p.width) := by
  have := ofLittle_lt bytes
  rw [length] at this
  rwa [Nat.pow_mul]

theorem loadInteger_range (number : p.isInt = true) (length : bytes.length = p.width) :
    p.range.1 ≤ loadInteger p bytes ∧ loadInteger p bytes ≤ p.range.2 := by
  have small := width_bits length
  have positive : 0 < 8 * p.width := by revert number; cases p <;> decide
  obtain ⟨half, bits⟩ : ∃ half, 8 * p.width = half + 1 := ⟨8 * p.width - 1, by omega⟩
  have power : (2 : Int) ^ (half + 1) = 2 * 2 ^ half := by rw [pow_succ, mul_comm]
  have cast : ((2 ^ half : Nat) : Int) = 2 ^ half := by simp
  have whole : ((2 ^ (half + 1) : Nat) : Int) = 2 * 2 ^ half := by rw [← power]; simp
  rw [Primitive.range, loadInteger, length]
  rw [bits] at small ⊢
  split
  · rw [asSigned_of_lt (Nat.succ_pos _) small, Nat.add_sub_cancel]
    split <;> simp only <;> omega
  · simp only
    omega

theorem decodeScalar_int_ok {fd : FieldDescriptor} {kind : Kind} {value : Scalar}
    (number : p.isInt = true) (length : bytes.length = p.width)
    (read : decodeScalar fd kind p bytes = .ok value) :
    value = storedInteger kind (loadInteger p bytes) ∧
      (kind ≠ .bool → (fieldRange kind).1 ≤ loadInteger p bytes ∧
        loadInteger p bytes ≤ (fieldRange kind).2) := by
  have within := loadInteger_range number length
  have checked : value = storedInteger kind (loadInteger p bytes) ∧
      ((rangeOf kind p).readCheck &&
        !inRange (loadInteger p bytes) (rangeOf kind p).fieldLo (rangeOf kind p).fieldHi) = false := by
    cases p <;> simp only [decodeScalar] at read
    case float => cases number
    case double => cases number
    case char => cases number
    all_goals
      split at read
      · cases read
      · rename_i admitted
        cases read
        exact ⟨rfl, by simpa using admitted⟩
  refine ⟨checked.1, fun other => ?_⟩
  have admitted := checked.2
  rw [rangeOf_int kind number] at admitted
  rcases Bool.and_eq_false_iff.mp admitted with unchecked | inside
  · simp only [Bool.and_eq_false_iff, Bool.or_eq_false_iff, decide_eq_false_iff_not] at unchecked
    have := unchecked.resolve_left (not_not.mpr other)
    omega
  · exact (inRange_iff (fieldRange_zero kind).1 (fieldRange_zero kind).2).mp (by simpa using inside)

theorem getD_region {view : View} {ft : FieldTemplate} (nonempty : ft.size ≠ 0) :
    (view.region ft).getD 0 0 = view.block.getD ft.offset 0 := by
  obtain ⟨size, sized⟩ := Nat.exists_eq_succ_of_ne_zero nonempty
  rw [View.region, subspan, sized]
  simp [List.getD_eq_getElem?_getD]

theorem ofLittle_head (set_ : bytes.getD 0 0 ≠ 0) : ofLittle bytes ≠ 0 := by
  cases bytes with
  | nil => simp at set_
  | cons b rest =>
    have : b.toNat ≠ 0 := by
      intro zero
      exact set_ (UInt8.toNat_inj.mp zero)
    rw [ofLittle]
    omega

theorem isNumberSize_width (number : p ≠ .char) : View.isNumberSize p.width = true := by
  revert number
  cases p <;> decide

theorem loadInteger_ne_zero (number : p.isInt = true) (length : bytes.length = p.width) :
    loadInteger p bytes ≠ 0 ↔ ofLittle bytes ≠ 0 := by
  have small := width_bits length
  have positive : 0 < 8 * p.width := by revert number; cases p <;> decide
  rw [loadInteger, length]
  split
  · rw [asSigned_of_lt positive small]
    have cast : ((2 ^ (8 * p.width) : Nat) : Int) = 2 ^ (8 * p.width) := by simp
    have half : 0 < 2 ^ (8 * p.width - 1) := Nat.two_pow_pos _
    split <;> omega
  · omega

section Leaf

variable {info : FieldInfo} {kind : Kind} {p : Primitive} {ft : FieldTemplate} {view : View}
  {msg : Message} {value : Scalar}

theorem readsAs_integer_iff (found : view.findField info.name = some ft)
    (integer : kind.isInteger = true) (taken : kind.takes p ft.size = true)
    (length : (view.region ft).length = ft.size)
    (read : decodeScalar (.scalar info kind) kind p (view.region ft) = .ok value)
    (held : msg.held (.scalar info kind) = some value) :
    ReadsAs kind (.scalar info kind) view msg ↔ PlainScalar kind p (view.region ft) := by
  have number : p.isInt = true ∧ ft.size = p.width := by
    revert taken integer
    unfold Kind.takes Kind.isInteger
    cases kind.cppType <;> simp
  obtain ⟨number, sized⟩ := number
  have notChar : p ≠ .char := by
    rintro rfl
    cases number
  have numbered : View.isNumberSize ft.size = true := sized ▸ isNumberSize_width notChar
  have positive : 0 < 8 * p.width := by revert number; cases p <;> decide
  have width := length.trans sized
  have small := width_bits width
  obtain ⟨rfl, range⟩ := decodeScalar_int_ok number width read
  by_cases bool : kind = .bool
  · subst bool
    have stored : msg.getBool (.scalar info .bool) = decide (loadInteger p (view.region ft) ≠ 0) := by
      simp only [Message.getBool, held, storedInteger, Kind.cppType]
    have seen : view.bool info.name = decide ((view.region ft).getD 0 0 ≠ 0) := by
      simp only [View.bool, found]
      rw [if_neg (by omega), getD_region (by omega)]
    change view.bool info.name = _ ↔ (ofLittle _ ≠ 0 → _)
    rw [stored, seen, decide_eq_decide, loadInteger_ne_zero number width]
    exact ⟨fun same => same.mpr, fun plain => ⟨ofLittle_head, plain⟩⟩
  · obtain ⟨low, high⟩ := range bool
    have stored : msg.getInt (.scalar info kind) = loadInteger p (view.region ft) := by
      rw [Message.getInt, held, storedInteger_of_range integer bool low high]
    have int : view.int info.name = asSigned (8 * p.width) (ofLittle (view.region ft)) := by
      rw [← sized]
      simp only [View.int, found, numbered, if_true]
    have uint : view.uint info.name = ofLittle (view.region ft) := by
      simp only [View.uint, found, numbered, if_true]
    have reads : asSigned (8 * p.width) (ofLittle (view.region ft)) =
        loadInteger p (view.region ft) ↔
          (p.isSigned = false → ofLittle (view.region ft) < 2 ^ (8 * (view.region ft).length - 1)) := by
      rw [loadInteger, width]
      cases p.isSigned with
      | true => simp
      | false =>
        rw [asSigned_of_lt positive small]
        have half : 0 < 2 ^ (8 * p.width) := Nat.two_pow_pos _
        have cast : ((2 ^ (8 * p.width) : Nat) : Int) = 2 ^ (8 * p.width) := by simp
        split <;> simp_all
    have counts : 0 ≤ loadInteger p (view.region ft) →
        (ofLittle (view.region ft) : Int) = loadInteger p (view.region ft) := by
      rw [loadInteger, width]
      cases p.isSigned with
      | true =>
        rw [if_pos rfl, asSigned_of_lt positive small]
        have cast : ((2 ^ (8 * p.width) : Nat) : Int) = 2 ^ (8 * p.width) := by simp
        split <;> omega
      | false => simp
    unfold ReadsAs PlainScalar
    cases type : kind.cppType <;> simp only [Kind.isInteger, type] at integer ⊢
    case bool =>
      have : kind = .bool := by
        revert type
        cases kind <;> decide
      contradiction
    case string => cases integer
    case float => cases integer
    case double => cases integer
    case uint32 | uint64 =>
      have natural : (fieldRange kind).1 = 0 := by
        revert type
        cases kind <;> decide
      change ((view.uint info.name : Int) = _) ↔ True
      rw [uint, stored, iff_true]
      exact counts (natural ▸ low)
    all_goals
      change view.int info.name = _ ↔ _
      rw [int, stored]
      exact reads

theorem SameDouble.refl (a : UInt64) : SameDouble a a := .inl rfl

theorem sameDouble_widen_narrow (bits : UInt32) :
    SameDouble (widen bits) (widen (narrow (widen bits))) := by
  cases number : Binary32.isNaN bits with
  | false => exact .inl (by rw [narrow_widen number])
  | true =>
    have nan : Binary64.isNaN (widen bits) = true := by rw [isNaN_widen, number]
    exact .inr ⟨nan, by rw [isNaN_widen, isNaN_narrow, nan]⟩

theorem readsAs_float_iff (found : view.findField info.name = some ft)
    (floating : kind.cppType = .float ∨ kind.cppType = .double)
    (taken : kind.takes p ft.size = true)
    (read : decodeScalar (.scalar info kind) kind p (view.region ft) = .ok value)
    (held : msg.held (.scalar info kind) = some value) :
    ReadsAs kind (.scalar info kind) view msg ↔ PlainScalar kind p (view.region ft) := by
  have number : (p = .float ∨ p = .double) ∧ ft.size = p.width := by
    revert taken
    unfold Kind.takes
    rcases floating with type | type <;> cases p <;> simp [type]
  obtain ⟨primitive, sized⟩ := number
  have stored : value = storedDouble kind (view.float info.name) := by
    rcases primitive with rfl | rfl
    · cases read
      simp only [View.float, found, sized, Primitive.width, if_true]
    · simp only [decodeScalar] at read
      split at read
      · cases read
      · cases read
        simp only [View.float, found, sized, Primitive.width]
        rfl
  subst stored
  unfold ReadsAs PlainScalar
  rcases floating with type | type
  · simp only [type]
    have float : msg.getFloat (.scalar info kind) = narrow (view.float info.name) := by
      simp only [Message.getFloat, held, storedDouble, type, if_true]
    rw [float]
    change SameDouble (view.float info.name) _ ↔ _
    rcases primitive with rfl | rfl
    · have seen : view.float info.name = widen (.ofNat (ofLittle (view.region ft))) := by
        simp only [View.float, found, sized, Primitive.width, if_true]
      rw [seen]
      simp [sameDouble_widen_narrow]
    · have seen : view.float info.name = .ofNat (ofLittle (view.region ft)) := by
        simp only [View.float, found, sized, Primitive.width]
        rfl
      rw [seen]
      simp
  · simp only [type, iff_true]
    have double : msg.getDouble (.scalar info kind) = view.float info.name := by
      simp only [Message.getDouble, held, storedDouble, type, reduceCtorEq, if_false]
    rw [double]
    exact .refl _

theorem readsAs_text (found : view.findField info.name = some ft) (text : kind.cppType = .string)
    (taken : kind.takes p ft.size = true)
    (read : decodeScalar (.scalar info kind) kind p (view.region ft) = .ok value)
    (held : msg.held (.scalar info kind) = some value) :
    ReadsAs kind (.scalar info kind) view msg := by
  have char : p = .char := by simpa [Kind.takes, text] using taken
  subst char
  by_cases string : kind = .string
  · simp only [decodeScalar, if_pos string] at read
    split at read
    · cases read
    · cases read
      simp only [ReadsAs, text, if_pos string, Message.getString, held]
      change view.string info.name = _
      simp only [View.string, found]
  · simp only [decodeScalar, if_neg string] at read
    split at read
    · cases read
    · cases read
      simp only [ReadsAs, text, if_neg string, Message.getString, held]
      change view.bytes info.name = _
      simp only [View.bytes, found]

theorem readsAs_iff (found : view.findField info.name = some ft)
    (taken : kind.takes p ft.size = true) (length : (view.region ft).length = ft.size)
    (read : decodeScalar (.scalar info kind) kind p (view.region ft) = .ok value)
    (held : msg.held (.scalar info kind) = some value) :
    ReadsAs kind (.scalar info kind) view msg ↔ PlainScalar kind p (view.region ft) := by
  by_cases text : kind.cppType = .string
  · have plain : PlainScalar kind p (view.region ft) := by simp [PlainScalar, text]
    simp [plain, readsAs_text found text taken read held]
  by_cases floating : kind.cppType = .float ∨ kind.cppType = .double
  · exact readsAs_float_iff found floating taken read held
  · have integer : kind.isInteger = true := by
      unfold Kind.isInteger
      revert text floating
      cases kind.cppType <;> simp
    exact readsAs_integer_iff found integer taken length read held

theorem readsAs_unset_iff (found : view.findField info.name = some ft)
    (taken : kind.takes p ft.size = true) (length : (view.region ft).length = ft.size)
    (unset : msg.scalar info.number = none) :
    ReadsAs kind (.scalar info kind) view msg ↔ ReadsUnset info kind (view.region ft) := by
  have same : msg.held (.scalar info kind) = Message.fresh.held (.scalar info kind) :=
    congrArg (Option.or · info.unset) unset
  have sized : kind.cppType ≠ .string → View.isNumberSize ft.size = true ∧ ft.size ≠ 0 := by
    intro number
    obtain ⟨notChar, width, some_⟩ := takes_number number taken
    exact ⟨width ▸ isNumberSize_width notChar, some_⟩
  have found : view.findField (FieldDescriptor.scalar info kind).name = some ft := found
  have first := @getD_region view ft
  unfold ReadsAs ReadsUnset
  cases type : kind.cppType <;> rw [type] at sized <;>
    simp only [Message.getBool, Message.getInt, Message.getFloat, Message.getDouble,
      Message.getString, same, View.bool, View.int, View.uint, View.float, View.string, View.bytes,
      viewedDouble, found, length] <;>
    simp_all

end Leaf

mutual

def Agrees : List FieldTemplate → View → Message → Prop
  | [], _, _ => True
  | ft :: rest, view, msg => AgreesAt ft view msg ∧ Agrees rest view msg

def AgreesAt : FieldTemplate → View → Message → Prop
  | .mk fd _ _ _ composite, view, msg =>
    match fd with
    | .scalar info kind => ReadsAs kind (.scalar info kind) view msg
    | .message info type =>
      Agrees composite (view.composite info.name) (msg.getMessage (.message info type))

end

mutual

def Plain : List FieldTemplate → Bytes → Prop
  | [], _ => True
  | ft :: rest, block => PlainAt ft block ∧ Plain rest block

def PlainAt : FieldTemplate → Bytes → Prop
  | .mk fd offset size encoding composite, block =>
    match fd, encoding with
    | .scalar info kind, some p =>
      if FieldTemplate.sets block (.mk (.scalar info kind) offset size (some p) composite) then
        PlainScalar kind p (subspan block offset size)
      else ReadsUnset info kind (subspan block offset size)
    | _, _ => Plain composite (subspan block offset size)

end

mutual

def Blank : List FieldTemplate → Bytes → Prop
  | [], _ => True
  | ft :: rest, block => BlankAt ft block ∧ Blank rest block

def BlankAt : FieldTemplate → Bytes → Prop
  | .mk fd offset size _ composite, block =>
    match fd with
    | .scalar info kind => ReadsUnset info kind (subspan block offset size)
    | .message _ _ => Blank composite (subspan block offset size)

end

/-- Plain where nothing replaces the field, and read as unset where a later member of its oneof does. -/
def PlainOneofs : List FieldTemplate → Bytes → Prop
  | [], _ => True
  | ft :: rest, block =>
    (if overridden block ft.fd.number rest then BlankAt ft block else PlainAt ft block) ∧
      PlainOneofs rest block

theorem length_subspan {offset size : Nat} (inside : offset + size ≤ data.length) :
    (subspan data offset size).length = size := by
  simp [subspan]
  omega

theorem findField_distinct {view : View} (distinct : Distinct view.fields) :
    ∀ ft ∈ view.fields, view.findField ft.fd.name = some ft := by
  intro ft member
  have names := distinct.2
  rw [View.findField]
  generalize view.fields = fields at member names
  induction fields with
  | nil => cases member
  | cons first rest ih =>
    rw [List.map_cons, List.nodup_cons] at names
    rcases List.mem_cons.mp member with rfl | later
    · simp
    · have different : first.fd.name ≠ ft.fd.name := fun same =>
        names.1 (same ▸ List.mem_map_of_mem later)
      rw [List.find?_cons_of_neg (by simpa using different)]
      exact ih later names.2

theorem composite_opened {view : View} {info : FieldInfo} {type : Descriptor} {offset size : Nat}
    {encoding : Option Primitive} {composite : List FieldTemplate}
    (found : view.findField info.name =
      some (.mk (.message info type) offset size encoding composite)) (some_ : composite ≠ []) :
    view.composite info.name =
      { data := view.data, block := subspan view.block offset size, fields := composite } := by
  simp only [View.composite, found, FieldTemplate.composite, List.isEmpty_iff, if_neg some_]
  rfl

mutual

theorem agrees_iff : ∀ {fields : List FieldTemplate} {view : View} {msg : Message}
    {offset stop : Nat}, Tiled offset fields stop → stop ≤ view.block.length → AllSound fields →
    (∀ ft ∈ fields, view.findField ft.fd.name = some ft) → Stored fields view.block msg →
    (Agrees fields view msg ↔ Plain fields view.block)
  | [], _, _, _, _, _, _, _, _, _ => Iff.rfl
  | ft :: rest, view, msg, offset, stop, tiled, inside, sound, found, stored => by
    have ends := tiled.2.offset_le
    have placed : ft.offset = offset := tiled.1
    have first := agreesAt_iff (by omega) sound.1 (found ft (by simp)) stored.1
    have others := agrees_iff tiled.2 inside sound.2
      (fun ft member => found ft (by simp [member])) stored.2
    exact and_congr first others

theorem agreesAt_iff : ∀ {ft : FieldTemplate} {view : View} {msg : Message},
    ft.offset + ft.size ≤ view.block.length → ft.Sound → view.findField ft.fd.name = some ft →
    StoredAt ft view.block msg → (AgreesAt ft view msg ↔ PlainAt ft view.block)
  | .mk (.scalar info kind) offset size encoding composite, view, msg, inside, sound, found,
      stored => by
      obtain ⟨rfl, p, rfl, taken⟩ := sound
      obtain ⟨value, read, held⟩ := stored
      have sets : FieldTemplate.sets view.block (.mk (.scalar info kind) offset size (some p) []) =
          !(FieldDescriptor.scalar info kind).drops value := by
        rw [FieldTemplate.sets, read]
      change ReadsAs kind (.scalar info kind) view msg ↔ if _ then _ else _
      rw [sets]
      cases dropped : (FieldDescriptor.scalar info kind).drops value with
      | true =>
        rw [dropped] at held
        exact readsAs_unset_iff found taken (length_subspan inside) held
      | false =>
        rw [dropped] at held
        exact readsAs_iff found taken (length_subspan inside) read
          (congrArg (Option.or · info.unset) held)
  | .mk (.message info type) offset size encoding composite, view, msg, inside, sound, found,
      stored => by
      obtain ⟨rfl, tiled, distinct, -, -, inner⟩ := sound
      by_cases empty : composite = []
      · subst empty
        exact Iff.rfl
      obtain ⟨sub, held, storedInner⟩ := stored empty
      have same : msg.getMessage (.message info type) = sub := by
        rw [Message.getMessage, held]
        rfl
      change Agrees composite (view.composite info.name) (msg.getMessage (.message info type)) ↔
        Plain composite (subspan view.block offset size)
      have opened : view.composite info.name = _ := composite_opened found empty
      rw [opened, same]
      exact agrees_iff tiled (length_subspan inside).ge inner
        (fun ft member => findField_distinct distinct ft member) storedInner

end

mutual

theorem agreesUnset_iff : ∀ {fields : List FieldTemplate} {view : View} {msg : Message}
    {offset stop : Nat}, Tiled offset fields stop → stop ≤ view.block.length → AllSound fields →
    (∀ ft ∈ fields, view.findField ft.fd.name = some ft) →
    (∀ ft ∈ fields, msg.scalar ft.fd.number = none ∧ msg.child ft.fd.number = none) →
    (Agrees fields view msg ↔ Blank fields view.block)
  | [], _, _, _, _, _, _, _, _, _ => Iff.rfl
  | ft :: rest, view, msg, offset, stop, tiled, inside, sound, found, unset => by
    have ends := tiled.2.offset_le
    have placed : ft.offset = offset := tiled.1
    have first := agreesUnsetAt_iff (by omega) sound.1 (found ft (by simp)) (unset ft (by simp))
    have others := agreesUnset_iff tiled.2 inside sound.2
      (fun ft member => found ft (by simp [member])) (fun ft member => unset ft (by simp [member]))
    exact and_congr first others

theorem agreesUnsetAt_iff : ∀ {ft : FieldTemplate} {view : View} {msg : Message},
    ft.offset + ft.size ≤ view.block.length → ft.Sound → view.findField ft.fd.name = some ft →
    msg.scalar ft.fd.number = none ∧ msg.child ft.fd.number = none →
    (AgreesAt ft view msg ↔ BlankAt ft view.block)
  | .mk (.scalar info kind) offset size encoding composite, view, msg, inside, sound, found,
      unset => by
      obtain ⟨rfl, p, rfl, taken⟩ := sound
      exact readsAs_unset_iff found taken (length_subspan inside) unset.1
  | .mk (.message info type) offset size encoding composite, view, msg, inside, sound, found,
      unset => by
      obtain ⟨rfl, tiled, distinct, -, -, inner⟩ := sound
      by_cases empty : composite = []
      · subst empty
        exact Iff.rfl
      change Agrees composite (view.composite info.name) (msg.getMessage (.message info type)) ↔
        Blank composite (subspan view.block offset size)
      have opened : view.composite info.name = _ := composite_opened found empty
      rw [opened, Message.getMessage_unset msg (.message info type) unset.2]
      exact agreesUnset_iff tiled (length_subspan inside).ge inner
        (fun ft member => findField_distinct distinct ft member) (fun _ _ => ⟨rfl, rfl⟩)

end

theorem agreesOneofs_iff {view : View} {msg : Message} : ∀ {fields : List FieldTemplate}
    {offset stop : Nat}, Tiled offset fields stop → stop ≤ view.block.length → AllSound fields →
    (∀ ft ∈ fields, view.findField ft.fd.name = some ft) → Left view.block msg fields →
    (Agrees fields view msg ↔ PlainOneofs fields view.block)
  | [], _, _, _, _, _, _, _ => Iff.rfl
  | ft :: rest, offset, stop, tiled, inside, sound, found, left => by
    have ends := tiled.2.offset_le
    have placed : ft.offset = offset := tiled.1
    have own := found ft (by simp)
    have others := agreesOneofs_iff tiled.2 inside sound.2
      (fun ft member => found ft (by simp [member])) left.2
    refine and_congr ?_ others
    have first := left.1
    split at first
    · rename_i replaced
      rw [if_pos replaced]
      exact agreesUnsetAt_iff (by omega) sound.1 own first
    · rename_i keeps
      rw [if_neg keeps]
      exact agreesAt_iff (by omega) sound.1 own first

theorem EntriesRead.get {gt : GroupTemplate} {entryBlock pos : Nat} {entries : List Message}
    (read : EntriesRead data gt entryBlock pos entries) {i : Nat} (bound : i < entries.length) :
    decodeFields (subspan data (pos + i * entryBlock) entryBlock) gt.fields .fresh =
      .ok entries[i] := by
  induction entries generalizing pos i with
  | nil => cases bound
  | cons entry rest ih =>
    cases i with
    | zero => simpa using read.1
    | succ i =>
      have later := ih read.2 (Nat.lt_of_succ_lt_succ bound)
      rwa [Nat.add_assoc, Nat.add_comm entryBlock, ← Nat.succ_mul] at later

def GroupAgrees (gt : GroupTemplate) (group : GroupView) (entries : List Message) : Prop :=
  ∀ i (bound : i < entries.length), Agrees gt.fields (group.entry i) entries[i]

def GroupPlain (data : Bytes) (gt : GroupTemplate) (pos : Nat) : Prop :=
  ∀ i < loadU16 data (pos + 2),
    PlainOneofs gt.fields (subspan data (pos + 4 + i * loadU16 data pos) (loadU16 data pos))

def groupAt (data : Bytes) (gt : GroupTemplate) (pos : Nat) : GroupView where
  data := subspan data (pos + 4) (loadU16 data pos * loadU16 data (pos + 2))
  blockLength := loadU16 data pos
  count := loadU16 data (pos + 2)
  fields := gt.fields

theorem subspan_subspan {start length offset size : Nat} (inside : offset + size ≤ length) :
    subspan (subspan data start length) offset size = subspan data (start + offset) size := by
  simp only [subspan, List.drop_take, List.drop_drop, List.take_take]
  rw [Nat.min_eq_left (by omega)]

theorem HeaderFits.entries_inside {maxRepeated pos : Nat} {gt : GroupTemplate}
    (fits : HeaderFits data maxRepeated pos gt) :
    pos + 4 + loadU16 data pos * loadU16 data (pos + 2) ≤ data.length := by
  obtain ⟨long, -, empty, inside, -⟩ := fits
  rcases Nat.eq_zero_or_pos (loadU16 data pos) with zero | positive
  · rw [zero, Nat.zero_mul]
    exact long
  · have := Nat.mul_le_of_le_div _ _ _ (inside positive)
    rw [Nat.mul_comm]
    omega

section Entries

variable {data : Bytes} {maxRepeated pos : Nat} {gt : GroupTemplate}

theorem entry_groupAt (fits : HeaderFits data maxRepeated pos gt) {i : Nat}
    (bound : i < loadU16 data (pos + 2)) :
    (groupAt data gt pos).entry i =
      { block := subspan data (pos + 4 + i * loadU16 data pos) (loadU16 data pos)
        fields := gt.fields } := by
  have inside := fits.entries_inside
  have ends : (i + 1) * loadU16 data pos ≤ loadU16 data pos * loadU16 data (pos + 2) := by
    rw [Nat.mul_comm]
    exact Nat.mul_le_mul_left _ bound
  have long : (groupAt data gt pos).data.length = loadU16 data pos * loadU16 data (pos + 2) :=
    length_subspan inside
  have present : ¬((groupAt data gt pos).count ≤ i ∨
      (groupAt data gt pos).data.length < (i + 1) * (groupAt data gt pos).blockLength) := by
    rw [long]
    simp only [groupAt]
    omega
  rw [GroupView.entry, if_neg present]
  simp only [groupAt]
  rw [subspan_subspan (by rw [Nat.succ_mul] at ends; exact ends)]

theorem groupAgrees_iff (sound : gt.Sound) (fits : HeaderFits data maxRepeated pos gt)
    {entries : List Message} (read : EntriesRead data gt (loadU16 data pos) (pos + 4) entries)
    (length : entries.length = loadU16 data (pos + 2)) :
    GroupAgrees gt (groupAt data gt pos) entries ↔ GroupPlain data gt pos := by
  have inside := fits.entries_inside
  have same : ∀ i (bound : i < entries.length),
      (Agrees gt.fields ((groupAt data gt pos).entry i) entries[i] ↔
        PlainOneofs gt.fields
          (subspan data (pos + 4 + i * loadU16 data pos) (loadU16 data pos))) := by
    intro i bound
    obtain ⟨left, -⟩ := decodeFields_left sound.block.sound sound.block.distinct.1
      (fun _ _ => ⟨rfl, rfl⟩) (read.get bound)
    rw [entry_groupAt fits (length ▸ bound)]
    refine agreesOneofs_iff sound.block.tiled ?_ sound.block.sound
      (fun ft member => findField_distinct sound.block.distinct ft member) left
    have ends : (i + 1) * loadU16 data pos ≤ loadU16 data pos * loadU16 data (pos + 2) := by
      rw [Nat.mul_comm]
      exact Nat.mul_le_mul_left _ (length ▸ bound)
    rw [Nat.succ_mul] at ends
    rw [length_subspan (by omega)]
    exact fits.2.1
  constructor
  · intro agrees i bound
    exact (same i (length.symm ▸ bound)).mp (agrees i _)
  · intro plainBytes i bound
    exact (same i bound).mpr (plainBytes i (length ▸ bound))

end Entries

def GroupsPlain (data : Bytes) : Nat → List GroupTemplate → Prop
  | _, [] => True
  | pos, gt :: rest =>
    GroupPlain data gt pos ∧
      GroupsPlain data (pos + 4 + loadU16 data pos * loadU16 data (pos + 2)) rest

section Groups

variable {data : Bytes} {maxRepeated pos : Nat} {gt other : GroupTemplate}
  {rest groups : List GroupTemplate}

theorem groupFrom_first (fits : HeaderFits data maxRepeated (8 + pos) gt) :
    View.groupFrom data gt.fd.name pos (gt :: rest) = groupAt data gt (8 + pos) := by
  have long := fits.1
  rw [View.groupFrom, if_neg (by omega)]
  simp [groupAt]

theorem groupFrom_later (fits : HeaderFits data maxRepeated (8 + pos) gt)
    (different : gt.fd.name ≠ other.fd.name) :
    View.groupFrom data other.fd.name pos (gt :: rest) =
      View.groupFrom data other.fd.name
        (pos + (4 + loadU16 data (8 + pos) * loadU16 data (8 + pos + 2))) rest := by
  have long := fits.1
  rw [View.groupFrom, if_neg (by omega)]
  simp [different]

theorem groupFrom_len (names : (groups.map fun gt => gt.fd.name).Nodup)
    (valid : validateGroups data maxRepeated (8 + pos) groups = .ok ()) {back : Message}
    (read : GroupsRead data (8 + pos) groups back) :
    ∀ gt ∈ groups, (View.groupFrom data gt.fd.name pos groups).len =
      (back.entries gt.fd.number).length := by
  induction groups generalizing pos with
  | nil => nofun
  | cons gt rest ih =>
    rw [List.map_cons, List.nodup_cons] at names
    obtain ⟨fits, valid⟩ := validateGroups_cons.mp valid
    obtain ⟨-, length, following⟩ := read
    rw [show ∀ n, 8 + pos + 4 + n = 8 + (pos + (4 + n)) by omega] at valid following
    intro other member
    rcases List.mem_cons.mp member with rfl | later
    · rw [groupFrom_first fits, length]
      rfl
    · have different : gt.fd.name ≠ other.fd.name := fun same =>
        names.1 (same ▸ List.mem_map_of_mem later)
      rw [groupFrom_later fits different]
      exact ih names.2 valid following other later

theorem groupFrom_agrees_iff (sound : ∀ gt ∈ groups, gt.Sound)
    (names : (groups.map fun gt => gt.fd.name).Nodup)
    (valid : validateGroups data maxRepeated (8 + pos) groups = .ok ()) {back : Message}
    (read : GroupsRead data (8 + pos) groups back) :
    (∀ gt ∈ groups, GroupAgrees gt (View.groupFrom data gt.fd.name pos groups)
        (back.entries gt.fd.number)) ↔ GroupsPlain data (8 + pos) groups := by
  induction groups generalizing pos with
  | nil => simp [GroupsPlain]
  | cons gt rest ih =>
    rw [List.map_cons, List.nodup_cons] at names
    obtain ⟨fits, valid⟩ := validateGroups_cons.mp valid
    obtain ⟨entries, length, following⟩ := read
    have first := groupAgrees_iff (sound gt (by simp)) fits entries length
    rw [GroupsPlain]
    rw [show ∀ n, 8 + pos + 4 + n = 8 + (pos + (4 + n)) by omega] at valid following ⊢
    have others := ih (fun gt member => sound gt (by simp [member])) names.2 valid following
    rw [List.forall_mem_cons, groupFrom_first fits]
    refine and_congr first (Iff.trans (forall₂_congr fun other later => ?_) others)
    have different : gt.fd.name ≠ other.fd.name := fun same =>
      names.1 (same ▸ List.mem_map_of_mem later)
    rw [groupFrom_later fits different]

end Groups

def MessageTemplate.Agrees (tmpl : MessageTemplate) (view : View) (msg : Message) : Prop :=
  Sbe.Agrees tmpl.fields view msg ∧
    ∀ gt ∈ tmpl.groups, GroupAgrees gt (view.group gt.fd.name) (msg.entries gt.fd.number)

def MessageTemplate.Plain (tmpl : MessageTemplate) (data : Bytes) : Prop :=
  Sbe.Plain tmpl.fields (subspan data 8 (loadU16 data 0)) ∧
    GroupsPlain data (8 + loadU16 data 0) tmpl.groups

/-- Bytes that `Unmarshal` takes have a view with groups as long as those decoded, and its
accessors return what was decoded exactly where the bytes are plain. -/
theorem Codec.newView_agrees {files : List FileDescriptor} {opts : CodecOptions} {c : Codec}
    (accepted : Codec.new files opts = .ok c) {fullName : Bytes} {tmpl : MessageTemplate}
    (registered : c.templateByName fullName = some tmpl) {data : Bytes} {back : Message}
    (read : c.unmarshal fullName data .fresh = .ok back) :
    ∃ view, c.newView data = .ok view ∧
      (∀ gt ∈ tmpl.groups, (view.group gt.fd.name).len = (back.entries gt.fd.number).length) ∧
      (tmpl.Agrees view back ↔ tmpl.Plain data) := by
  have codec := Codec.new_sound accepted
  obtain ⟨sound, -⟩ := codec fullName tmpl registered
  obtain ⟨small, other, found, read⟩ := Codec.unmarshal_ok.mp read
  cases registered.symm.trans found
  obtain ⟨heads, valid, -⟩ := MessageTemplate.unmarshalInto_ok.mp read
  obtain ⟨stored, groups⟩ := MessageTemplate.unmarshalInto_stored sound read
  have length : (subspan data 8 (loadU16 data 0)).length = loadU16 data 0 :=
    length_subspan heads.fits
  refine ⟨_, Codec.newView_of_heads codec registered small heads valid, ?_, ?_⟩
  · intro gt member
    rw [View.group, length]
    exact groupFrom_len sound.groupNames valid groups gt member
  · rw [MessageTemplate.Agrees, MessageTemplate.Plain]
    refine and_congr ?_ ?_
    · exact agrees_iff sound.block.tiled (length.symm ▸ heads.wide) sound.block.sound
        (fun ft member => findField_distinct sound.block.distinct ft member) stored
    · simp only [View.group, length]
      exact groupFrom_agrees_iff sound.groups sound.groupNames valid groups

/-- An enum field, open or of a closed enum with these numbers. -/
def sampleLevel (closed : Option (List Int)) : FieldDescriptor :=
  .scalar { name := text "level", fullName := text "Sample.level", number := 1, closed } .enum

def sampleFile (closed : Option (List Int)) : FileDescriptor where
  name := text "sample.proto"
  schemaId := some 2
  messageTypes := [.mk (text "Sample") (some 8) false [sampleLevel closed] []]
  wellFormed := rfl

def sampleTemplate (closed : Option (List Int)) : MessageTemplate where
  templateId := 8
  schemaId := 2
  version := 0
  blockLength := 1
  fields := [.mk (sampleLevel closed) 0 1 (some .uint8) []]
  groups := []

def sampleCodec (closed : Option (List Int)) : Codec where
  byName := [(text "Sample", sampleTemplate closed)]
  byId := [((2, 8), (text "Sample", sampleTemplate closed))]
  maxMessageSize := Limit.maxMessageSize
  maxRepeated := Limit.maxRepeatedCount

theorem trade_plain_bytes : tradeTemplate.Plain tradeBytes := by
  refine ⟨⟨trivial, trivial, trivial⟩, ?_, trivial⟩
  intro i bound
  have first : i = 0 := by
    change i < 1 at bound
    omega
  subst first
  exact ⟨fun _ => by decide, trivial⟩

theorem Codec.newView_agrees_trade :
    ∃ back view, tradeCodec.unmarshal (text "Trade") tradeBytes .fresh = .ok back ∧
      tradeCodec.newView tradeBytes = .ok view ∧ tradeTemplate.Agrees view back := by
  obtain ⟨view, given, -, agrees⟩ :=
    Codec.newView_agrees trade_accepted trade_registered
      (show tradeCodec.unmarshal (text "Trade") tradeBytes .fresh = .ok _ from rfl)
  exact ⟨_, view, rfl, given, agrees.mpr trade_plain_bytes⟩

theorem Codec.newView_disagrees_sample :
    (∃ back view, Codec.new [sampleFile none] = .ok (sampleCodec none) ∧
      (sampleCodec none).unmarshal (text "Sample") [1, 0, 8, 0, 2, 0, 0, 0, 200] .fresh = .ok back ∧
      (sampleCodec none).newView [1, 0, 8, 0, 2, 0, 0, 0, 200] = .ok view ∧
      back.getInt (sampleLevel none) = 200 ∧ view.int (text "level") = -56) ∧
    ∃ back view, Codec.new [sampleFile (some [0, 1])] = .ok (sampleCodec (some [0, 1])) ∧
      (sampleCodec (some [0, 1])).unmarshal (text "Sample") [1, 0, 8, 0, 2, 0, 0, 0, 5] .fresh =
        .ok back ∧
      (sampleCodec (some [0, 1])).newView [1, 0, 8, 0, 2, 0, 0, 0, 5] = .ok view ∧
      back.getInt (sampleLevel (some [0, 1])) = 0 ∧ view.int (text "level") = 5 :=
  ⟨⟨_, _, rfl, rfl, rfl, by decide, by decide⟩, _, _, rfl, rfl, rfl, by decide, by decide⟩

end Protowire.Sbe
