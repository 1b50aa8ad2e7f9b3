import Protowire.Pb.BigMessages
import Protowire.Pb.NativeCore

/-!
A struct that is marshalled and unmarshalled again comes back in normal form.
-/

namespace Protowire.Pb.Native

open Support Wire Limit

variable {α : Type} {out v : Value} {data rest bytes : Bytes} {zigzag : Bool} {type : WireType}
  {element : Element} {key : Plain} {value : Held} {elements : List Value} {num : Nat} {r : Readers}
  {field : Field} {S : Schema} {lim : Limits}

def Plain.Holds : Plain → Atom → Prop
  | .bool, .bool _ => True
  | .double, .double _ => True
  | .float, .float _ => True
  | .int width, .int v => FitsSigned width.bits v
  | .uint width, .uint v => v < 2 ^ width.bits
  | .string, .bytes data => isValidUTF8 data
  | .bytes, .bytes _ => True
  | _, _ => False

mutual

/-- A value of an element type of `S`. A list or a map in it has at most `count` elements, and
a map holds no value that is not set. -/
inductive FitsElement (S : Schema) (count : Nat) : Element → Value → Prop
  | plain {type : Plain} {v : Atom} (holds : type.Holds v) : FitsElement S count (.plain type) (.atom v)
  | bigInt (v : BigInt) : FitsElement S count .bigInt (.bigInt v)
  | decimal {v : Decimal} (scale : FitsSigned 32 v.scale) : FitsElement S count .decimal (.decimal v)
  | bigFloat {v : BigFloat} (exponent : FitsSigned 32 v.exponent) (prec : v.prec < 2 ^ 32) :
      FitsElement S count .bigFloat (.bigFloat v)
  | struct {id : Nat} {members : List Value} (fits : FitsMembers S count (S.fields id) members) :
      FitsElement S count (.struct id) (.struct members)

inductive FitsMembers (S : Schema) (count : Nat) : List Field → List Value → Prop
  | nil : FitsMembers S count [] []
  | cons {field : Field} {fields : List Field} {v : Value} {members : List Value}
      (first : FitsMember S count field.member v) (rest : FitsMembers S count fields members) :
      FitsMembers S count (field :: fields) (v :: members)

inductive FitsMember (S : Schema) (count : Nat) : Member → Value → Prop
  | value {element : Element} {v : Value} (fits : FitsElement S count element v) :
      FitsMember S count (.held (.value element)) v
  | noOptional (element : Element) : FitsMember S count (.held (.optional element)) .unset
  | optional {element : Element} {v : Value} (fits : FitsElement S count element v) :
      FitsMember S count (.held (.optional element)) (.set v)
  | noPointer (element : Element) : FitsMember S count (.held (.pointer element)) .unset
  | pointer {element : Element} {v : Value} (fits : FitsElement S count element v) :
      FitsMember S count (.held (.pointer element)) (.set v)
  | vector {element : Element} {elements : List Value}
      (fits : ∀ v ∈ elements, FitsElement S count element v) (short : elements.length ≤ count) :
      FitsMember S count (.vector element) (.vector elements)
  | map {key : Plain} {value : Held} {entries : List (Atom × Value)}
      (keys : ∀ entry ∈ entries, key.Holds entry.1)
      (values : ∀ entry ∈ entries, FitsMapValue S count value entry.2)
      (distinct : entries.Pairwise fun a b => ¬ a.1.same b.1) (short : entries.length ≤ count) :
      FitsMember S count (.map key value) (.map entries)

inductive FitsMapValue (S : Schema) (count : Nat) : Held → Value → Prop
  | value {element : Element} {v : Value} (fits : FitsElement S count element v) :
      FitsMapValue S count (.value element) v
  | optional {element : Element} {v : Value} (fits : FitsElement S count element v) :
      FitsMapValue S count (.optional element) (.set v)
  | pointer {element : Element} {v : Value} (fits : FitsElement S count element v) :
      FitsMapValue S count (.pointer element) (.set v)

end

def Atom.normal : Atom → Atom
  | .double bits => .double (doubleBits bits)
  | .float bits => .float (floatBits bits)
  | v => v

def Atom.normalField : Atom → Atom
  | .double bits => .double (if Binary64.isZero bits then 0 else doubleBits bits)
  | .float bits => .float (if Binary32.isZero bits then 0 else floatBits bits)
  | v => v

mutual

def Value.normal (inField : Bool) : Value → Value
  | .atom v => .atom (if inField then v.normalField else v.normal)
  | .bigInt v => .bigInt v.normal
  | .decimal v => .decimal v.normal
  | .bigFloat v => .bigFloat v.normal
  | .struct members => .struct (normalAll true members)
  | .unset => .unset
  | .set v => .set (v.normal false)
  | .vector elements => .vector (normalAll false elements)
  | .map entries => .map (normalEntries entries)

def normalAll (inField : Bool) : List Value → List Value
  | [] => []
  | v :: rest => v.normal inField :: normalAll inField rest

def normalEntries : List (Atom × Value) → List (Atom × Value)
  | [] => []
  | (key, v) :: rest => (key.normal, v.normal false) :: normalEntries rest

end

theorem freshMember_congr {fresh fresh' : Nat → Value} {member : Member}
    (same : ∀ inner, member = .held (.value (.struct inner)) → fresh inner = fresh' inner) :
    freshMember fresh member = freshMember fresh' member := by
  match member with
  | .held (.value (.struct inner)) => exact same inner rfl
  | .held (.value (.plain _)) | .held (.value .bigInt) | .held (.value .decimal)
  | .held (.value .bigFloat) | .held (.optional _) | .held (.pointer _) | .map _ _
  | .vector _ => rfl

theorem freshStruct_eq (S : Schema) (id : Nat) : ∀ levels, id < levels →
    freshStruct S levels id = S.fresh id := by
  induction id using Nat.strongRecOn with
  | ind id ih =>
    intro levels deeper
    obtain ⟨levels, rfl⟩ : ∃ l, levels = l + 1 := ⟨levels - 1, by omega⟩
    rw [Schema.fresh, freshStruct, freshStruct]
    congr 1
    apply List.map_congr_left
    intro field found
    apply freshMember_congr
    intro inner held
    have smaller := S.contained id inner field found held
    rw [ih inner smaller levels (by omega), ih inner smaller id smaller]

theorem Schema.fresh_eq (S : Schema) (id : Nat) :
    S.fresh id = .struct ((S.fields id).map fun field => freshMember S.fresh field.member) := by
  rw [Schema.fresh, freshStruct]
  congr 1
  apply List.map_congr_left
  intro field found
  apply freshMember_congr
  intro inner held
  exact freshStruct_eq S inner id (S.contained id inner field found held)

theorem readAs_rest {β : Type} {corrupt : String} {found : Option (α × Bytes)} {store : α → β}
    {out : β} (read : readAs corrupt found store = .ok (out, rest))
    (shorter : ∀ x rest, found = some (x, rest) → rest.length < data.length) :
    rest.length < data.length := by
  unfold readAs at read
  split at read
  · cases read
  · rename_i x following
    cases read
    exact shorter x _ rfl

theorem unmarshalAtom_rest {type : Plain} {v : Atom}
    (read : unmarshalAtom zigzag data type = .ok (v, rest)) : rest.length < data.length := by
  have fixed : ∀ width, 0 < width → ∀ x rest, consumeFixed width data = some (x, rest) →
      rest.length < data.length := by
    intro width positive x rest found
    have length := consumeFixed_rest found
    omega
  cases type with
  | bool => exact readAs_rest read fun _ _ => consumeVarint_rest
  | int _ => exact readAs_rest read fun _ _ => consumeVarint_rest
  | uint _ => exact readAs_rest read fun _ _ => consumeVarint_rest
  | double => exact readAs_rest read (fixed 8 (by decide))
  | float => exact readAs_rest read (fixed 4 (by decide))
  | bytes => exact readAs_rest read fun _ _ => consumeBytes_rest
  | string =>
    rw [unmarshalAtom] at read
    split at read
    · cases read
    · rename_i found following consumed
      split at read
      · cases read
        exact consumeBytes_rest consumed
      · cases read

theorem map_ok {β : Type} {f : α → β} {result : Except Bytes α} {out : β}
    (mapped : result.map f = .ok out) : ∃ a, result = .ok a ∧ f a = out := by
  cases result with
  | error msg => cases mapped
  | ok a => exact ⟨a, rfl, Except.ok.inj mapped⟩

theorem unmarshalEmbedded_rest {read : Bytes → Except Bytes α} {out : α}
    (ran : unmarshalEmbedded data read = .ok (out, rest)) : rest.length ≤ data.length := by
  rw [unmarshalEmbedded] at ran
  split at ran
  · cases ran
  · rename_i found following consumed
    obtain ⟨a, _, same⟩ := map_ok ran
    cases same
    exact Nat.le_of_lt (consumeBytes_rest consumed)

section

variable {lim : Limits} {fresh : Nat → Value} {struct : Nat → Bytes → Value → Except Bytes Value}
  {zigzag : Bool} {data rest : Bytes} {v out : Value}

theorem unmarshalScalar_rest
    (read : unmarshalScalar lim struct zigzag data v element = .ok (out, rest)) :
    rest.length ≤ data.length := by
  cases element with
  | plain type =>
    obtain ⟨⟨a, following⟩, found, same⟩ := map_ok read
    cases same
    exact Nat.le_of_lt (unmarshalAtom_rest found)
  | bigInt => exact unmarshalEmbedded_rest read
  | decimal => exact unmarshalEmbedded_rest read
  | bigFloat => exact unmarshalEmbedded_rest read
  | struct id => exact unmarshalEmbedded_rest read

theorem unmarshalHeld_rest {holder : Held}
    (read : unmarshalHeld lim fresh struct zigzag data v holder = .ok (out, rest)) :
    rest.length ≤ data.length := by
  cases holder with
  | value element => exact unmarshalScalar_rest read
  | optional element =>
    obtain ⟨⟨a, following⟩, found, same⟩ := map_ok read
    cases same
    exact unmarshalScalar_rest found
  | pointer element =>
    obtain ⟨⟨a, following⟩, found, same⟩ := map_ok read
    cases same
    exact unmarshalScalar_rest found

theorem entryField_shrinks (key : Plain) (value : Held) :
    FieldReader.Shrinks (entryField lim fresh struct zigzag key value) := by
  intro num type data entry entry' rest read
  unfold entryField at read
  split at read
  · split at read
    · cases read
    · rename_i found following ran
      cases read
      exact Nat.le_of_lt (unmarshalAtom_rest ran)
  · split at read
    · cases read
    · rename_i found following ran
      cases read
      exact unmarshalHeld_rest ran
  · cases read

end

section

variable {r : Readers} {zigzag : Bool} {data rest : Bytes} {v out : Value}

theorem unmarshalEntry_rest {entries entries' : List (Atom × Value)}
    (read : unmarshalEntry r zigzag key value data entries = .ok (entries', rest)) :
    rest.length ≤ data.length := by
  rw [unmarshalEntry] at read
  split at read
  · cases read
  rename_i found following consumed
  split at read
  · cases read
  split at read
  · cases read
  split at read
  · cases read
  · cases read
    exact Nat.le_of_lt (consumeBytes_rest consumed)

theorem unmarshalElement_rest {elements' : List Value}
    (read : unmarshalElement r zigzag element data elements = .ok (elements', rest)) :
    rest.length ≤ data.length := by
  rw [unmarshalElement] at read
  split at read
  · cases read
  · rename_i found following ran
    obtain ⟨_, _, same⟩ := map_ok read
    cases same
    exact unmarshalScalar_rest ran

theorem unmarshalRepeated_rest {elements' : List Value}
    (read : unmarshalRepeated r type zigzag element data elements = .ok (elements', rest)) :
    rest.length ≤ data.length := by
  unfold unmarshalRepeated at read
  split at read
  · split at read
    · split at read
      · cases read
      · rename_i payload following consumed
        obtain ⟨_, _, same⟩ := map_ok read
        cases same
        exact Nat.le_of_lt (consumeBytes_rest consumed)
    · exact unmarshalElement_rest read
  · exact unmarshalElement_rest read

theorem unmarshalField_rest {member : Member}
    (read : unmarshalField r type zigzag data v member = .ok (out, rest)) :
    rest.length ≤ data.length := by
  cases member with
  | held holder => exact unmarshalHeld_rest read
  | map key value =>
    obtain ⟨⟨_, _⟩, found, same⟩ := map_ok read
    cases same
    exact unmarshalEntry_rest found
  | vector element =>
    obtain ⟨⟨_, _⟩, found, same⟩ := map_ok read
    cases same
    exact unmarshalRepeated_rest found

theorem unmarshalMatched_rest {fields : List Field} :
    ∀ {members members' : List Value},
      unmarshalMatched r num type data fields members = some (.ok (members', rest)) →
        rest.length ≤ data.length := by
  induction fields with
  | nil => intro members members' read; cases members <;> cases read
  | cons field fields ih =>
    intro members members' read
    cases members with
    | nil => cases read
    | cons v members =>
      rw [unmarshalMatched] at read
      split at read
      · split at read
        · cases read
        · rename_i found following ran
          cases read
          exact unmarshalField_rest ran
      · split at read
        · cases read
        · rename_i inner ran
          obtain ⟨⟨_, _⟩, found, same⟩ := map_ok (Option.some.inj read)
          cases same
          exact ih (found ▸ ran)

theorem unmarshalMatched_shrinks (fields : List Field) :
    FieldReader.Shrinks fun num type data members => unmarshalMatched r num type data fields members :=
  fun _ _ _ _ _ _ read => unmarshalMatched_rest read

end

theorem isNaN_canonical64 : Binary64.isNaN Binary64.canonicalNaN = true := by decide

theorem isNaN_canonical32 : Binary32.isNaN Binary32.canonicalNaN = true := by decide

theorem Atom.same_normal (a b : Atom) : a.normal.same b.normal = a.same b := by
  cases a <;> cases b <;> try rfl
  case double.double x y =>
    simp only [Atom.normal, Atom.same, Binary64.same, doubleBits]
    cases hx : Binary64.isNaN x <;> cases hy : Binary64.isNaN y <;>
      simp [hx, hy, isNaN_canonical64]
  case float.float x y =>
    simp only [Atom.normal, Atom.same, Binary32.same, floatBits]
    cases hx : Binary32.isNaN x <;> cases hy : Binary32.isNaN y <;>
      simp [hx, hy, isNaN_canonical32]

theorem FitsSigned.widen {width : Width} {v : Int} (fits : FitsSigned width.bits v) :
    FitsSigned 64 v := by
  cases width <;> simp only [FitsSigned, Width.bits] at * <;> omega

theorem Width.bits_bounds (width : Width) : 0 < width.bits ∧ width.bits ≤ 64 := by
  cases width <;> decide

theorem unmarshalAtom_append {type : Plain} {v : Atom} (holds : type.Holds v) (zigzag : Bool)
    (fits : (appendAtom zigzag v).length < 2 ^ 64) (rest : Bytes) :
    unmarshalAtom zigzag (appendAtom zigzag v ++ rest) type = .ok (v.normal, rest) := by
  cases type <;> cases v <;> try exact holds.elim
  case bool.bool v =>
    rw [unmarshalAtom, appendAtom, consumeVarint_append (by split <;> decide)]
    cases v <;> rfl
  case double.double bits =>
    rw [unmarshalAtom, appendAtom, consumeFixed64_append (UInt64.toNat_lt _)]
    simp [readAs, Atom.normal]
  case float.float bits =>
    rw [unmarshalAtom, appendAtom, consumeFixed32_append (UInt32.toNat_lt _)]
    simp [readAs, Atom.normal]
  case int.int width v =>
    obtain ⟨positive, wide⟩ := width.bits_bounds
    have range : FitsSigned 64 v := FitsSigned.widen holds
    rw [unmarshalAtom, appendAtom]
    cases zigzag with
    | false =>
      simp only [Bool.false_eq_true, if_false]
      rw [consumeVarint_append (asUnsigned_lt 64 v), readAs, asSigned_asUnsigned positive wide holds]
      rfl
    | true =>
      simp only [if_true]
      rw [consumeVarint_append (encodeZigZag_lt range.1 range.2), readAs,
        decodeZigZag_encodeZigZag, asSigned_self positive holds]
      rfl
  case uint.uint width v =>
    have bound : v < 2 ^ width.bits := holds
    have power : 2 ^ width.bits ≤ 2 ^ 64 := Nat.pow_le_pow_right (by decide) width.bits_bounds.2
    rw [unmarshalAtom, appendAtom, consumeVarint_append (by omega), readAs, Nat.mod_eq_of_lt bound]
    rfl
  case string.bytes data =>
    have valid : isValidUTF8 data = true := holds
    have short : data.length < 2 ^ 64 := by
      simp only [appendAtom, appendBytes, List.length_append] at fits
      omega
    rw [unmarshalAtom, appendAtom, consumeBytes_append short]
    simp [valid, Atom.normal]
  case bytes.bytes data =>
    have short : data.length < 2 ^ 64 := by
      simp only [appendAtom, appendBytes, List.length_append] at fits
      omega
    rw [unmarshalAtom, appendAtom, consumeBytes_append short]
    rfl

def ReadsBack (S : Schema) (count : Nat) (write : Nat → Value → Except Bytes Bytes)
    (read : Nat → Bytes → Value → Except Bytes Value) : Prop :=
  ∀ id members bytes, FitsMembers S count (S.fields id) members →
    write id (.struct members) = .ok bytes → bytes.length < 2 ^ 64 →
      read id bytes (S.fresh id) = .ok (.struct (normalAll true members))

structure Limits.Standard (lim : Limits) : Prop where
  digits : maxNumericLiteralDigits ≤ lim.maxDigits
  exponent : maxBigFloatExponent ≤ lim.maxBigFloatExp

theorem unmarshalEmbedded_append {read : Bytes → Except Bytes α} {out : α}
    (fits : data.length < 2 ^ 64) (ran : read data = .ok out) :
    unmarshalEmbedded (appendBytes data ++ rest) read = .ok (out, rest) := by
  rw [unmarshalEmbedded, consumeBytes_append fits]
  simp [ran, Except.map]

theorem length_lt_appendBytes (data : Bytes) : data.length ≤ (appendBytes data).length := by
  simp [appendBytes]

section

variable {S : Schema} {lim : Limits} {write : Nat → Value → Except Bytes Bytes}
  {read : Nat → Bytes → Value → Except Bytes Value}

theorem unmarshalScalar_append (standard : lim.Standard)
    (inner : ReadsBack S lim.maxRepeated write read)
    (fits : FitsElement S lim.maxRepeated element v) {payload : Bytes}
    (written : scalarPayload write zigzag element v = .ok payload) (short : payload.length < 2 ^ 64)
    (rest : Bytes) :
    unmarshalScalar lim read zigzag (payload ++ rest) (freshElement S.fresh element) element =
      .ok (v.normal false, rest) := by
  cases fits with
  | plain holds =>
    cases written
    rw [unmarshalScalar, unmarshalAtom_append holds zigzag short]
    rfl
  | bigInt v =>
    cases written
    have abs : v.abs.length ≤ (marshalBigIntMsg v).length := by
      rw [marshalBigIntMsg, appendMagnitude]
      split
      · rename_i empty
        simp [List.isEmpty_iff.mp empty]
      · simp only [appendBytes, List.length_append]
        omega
    have message := length_lt_appendBytes (marshalBigIntMsg v)
    apply unmarshalEmbedded_append (by omega)
    rw [unmarshalBigIntMsg_marshal (by omega)]
    rfl
  | decimal scale =>
    obtain ⟨message, marshalled, rfl⟩ := map_ok written
    have length := length_lt_appendBytes message
    apply unmarshalEmbedded_append (by omega)
    rw [unmarshalDecimalMsg_marshal standard.digits marshalled (by omega)]
    rfl
  | bigFloat exponent prec =>
    obtain ⟨message, marshalled, rfl⟩ := map_ok written
    have length := length_lt_appendBytes message
    apply unmarshalEmbedded_append (by omega)
    rw [unmarshalBigFloatMsg_marshal standard.exponent standard.digits prec marshalled (by omega)]
    rfl
  | struct fits =>
    obtain ⟨message, marshalled, rfl⟩ := map_ok written
    have length := length_lt_appendBytes message
    apply unmarshalEmbedded_append (by omega)
    exact inner _ _ _ fits marshalled (by omega)

theorem unmarshalScalar_marshal (standard : lim.Standard)
    (inner : ReadsBack S lim.maxRepeated write read)
    (fits : FitsElement S lim.maxRepeated element v)
    (written : marshalScalar write num zigzag element v = .ok bytes) (short : bytes.length < 2 ^ 64) :
    ∃ payload, bytes = appendTag num element.wireType ++ payload ∧ ∀ rest,
      unmarshalScalar lim read zigzag (payload ++ rest) (freshElement S.fresh element) element =
        .ok (v.normal false, rest) := by
  obtain ⟨payload, one, rfl⟩ := map_ok written
  rw [List.length_append] at short
  exact ⟨payload, rfl, unmarshalScalar_append standard inner fits one (by omega)⟩

theorem unmarshalHeld_marshal (standard : lim.Standard)
    (inner : ReadsBack S lim.maxRepeated write read) {holder : Held}
    (fits : FitsMapValue S lim.maxRepeated holder v)
    (written : marshalMapValue S.fresh write num zigzag holder v = .ok bytes)
    (short : bytes.length < 2 ^ 64) :
    ∃ type payload, bytes = appendTag num type ++ payload ∧ ∀ rest,
      unmarshalHeld lim S.fresh read zigzag (payload ++ rest) (freshHeld S.fresh holder) holder =
        .ok (v.normal false, rest) := by
  cases fits with
  | value fits =>
    obtain ⟨payload, shape, reads⟩ := unmarshalScalar_marshal standard inner fits written short
    exact ⟨_, payload, shape, reads⟩
  | optional fits =>
    obtain ⟨payload, shape, reads⟩ := unmarshalScalar_marshal standard inner fits written short
    refine ⟨_, payload, shape, fun rest => ?_⟩
    rw [unmarshalHeld, reads]
    rfl
  | pointer fits =>
    obtain ⟨payload, shape, reads⟩ := unmarshalScalar_marshal standard inner fits written short
    refine ⟨_, payload, shape, fun rest => ?_⟩
    simp only [unmarshalHeld, freshHeld, reads]
    rfl

theorem readRecords_marshalEntry (standard : lim.Standard)
    (inner : ReadsBack S lim.maxRepeated write read) {entry : Atom × Value}
    (holds : key.Holds entry.1) (fits : FitsMapValue S lim.maxRepeated value entry.2)
    (written : marshalEntry S.fresh write zigzag key value entry = .ok bytes)
    (short : bytes.length < 2 ^ 64) :
    readRecords entryWording (entryField lim S.fresh read zigzag key value) bytes
      (key.zero, freshHeld S.fresh value) = .ok (entry.1.normal, entry.2.normal false) := by
  rw [marshalEntry] at written
  split at written
  · cases written
  rename_i first one
  split at written
  · cases written
  rename_i second two
  cases written
  obtain ⟨payload, found, rfl⟩ := map_ok one
  cases found
  rw [List.length_append, List.length_append] at short
  obtain ⟨type, payload, rfl, reads⟩ := unmarshalHeld_marshal standard inner fits two (by omega)
  have keyRead : entryField lim S.fresh read zigzag key value 1 key.wireType
      (appendAtom zigzag entry.1 ++ (appendTag 2 type ++ payload ++ []))
      (key.zero, freshHeld S.fresh value) =
        some (.ok ((entry.1.normal, freshHeld S.fresh value), appendTag 2 type ++ payload ++ [])) := by
    simp only [entryField, unmarshalAtom_append holds zigzag (by omega)]
  have valueRead : entryField lim S.fresh read zigzag key value 2 type (payload ++ [])
      (entry.1.normal, freshHeld S.fresh value) =
        some (.ok ((entry.1.normal, entry.2.normal false), [])) := by
    simp only [entryField, reads]
  rw [← List.append_nil (appendTag 2 type ++ payload)]
  refine (readRecords_field (entryField_shrinks key value) (by decide) keyRead).trans ?_
  rw [readRecords_field (entryField_shrinks key value) (by decide) valueRead, readRecords_nil]

end

inductive Feeds (r : Readers) (field : Field) : Bytes → Value → Value → Prop
  | nil (v : Value) : Feeds r field [] v v
  | cons {type : WireType} {payload more : Bytes} {v next out : Value}
      (read : ∀ rest, unmarshalField r type field.zigzag (payload ++ rest) v field.member =
        .ok (next, rest))
      (following : Feeds r field more next out) :
      Feeds r field (appendTag field.number type ++ payload ++ more) v out

theorem Feeds.one {payload : Bytes}
    (read : ∀ rest, unmarshalField r type field.zigzag (payload ++ rest) v field.member =
      .ok (out, rest)) : Feeds r field (appendTag field.number type ++ payload) v out := by
  have single := Feeds.cons read (.nil out)
  rwa [List.append_nil] at single

theorem unmarshalMatched_at {after : List Field} {back : List Value} :
    ∀ {before : List Field} {front : List Value}, front.length = before.length →
      (∀ other ∈ before, other.number ≠ field.number) →
      unmarshalField r type field.zigzag data v field.member = .ok (out, rest) →
      unmarshalMatched r field.number type data (before ++ field :: after) (front ++ v :: back) =
        some (.ok (front ++ out :: back, rest)) := by
  intro before
  induction before with
  | nil =>
    intro front same _ ran
    rw [List.length_nil, List.length_eq_zero_iff] at same
    subst same
    simp [unmarshalMatched, ran]
  | cons other before ih =>
    intro front same absent ran
    cases front with
    | nil => cases same
    | cons w front =>
      have first := absent other List.mem_cons_self
      have later := ih (Nat.succ.inj same)
        (fun other found => absent other (List.mem_cons_of_mem _ found)) ran
      simp [unmarshalMatched, first, later, Except.map]

theorem Feeds.read (feeds : Feeds r field bytes v out) (valid : ValidNumber field.number)
    {before after : List Field} {front back : List Value} (same : front.length = before.length)
    (absent : ∀ other ∈ before, other.number ≠ field.number) (rest : Bytes) :
    unmarshalFields r (before ++ field :: after) (bytes ++ rest) (front ++ v :: back) =
      unmarshalFields r (before ++ field :: after) rest (front ++ out :: back) := by
  induction feeds with
  | nil v => rfl
  | cons read following ih =>
    rename_i type payload more v next out
    rw [List.append_assoc _ more rest]
    refine Eq.trans ?_ ih
    exact readRecords_field (unmarshalMatched_shrinks _) valid
      (unmarshalMatched_at same absent (read _))

theorem Atom.normalField_zero {type : Plain} {v : Atom} (holds : type.Holds v)
    (zero : v.isZero = true) : v.normalField = type.zero := by
  cases type <;> cases v <;> try exact holds.elim
  all_goals simp_all [Atom.isZero, Atom.normalField, Plain.zero]

theorem Atom.normalField_nonzero {v : Atom} (nonzero : v.isZero = false) :
    v.normalField = v.normal := by
  cases v <;> simp_all [Atom.isZero, Atom.normalField, Atom.normal]

theorem magnitudeOf_isEmpty {mag : Bytes} (empty : mag.isEmpty = true) : magnitudeOf mag = 0 := by
  rw [List.isEmpty_iff.mp empty]
  rfl

theorem normal_of_isZeroValue {count : Nat} (fits : FitsElement S count element v)
    (zero : isZeroValue v = true) : v.normal true = freshElement S.fresh element := by
  cases fits with
  | plain holds => exact congrArg Value.atom (Atom.normalField_zero holds zero)
  | bigInt v => simp [Value.normal, BigInt.normal, magnitudeOf_isEmpty zero, freshElement]; rfl
  | decimal _ => simp [Value.normal, Decimal.normal, magnitudeOf_isEmpty zero, freshElement]
  | bigFloat _ _ =>
    simp only [isZeroValue, Bool.and_eq_true, decide_eq_true_eq, Bool.not_eq_true'] at zero
    simp [Value.normal, BigFloat.normal, zero, freshElement]
  | struct _ => cases zero

theorem normal_of_not_isZeroValue {count : Nat} (fits : FitsElement S count element v)
    (nonzero : isZeroValue v = false) : v.normal true = v.normal false := by
  cases fits with
  | plain holds => exact congrArg Value.atom (Atom.normalField_nonzero nonzero)
  | bigInt v => rfl
  | decimal _ => rfl
  | bigFloat _ _ => rfl
  | struct _ => rfl

theorem pushBack_ok (v : Value) (room : elements.length < lim.maxRepeated) :
    pushBack lim elements v = .ok (elements ++ [v]) := by
  rw [pushBack, if_neg (by omega)]

theorem packedTurn_lowers (lim : Limits) (zigzag : Bool) (type : Plain) :
    Lowers (fun s : Bytes × List Value => s.1.length) (packedTurn lim zigzag type) := by
  intro s s' turned
  rw [packedTurn] at turned
  split at turned
  · cases turned
  split at turned
  · cases turned
  rename_i found rest read
  split at turned
  · cases turned
  · cases turned
    exact unmarshalAtom_rest read

theorem marshalAll_cons {part : α → Except Bytes Bytes} {a : α} {rest : List α}
    (written : marshalAll part (a :: rest) = .ok bytes) :
    ∃ first more, part a = .ok first ∧ marshalAll part rest = .ok more ∧ bytes = first ++ more := by
  rw [marshalAll] at written
  split at written
  · cases written
  · rename_i first one
    obtain ⟨more, others, rfl⟩ := map_ok written
    exact ⟨first, more, one, others, rfl⟩

theorem unmarshalPacked_append {write : Nat → Value → Except Bytes Bytes} {type : Plain}
    (elements : List Value) : ∀ (before : List Value) (payload : Bytes),
      (∀ v ∈ elements, FitsElement S lim.maxRepeated (.plain type) v) →
      before.length + elements.length ≤ lim.maxRepeated →
      marshalAll (scalarPayload write zigzag (.plain type)) elements = .ok payload →
      payload.length < 2 ^ 64 →
      unmarshalPacked lim zigzag type payload before = .ok (before ++ normalAll false elements) := by
  induction elements with
  | nil =>
    intro before payload _ _ written _
    cases written
    simp [normalAll, unmarshalPacked, loop, iterate, packedTurn]
  | cons v elements ih =>
    intro before payload fits room written short
    obtain ⟨first, more, one, others, rfl⟩ := marshalAll_cons written
    simp only [List.length_append, List.length_cons] at short room
    cases fits v List.mem_cons_self with
    | plain holds =>
      rename_i a
      cases one
      have read := unmarshalAtom_append holds zigzag (by omega) more
      have filled : (appendAtom zigzag a ++ more).isEmpty = false := by
        have shorter := unmarshalAtom_rest read
        rw [List.isEmpty_eq_false_iff]
        intro empty
        rw [empty] at shorter
        exact Nat.not_lt_zero _ shorter
      have turned : packedTurn lim zigzag type (appendAtom zigzag a ++ more, before) =
          .next (more, before ++ [.atom a.normal]) := by
        rw [packedTurn]
        simp only [filled, Bool.false_eq_true, if_false, read]
        rw [pushBack_ok _ (by omega)]
      rw [unmarshalPacked, loop_next (packedTurn_lowers lim zigzag type) turned,
        ← unmarshalPacked, ih _ _ (fun v found => fits v (List.mem_cons_of_mem _ found))
          (by simp only [List.length_append, List.length_singleton]; omega) others (by omega)]
      simp [normalAll, Value.normal]

structure Paired (S : Schema) (w : Writers) (r : Readers) : Prop where
  freshWritten : w.fresh = S.fresh
  freshRead : r.fresh = S.fresh
  standard : r.lim.Standard
  struct : ReadsBack S r.lim.maxRepeated w.struct r.struct
  entries : ∀ write, w.entries = .ok write →
    ∃ read, r.entries = .ok read ∧ ReadsBack S r.lim.maxRepeated write read

section

variable {S : Schema} {w : Writers} {r : Readers} {field : Field}

theorem feeds_elements (paired : Paired S w r) (vector : field.member = .vector element)
    (unpacked : ∀ data elements, unmarshalRepeated r element.wireType field.zigzag element data elements =
      unmarshalElement r field.zigzag element data elements) (elements : List Value) :
    ∀ (before : List Value) (bytes : Bytes),
      (∀ v ∈ elements, FitsElement S r.lim.maxRepeated element v) →
      before.length + elements.length ≤ r.lim.maxRepeated →
      marshalAll (marshalScalar w.struct field.number field.zigzag element) elements = .ok bytes →
      bytes.length < 2 ^ 64 →
      Feeds r field bytes (.vector before) (.vector (before ++ normalAll false elements)) := by
  induction elements with
  | nil =>
    intro before bytes _ _ written _
    cases written
    rw [normalAll, List.append_nil]
    exact .nil _
  | cons v elements ih =>
    intro before bytes fits room written short
    obtain ⟨first, more, one, others, rfl⟩ := marshalAll_cons written
    simp only [List.length_append, List.length_cons] at short room
    obtain ⟨payload, rfl, read⟩ := unmarshalScalar_marshal paired.standard paired.struct
      (fits v List.mem_cons_self) one (by omega)
    have later := ih (before ++ [v.normal false]) more
      (fun v found => fits v (List.mem_cons_of_mem _ found))
      (by simp only [List.length_append, List.length_singleton]; omega) others (by omega)
    rw [List.append_assoc, List.singleton_append] at later
    refine Feeds.cons (fun rest => ?_) later
    have pushed := pushBack_ok (v.normal false) (show before.length < r.lim.maxRepeated by omega)
    rw [vector, unmarshalField, Value.elements, unpacked, unmarshalElement, paired.freshRead, read]
    simp [pushed, Except.map]

theorem normalEntries_eq_map (entries : List (Atom × Value)) :
    normalEntries entries = entries.map fun entry => (entry.1.normal, entry.2.normal false) := by
  induction entries with
  | nil => rfl
  | cons entry entries ih => rw [normalEntries, ih]; rfl

theorem insertOrAssign_new {entry : Atom × Value} {entries : List (Atom × Value)}
    (fresh : ∀ other ∈ entries, ¬ other.1.same entry.1) :
    insertOrAssign entry entries = entries ++ [entry] := by
  induction entries with
  | nil => rfl
  | cons other entries ih =>
    have first := fresh other List.mem_cons_self
    rw [insertOrAssign, if_neg first, ih fun other found => fresh other (List.mem_cons_of_mem _ found)]
    rfl

theorem feeds_entries (paired : Paired S w r) (map : field.member = .map key value)
    {write : Nat → Value → Except Bytes Bytes} (below : w.entries = .ok write)
    (entries : List (Atom × Value)) :
    ∀ (before : List (Atom × Value)) (bytes : Bytes),
      (∀ entry ∈ entries, key.Holds entry.1) →
      (∀ entry ∈ entries, FitsMapValue S r.lim.maxRepeated value entry.2) →
      (before ++ entries).Pairwise (fun a b => ¬ a.1.same b.1) →
      before.length + entries.length ≤ r.lim.maxRepeated →
      marshalAll (fun entry => (marshalEntry w.fresh write field.zigzag key value entry).map
        fun bytes => appendTag field.number .bytes ++ appendBytes bytes) entries = .ok bytes →
      bytes.length < 2 ^ 64 →
      Feeds r field bytes (.map (normalEntries before)) (.map (normalEntries (before ++ entries))) := by
  obtain ⟨read, readBelow, inner⟩ := paired.entries write below
  induction entries with
  | nil =>
    intro before bytes _ _ _ _ written _
    cases written
    rw [List.append_nil]
    exact .nil _
  | cons entry entries ih =>
    intro before bytes keys values distinct room written short
    obtain ⟨first, more, one, others, rfl⟩ := marshalAll_cons written
    obtain ⟨message, marshalled, rfl⟩ := map_ok one
    have length := length_lt_appendBytes message
    simp only [List.length_append, List.length_cons] at short room
    have later := ih (before ++ [entry]) more
      (fun entry found => keys entry (List.mem_cons_of_mem _ found))
      (fun entry found => values entry (List.mem_cons_of_mem _ found))
      (by rwa [List.append_assoc, List.singleton_append])
      (by simp only [List.length_append, List.length_singleton]; omega) others (by omega)
    rw [List.append_assoc, List.singleton_append] at later
    refine Feeds.cons (fun rest => ?_) later
    rw [paired.freshWritten] at marshalled
    have entryRead := readRecords_marshalEntry paired.standard inner (keys entry List.mem_cons_self)
      (values entry List.mem_cons_self) marshalled (by omega)
    have apart : ∀ other ∈ normalEntries before, ¬ other.1.same entry.1.normal := by
      rw [normalEntries_eq_map]
      intro other found
      obtain ⟨source, member, rfl⟩ := List.mem_map.mp found
      rw [Atom.same_normal]
      exact (List.pairwise_append.mp distinct).2.2 source member entry List.mem_cons_self
    have count : (normalEntries before).length = before.length := by
      rw [normalEntries_eq_map, List.length_map]
    have grown : insertOrAssign (entry.1.normal, entry.2.normal false) (normalEntries before) =
        normalEntries (before ++ [entry]) := by
      rw [insertOrAssign_new apart]
      simp [normalEntries_eq_map]
    rw [map, unmarshalField, Value.entries, unmarshalEntry, consumeBytes_append (by omega)]
    simp only [readBelow, paired.freshRead, entryRead]
    rw [if_neg (by omega), grown]
    rfl

theorem feeds_marshalField (paired : Paired S w r)
    (fits : FitsMember S r.lim.maxRepeated field.member v)
    (written : marshalField w field.number field.zigzag field.member v = .ok bytes)
    (short : bytes.length < 2 ^ 64) :
    Feeds r field bytes (freshMember S.fresh field.member) (v.normal true) := by
  obtain ⟨number, name, zigzag, member⟩ := field
  simp only at fits written
  cases fits with
  | value fits =>
    rw [marshalField] at written
    split at written
    · rename_i zero
      cases written
      rw [normal_of_isZeroValue fits zero]
      exact .nil _
    · rename_i nonzero
      obtain ⟨payload, rfl, reads⟩ := unmarshalScalar_marshal paired.standard paired.struct fits
        written short
      rw [normal_of_not_isZeroValue fits (by simpa using nonzero)]
      exact .one reads
  | noOptional element =>
    cases written
    exact .nil _
  | optional fits =>
    obtain ⟨payload, rfl, reads⟩ := unmarshalScalar_marshal paired.standard paired.struct fits
      written short
    refine .one fun rest => ?_
    rw [unmarshalField, unmarshalHeld, paired.freshRead, reads]
    rfl
  | noPointer element =>
    cases written
    exact .nil _
  | pointer fits =>
    obtain ⟨payload, rfl, reads⟩ := unmarshalScalar_marshal paired.standard paired.struct fits
      written short
    refine .one fun rest => ?_
    simp only [unmarshalField, unmarshalHeld, paired.freshRead, freshMember, freshHeld, reads]
    rfl
  | vector fits count =>
    rename_i element elements
    have room : ([] : List Value).length + elements.length ≤ r.lim.maxRepeated := by simpa using count
    match element with
    | .plain type =>
      rw [marshalField] at written
      split at written
      · rename_i empty
        cases written
        rw [List.isEmpty_iff.mp empty]
        exact .nil _
      · split at written
        · rename_i packable
          obtain ⟨payload, packed, rfl⟩ := map_ok written
          have length := length_lt_appendBytes payload
          rw [List.length_append] at short
          have read := unmarshalPacked_append elements [] payload fits room packed (by omega)
          refine .one fun rest => ?_
          simp only [unmarshalField, unmarshalRepeated, freshMember, Value.elements, packable,
            and_self, if_true, consumeBytes_append (show payload.length < 2 ^ 64 by omega), read]
          rfl
        · rename_i whole
          refine feeds_elements paired rfl (fun data elements => ?_) elements [] bytes fits room
            written short
          simp [unmarshalRepeated, whole]
    | .bigInt | .decimal | .bigFloat | .struct _ =>
      exact feeds_elements paired rfl (fun _ _ => rfl) elements [] bytes fits room written short
  | map keys values distinct count =>
    rename_i key value entries
    rw [marshalField] at written
    split at written
    · rename_i empty
      cases written
      rw [List.isEmpty_iff.mp empty]
      exact .nil _
    · split at written
      · cases written
      · rename_i write below
        exact feeds_entries paired rfl below entries [] bytes keys values distinct
          (by simpa using count) written short

theorem unmarshalFields_marshal (paired : Paired S w r) (fields : List Field) :
    ∀ (before : List Field) (front : List Value) {members : List Value} {bytes : Bytes},
      FitsMembers S r.lim.maxRepeated fields members → front.length = before.length →
      (∀ field ∈ fields, ValidNumber field.number) →
      (before ++ fields).Pairwise (fun a b => a.number ≠ b.number) →
      marshalFields w fields members = .ok bytes → bytes.length < 2 ^ 64 →
      unmarshalFields r (before ++ fields) bytes
          (front ++ fields.map fun field => freshMember S.fresh field.member) =
        .ok (front ++ normalAll true members) := by
  induction fields with
  | nil =>
    intro before front members bytes fits _ _ _ written _
    cases fits
    cases written
    rfl
  | cons field fields ih =>
    intro before front members bytes fits same valid distinct written short
    cases fits with
    | cons first others =>
      rename_i v members
      rw [marshalFields] at written
      split at written
      · cases written
      rename_i own one
      obtain ⟨more, rest, rfl⟩ := map_ok written
      rw [List.length_append] at short
      have feeds := feeds_marshalField paired first one (by omega)
      have absent : ∀ other ∈ before, other.number ≠ field.number := fun other found =>
        (List.pairwise_append.mp distinct).2.2 other found field List.mem_cons_self
      have later := ih (before ++ [field]) (front ++ [v.normal true]) others (by simp [same])
        (fun other found => valid other (List.mem_cons_of_mem _ found))
        (by simpa using distinct) rest (by omega)
      simp only [List.append_assoc, List.singleton_append] at later
      rw [List.map_cons, feeds.read (valid field List.mem_cons_self) same absent, later]
      rfl

end

structure Schema.Numbered (S : Schema) : Prop where
  valid : ∀ id, ∀ field ∈ S.fields id, ValidNumber field.number
  distinct : ∀ id, (S.fields id).Pairwise fun a b => a.number ≠ b.number

def writers (S : Schema) (maxDepth room : Nat) : Writers where
  fresh := S.fresh
  struct := marshalStruct S maxDepth room
  entries :=
    match room with
    | 0 => .error (depthError maxDepth)
    | room + 1 => .ok (marshalStruct S maxDepth room)

theorem marshalStruct_succ (S : Schema) (maxDepth room id : Nat) (members : List Value) :
    marshalStruct S maxDepth (room + 1) id (.struct members) =
      marshalFields (writers S maxDepth room) (S.fields id) members := by
  cases room <;> rfl

def readers (S : Schema) (lim : Limits) (room : Nat) : Readers where
  lim
  fresh := S.fresh
  struct := unmarshalStruct S lim room
  entries :=
    match room with
    | 0 => .error (depthError lim.maxDepth)
    | room + 1 => .ok (unmarshalStruct S lim room)

theorem unmarshalStruct_succ (S : Schema) (lim : Limits) (room id : Nat) (data : Bytes) (v : Value) :
    unmarshalStruct S lim (room + 1) id data v =
      (unmarshalFields (readers S lim room) (S.fields id) data v.members).map .struct := by
  cases room <;> rfl

theorem readsBack_struct (numbered : S.Numbered) (standard : lim.Standard) (maxDepth room : Nat) :
    ReadsBack S lim.maxRepeated (marshalStruct S maxDepth room) (unmarshalStruct S lim room) := by
  induction room using Nat.strongRecOn with
  | ind room ih =>
    intro id members bytes fits written short
    match room with
    | 0 => cases written
    | room + 1 =>
      have paired : Paired S (writers S maxDepth room) (readers S lim room) := by
        refine ⟨rfl, rfl, standard, ih room (Nat.lt_succ_self room), fun write below => ?_⟩
        match room with
        | 0 => cases below
        | room + 1 =>
          cases below
          exact ⟨_, rfl, ih room (by omega)⟩
      rw [marshalStruct_succ] at written
      have read := unmarshalFields_marshal paired (S.fields id) [] [] fits rfl
        (numbered.valid id) (numbered.distinct id) written short
      rw [unmarshalStruct_succ, S.fresh_eq, Value.members]
      rw [List.nil_append, List.nil_append] at read
      rw [read]
      rfl

theorem unmarshalWithin_marshal (numbered : S.Numbered) (standard : lim.Standard) {id : Nat}
    {opts : MarshalOptions} (depth : lim.maxDepth = resolve opts.maxNestingDepth maxNestingDepth)
    (fits : FitsElement S lim.maxRepeated (.struct id) v)
    (marshalled : marshal S id v opts = .ok bytes) (size : bytes.length ≤ lim.maxMessageSize)
    (addressable : lim.maxMessageSize < 2 ^ 64) :
    unmarshalWithin S lim id bytes (S.fresh id) = .ok (v.normal true) := by
  cases fits with
  | struct fits =>
    rw [marshal, ← depth] at marshalled
    rw [unmarshalWithin, if_neg (by omega)]
    exact readsBack_struct numbered standard _ _ id _ bytes fits marshalled (by omega)

theorem resolveLimits_addressable (opts : UnmarshalOptions) :
    (resolveLimits opts).maxMessageSize < 2 ^ 64 :=
  Nat.lt_trans (resolve_lt opts.maxMessageSize (by decide)) (by decide)

/-- A struct that `Marshal` writes, within the size and count limits of `Unmarshal` and with the
same depth limit, comes back in normal form. -/
theorem unmarshal_marshal {S : Schema} (numbered : S.Numbered) {id : Nat} {v : Value}
    {opts : MarshalOptions} {opts' : UnmarshalOptions} {bytes : Bytes}
    (standard : (resolveLimits opts').Standard)
    (depth : (resolveLimits opts').maxDepth = resolve opts.maxNestingDepth maxNestingDepth)
    (fits : FitsElement S (resolveLimits opts').maxRepeated (.struct id) v)
    (marshalled : marshal S id v opts = .ok bytes)
    (size : bytes.length ≤ (resolveLimits opts').maxMessageSize) :
    unmarshal S id bytes (S.fresh id) opts' = .ok (v.normal true) :=
  unmarshalWithin_marshal numbered standard depth fits marshalled size
    (resolveLimits_addressable opts')

def ledger : Schema where
  fields _ :=
    [⟨1, text "balance", true, .held (.value (.plain (.int .w32)))⟩,
      ⟨2, text "rate", false, .held (.value (.plain .double))⟩,
      ⟨3, text "previous", false, .held (.pointer (.struct 0))⟩]
  contained id inner field found held := by
    simp only [List.mem_cons, List.not_mem_nil, or_false] at found
    obtain rfl | rfl | rfl := found <;> cases held

theorem ledger_numbered : ledger.Numbered where
  valid id field found := by
    simp only [ledger, List.mem_cons, List.not_mem_nil, or_false] at found
    obtain rfl | rfl | rfl := found <;> decide
  distinct id := by simp [ledger]

theorem unmarshal_marshal_ledger :
    unmarshal ledger 0 [0x08, 0x05, 0x11, 0, 0, 0, 0, 0, 0, 0xF8, 0x7F, 0x1A, 0x02, 0x08, 0x02]
        (ledger.fresh 0) {} =
      .ok (.struct [.atom (.int (-3)), .atom (.double 0x7FF8000000000000),
        .set (.struct [.atom (.int 1), .atom (.double 0), .unset])]) := by
  have inner : FitsElement ledger maxRepeatedCount (.struct 0)
      (.struct [.atom (.int 1), .atom (.double 0x8000000000000000), .unset]) :=
    .struct (.cons (.value (.plain (show FitsSigned 32 1 by decide)))
      (.cons (.value (.plain trivial)) (.cons (.noPointer _) .nil)))
  have fits : FitsElement ledger maxRepeatedCount (.struct 0)
      (.struct [.atom (.int (-3)), .atom (.double 0xFFF8000000000001),
        .set (.struct [.atom (.int 1), .atom (.double 0x8000000000000000), .unset])]) :=
    .struct (.cons (.value (.plain (show FitsSigned 32 (-3) by decide)))
      (.cons (.value (.plain trivial)) (.cons (.pointer inner) .nil)))
  exact @unmarshal_marshal ledger ledger_numbered 0 _ {} {} _ ⟨by decide, by decide⟩ rfl fits rfl
    (by decide)

def unnumbered : Schema where
  fields _ := [⟨0, text "on", false, .held (.value (.plain .bool))⟩]
  contained id inner field found held := by
    rw [List.mem_singleton] at found
    subst found
    cases held

theorem unmarshal_marshal_zero_number :
    (∀ id, (unnumbered.fields id).Pairwise fun a b => a.number ≠ b.number) ∧
      FitsElement unnumbered maxRepeatedCount (.struct 0) (.struct [.atom (.bool true)]) ∧
      marshal unnumbered 0 (.struct [.atom (.bool true)]) {} = .ok [0x00, 0x01] ∧
      unmarshal unnumbered 0 [0x00, 0x01] (unnumbered.fresh 0) {} = .error (text "corrupt tag") :=
  ⟨fun _ => by simp [unnumbered], .struct (.cons (.value (.plain trivial)) .nil), rfl, rfl⟩

end Protowire.Pb.Native
