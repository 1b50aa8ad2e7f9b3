import Protowire.Detail.FloatCore
import Protowire.Detail.GoQuoteCore
import Protowire.Pb.BigMessageCore

/-!
Marshalling of native structs. The shape of a struct is data: the tuple of field definitions
that `PROTOWIRE_FIELDS` declares, over the member types the templates take. The depth counter is
the room that is left: none, and the source's counter is past its bound.
-/

namespace Protowire.Pb.Native

open Support Wire Limit

inductive Width where
  | w8
  | w16
  | w32
  | w64
deriving DecidableEq, Repr

def Width.bits : Width → Nat
  | .w8 => 8
  | .w16 => 16
  | .w32 => 32
  | .w64 => 64

inductive Plain where
  | bool
  | double
  | float
  | int (width : Width)
  | uint (width : Width)
  | string
  | bytes
deriving DecidableEq, Repr

inductive Element where
  | plain (type : Plain)
  | bigInt
  | decimal
  | bigFloat
  | struct (id : Nat)
deriving DecidableEq, Repr

inductive Held where
  | value (element : Element)
  | optional (element : Element)
  | pointer (element : Element)
deriving DecidableEq, Repr

inductive Member where
  | held (holder : Held)
  | map (key : Plain) (value : Held)
  | vector (element : Element)
deriving DecidableEq, Repr

structure Field where
  number : Nat
  name : Bytes
  zigzag : Bool := false
  member : Member
deriving DecidableEq, Repr

structure Schema where
  fields : Nat → List Field
  contained : ∀ id inner, ∀ field ∈ fields id,
    field.member = .held (.value (.struct inner)) → inner < id

inductive Atom where
  | bool (v : Bool)
  | double (bits : UInt64)
  | float (bits : UInt32)
  | int (v : Int)
  | uint (v : Nat)
  | bytes (data : Bytes)
deriving DecidableEq, Repr

inductive Value where
  | atom (v : Atom)
  | bigInt (v : BigInt)
  | decimal (v : Decimal)
  | bigFloat (v : BigFloat)
  | struct (members : List Value)
  | unset
  | set (v : Value)
  | vector (elements : List Value)
  | map (entries : List (Atom × Value))

def Plain.zero : Plain → Atom
  | .bool => .bool false
  | .double => .double 0
  | .float => .float 0
  | .int _ => .int 0
  | .uint _ => .uint 0
  | .string | .bytes => .bytes []

/-- `E{}`, given `E{}` for the structs inside. -/
def freshElement (struct : Nat → Value) : Element → Value
  | .plain type => .atom type.zero
  | .bigInt => .bigInt {}
  | .decimal => .decimal {}
  | .bigFloat => .bigFloat {}
  | .struct id => struct id

def freshHeld (struct : Nat → Value) : Held → Value
  | .value element => freshElement struct element
  | .optional _ | .pointer _ => .unset

def freshMember (struct : Nat → Value) : Member → Value
  | .held holder => freshHeld struct holder
  | .map _ _ => .map []
  | .vector _ => .vector []

def freshStruct (S : Schema) : Nat → Nat → Value
  | 0, _ => .struct []
  | levels + 1, id =>
    .struct ((S.fields id).map fun field => freshMember (freshStruct S levels) field.member)

/-- `T{}`. -/
def Schema.fresh (S : Schema) (id : Nat) : Value := freshStruct S (id + 1) id

def depthError (maxDepth : Nat) : Bytes :=
  text "nesting depth exceeds MaxNestingDepth=" ++ decimal maxDepth

def doubleBits (bits : UInt64) : UInt64 :=
  if Binary64.isNaN bits then Binary64.canonicalNaN else bits

def floatBits (bits : UInt32) : UInt32 :=
  if Binary32.isNaN bits then Binary32.canonicalNaN else bits

def Plain.wireType : Plain → WireType
  | .double => .fixed64
  | .float => .fixed32
  | .string | .bytes => .bytes
  | .bool | .int _ | .uint _ => .varint

def Plain.isPackable : Plain → Bool
  | .string | .bytes => false
  | _ => true

def appendAtom (zigzag : Bool) : Atom → Bytes
  | .bool v => appendVarint (if v then 1 else 0)
  | .double bits => appendFixed64 (doubleBits bits).toNat
  | .float bits => appendFixed32 (floatBits bits).toNat
  | .int v => appendVarint (if zigzag then encodeZigZag v else asUnsigned 64 v)
  | .uint v => appendVarint v
  | .bytes data => appendBytes data

def Atom.isZero : Atom → Bool
  | .bool v => !v
  | .double bits => Binary64.isZero bits
  | .float bits => Binary32.isZero bits
  | .int v => v = 0
  | .uint v => v = 0
  | .bytes data => data.isEmpty

def isZeroValue : Value → Bool
  | .atom v => v.isZero
  | .bigFloat v => v.prec = 0 && !v.negative
  | .bigInt v => v.isZero
  | .decimal v => v.isZero
  | _ => false

def Element.wireType : Element → WireType
  | .plain type => type.wireType
  | _ => .bytes

/-- What `MarshalScalar` writes after the tag. A value of another shape has no bytes. -/
def scalarPayload (struct : Nat → Value → Except Bytes Bytes) (zigzag : Bool) :
    Element → Value → Except Bytes Bytes
  | .plain _, .atom v => .ok (appendAtom zigzag v)
  | .bigInt, .bigInt v => .ok (appendBytes (marshalBigIntMsg v))
  | .decimal, .decimal v => (marshalDecimalMsg v).map appendBytes
  | .bigFloat, .bigFloat v => (marshalBigFloatMsg v).map appendBytes
  | .struct id, .struct members => (struct id (.struct members)).map appendBytes
  | _, _ => .ok []

def marshalScalar (struct : Nat → Value → Except Bytes Bytes) (num : Nat) (zigzag : Bool)
    (element : Element) (v : Value) : Except Bytes Bytes :=
  (scalarPayload struct zigzag element v).map (appendTag num element.wireType ++ ·)

def marshalMapValue (fresh : Nat → Value) (struct : Nat → Value → Except Bytes Bytes) (num : Nat)
    (zigzag : Bool) : Held → Value → Except Bytes Bytes
  | .value element, v => marshalScalar struct num zigzag element v
  | .optional element, .set v | .pointer element, .set v => marshalScalar struct num zigzag element v
  | .optional element, _ | .pointer element, _ =>
    marshalScalar struct num zigzag element (freshElement fresh element)

def mapFailure (part : String) (msg : Bytes) : Bytes := text "map " ++ text part ++ text ": " ++ msg

def marshalEntry (fresh : Nat → Value) (struct : Nat → Value → Except Bytes Bytes) (zigzag : Bool)
    (key : Plain) (value : Held) (entry : Atom × Value) : Except Bytes Bytes :=
  match marshalScalar struct 1 zigzag (.plain key) (.atom entry.1) with
  | .error msg => .error (mapFailure "key" msg)
  | .ok first =>
    match marshalMapValue fresh struct 2 zigzag value entry.2 with
    | .error msg => .error (mapFailure "value" msg)
    | .ok second => .ok (first ++ second)

def marshalAll {α : Type} (part : α → Except Bytes Bytes) : List α → Except Bytes Bytes
  | [] => .ok []
  | a :: rest =>
    match part a with
    | .error msg => .error msg
    | .ok bytes => (marshalAll part rest).map (bytes ++ ·)

/-- What a struct is given to marshal the structs inside: those in its own fields, and those in
its map entries, which are one level further down. No room for an entry is a depth error. -/
structure Writers where
  fresh : Nat → Value
  struct : Nat → Value → Except Bytes Bytes
  entries : Except Bytes (Nat → Value → Except Bytes Bytes)

def marshalField (w : Writers) (num : Nat) (zigzag : Bool) : Member → Value → Except Bytes Bytes
  | .held (.optional element), .set v | .held (.pointer element), .set v =>
    marshalScalar w.struct num zigzag element v
  | .held (.optional _), _ | .held (.pointer _), _ => .ok []
  | .map key value, .map entries =>
    if entries.isEmpty then .ok []
    else
      match w.entries with
      | .error msg => .error msg
      | .ok struct =>
        marshalAll (fun entry => (marshalEntry w.fresh struct zigzag key value entry).map
          fun bytes => appendTag num .bytes ++ appendBytes bytes) entries
  | .vector (.plain type), .vector elements =>
    if elements.isEmpty then .ok []
    else if type.isPackable then
      (marshalAll (scalarPayload w.struct zigzag (.plain type)) elements).map
        fun payload => appendTag num .bytes ++ appendBytes payload
    else marshalAll (marshalScalar w.struct num zigzag (.plain type)) elements
  | .vector element, .vector elements =>
    marshalAll (marshalScalar w.struct num zigzag element) elements
  | .held (.value element), v =>
    if isZeroValue v then .ok [] else marshalScalar w.struct num zigzag element v
  | _, _ => .ok []

def fieldFailure (name msg : Bytes) : Bytes := text "field " ++ name ++ text ": " ++ msg

def marshalFields (w : Writers) : List Field → List Value → Except Bytes Bytes
  | field :: fields, v :: members =>
    match marshalField w field.number field.zigzag field.member v with
    | .error msg => .error (fieldFailure field.name msg)
    | .ok bytes => (marshalFields w fields members).map (bytes ++ ·)
  | _, _ => .ok []

def marshalStruct (S : Schema) (maxDepth : Nat) : Nat → Nat → Value → Except Bytes Bytes
  | 0, _, _ => .error (depthError maxDepth)
  | room + 1, id, .struct members =>
    marshalFields
      { fresh := S.fresh
        struct := marshalStruct S maxDepth room
        entries :=
          match room with
          | 0 => .error (depthError maxDepth)
          | room + 1 => .ok (marshalStruct S maxDepth room) }
      (S.fields id) members
  | _ + 1, _, _ => .ok []

structure MarshalOptions where
  maxNestingDepth : Int32 := 0

def marshal (S : Schema) (id : Nat) (v : Value) (opts : MarshalOptions) : Except Bytes Bytes :=
  let maxDepth := resolve opts.maxNestingDepth maxNestingDepth
  marshalStruct S maxDepth (maxDepth + 1) id v

structure UnmarshalOptions where
  maxMessageSize : Int32 := 0
  maxNestingDepth : Int32 := 0
  maxNumericLiteralDigits : Int32 := 0
  maxBigFloatExponent : Int32 := 0
  maxRepeatedCount : Int32 := 0

structure Limits where
  maxMessageSize : Nat
  maxDepth : Nat
  maxDigits : Nat
  maxBigFloatExp : Nat
  maxRepeated : Nat

def resolveLimits (o : UnmarshalOptions) : Limits where
  maxMessageSize := resolve o.maxMessageSize Limit.maxMessageSize
  maxDepth := resolve o.maxNestingDepth Limit.maxNestingDepth
  maxDigits := resolve o.maxNumericLiteralDigits Limit.maxNumericLiteralDigits
  maxBigFloatExp := resolve o.maxBigFloatExponent Limit.maxBigFloatExponent
  maxRepeated := resolve o.maxRepeatedCount Limit.maxRepeatedCount

def readAs {α β : Type} (corrupt : String) (found : Option (α × Bytes)) (store : α → β) :
    Except Bytes (β × Bytes) :=
  match found with
  | none => .error (text corrupt)
  | some (x, rest) => .ok (store x, rest)

def unmarshalAtom (zigzag : Bool) (data : Bytes) : Plain → Except Bytes (Atom × Bytes)
  | .bool => readAs "corrupt bool" (consumeVarint data) fun x => .bool (x ≠ 0)
  | .double => readAs "corrupt float64" (consumeFixed64 data) fun x => .double (.ofNat x)
  | .float => readAs "corrupt float32" (consumeFixed32 data) fun x => .float (.ofNat x)
  | .int width =>
    readAs "corrupt int" (consumeVarint data) fun x =>
      .int (asSigned width.bits (if zigzag then decodeZigZag x else x))
  | .uint width => readAs "corrupt uint" (consumeVarint data) fun x => .uint (x % 2 ^ width.bits)
  | .string =>
    match consumeBytes data with
    | none => .error (text "corrupt string")
    | some (found, rest) =>
      if isValidUTF8 found then .ok (.bytes found, rest)
      else .error (text "invalid UTF-8 in string")
  | .bytes => readAs "corrupt bytes" (consumeBytes data) fun found => .bytes found

def unmarshalEmbedded {α : Type} (data : Bytes) (read : Bytes → Except Bytes α) :
    Except Bytes (α × Bytes) :=
  match consumeBytes data with
  | none => .error (text "corrupt embedded message")
  | some (found, rest) => (read found).map (·, rest)

/-- `UnmarshalScalar` over `v`: a struct is merged into what is there, another value replaces
it. -/
def unmarshalScalar (lim : Limits) (struct : Nat → Bytes → Value → Except Bytes Value)
    (zigzag : Bool) (data : Bytes) (v : Value) : Element → Except Bytes (Value × Bytes)
  | .plain type => (unmarshalAtom zigzag data type).map fun read => (.atom read.1, read.2)
  | .bigInt => unmarshalEmbedded data fun found => (unmarshalBigIntMsg found).map .bigInt
  | .decimal =>
    unmarshalEmbedded data fun found => (unmarshalDecimalMsg found lim.maxDigits).map .decimal
  | .bigFloat =>
    unmarshalEmbedded data fun found =>
      (unmarshalBigFloatMsg found lim.maxBigFloatExp lim.maxDigits).map .bigFloat
  | .struct id => unmarshalEmbedded data fun found => struct id found v

def unmarshalHeld (lim : Limits) (fresh : Nat → Value)
    (struct : Nat → Bytes → Value → Except Bytes Value) (zigzag : Bool) (data : Bytes) (v : Value) :
    Held → Except Bytes (Value × Bytes)
  | .value element => unmarshalScalar lim struct zigzag data v element
  | .optional element =>
    (unmarshalScalar lim struct zigzag data (freshElement fresh element) element).map
      fun read => (.set read.1, read.2)
  | .pointer element =>
    -- a pointer that is set keeps what it points to, and a struct is merged into it
    let target := match v with
      | .set held => held
      | _ => freshElement fresh element
    (unmarshalScalar lim struct zigzag data target element).map fun read => (.set read.1, read.2)

def entryWording : Wording :=
  ⟨text "corrupt tag in map entry",
    fun num => text "corrupt unknown field " ++ decimal num ++ text " in map entry"⟩

def entryField (lim : Limits) (fresh : Nat → Value)
    (struct : Nat → Bytes → Value → Except Bytes Value) (zigzag : Bool) (key : Plain)
    (value : Held) : FieldReader (Atom × Value) := fun num _ data entry =>
  match num with
  | 1 =>
    match unmarshalAtom zigzag data key with
    | .error msg => some (.error (mapFailure "key" msg))
    | .ok (found, rest) => some (.ok ((found, entry.2), rest))
  | 2 =>
    match unmarshalHeld lim fresh struct zigzag data entry.2 value with
    | .error msg => some (.error (mapFailure "value" msg))
    | .ok (found, rest) => some (.ok ((entry.1, found), rest))
  | _ => none

def Atom.same : Atom → Atom → Bool
  | .double a, .double b => Binary64.same a b
  | .float a, .float b => Binary32.same a b
  | a, b => a = b

def insertOrAssign (entry : Atom × Value) : List (Atom × Value) → List (Atom × Value)
  | [] => [entry]
  | other :: rest =>
    if other.1.same entry.1 then (other.1, entry.2) :: rest
    else other :: insertOrAssign entry rest

def countExceeds (kind : String) (limit : Nat) : Bytes :=
  text kind ++ text " field exceeds MaxRepeatedCount=" ++ decimal limit

def pushBack (lim : Limits) (elements : List Value) (v : Value) : Except Bytes (List Value) :=
  if lim.maxRepeated ≤ elements.length then .error (countExceeds "repeated" lim.maxRepeated)
  else .ok (elements ++ [v])

def packedTurn (lim : Limits) (zigzag : Bool) (type : Plain) (s : Bytes × List Value) :
    Turn (Bytes × List Value) (Except Bytes (List Value)) :=
  if s.1.isEmpty then .done (.ok s.2)
  else
    match unmarshalAtom zigzag s.1 type with
    | .error msg => .done (.error msg)
    | .ok (found, rest) =>
      match pushBack lim s.2 (.atom found) with
      | .error msg => .done (.error msg)
      | .ok elements => .next (rest, elements)

def unmarshalPacked (lim : Limits) (zigzag : Bool) (type : Plain) (payload : Bytes)
    (elements : List Value) : Except Bytes (List Value) :=
  loop (fun s => s.1.length) (packedTurn lim zigzag type) (fun s => .ok s.2) (payload, elements)

structure Readers where
  lim : Limits
  fresh : Nat → Value
  struct : Nat → Bytes → Value → Except Bytes Value
  entries : Except Bytes (Nat → Bytes → Value → Except Bytes Value)

def Value.elements : Value → List Value
  | .vector elements => elements
  | _ => []

def Value.entries : Value → List (Atom × Value)
  | .map entries => entries
  | _ => []

def unmarshalEntry (r : Readers) (zigzag : Bool) (key : Plain) (value : Held) (data : Bytes)
    (entries : List (Atom × Value)) : Except Bytes (List (Atom × Value) × Bytes) :=
  match consumeBytes data with
  | none => .error (text "corrupt map entry")
  | some (found, rest) =>
    match r.entries with
    | .error msg => .error msg
    | .ok struct =>
      match readRecords entryWording (entryField r.lim r.fresh struct zigzag key value) found
          (key.zero, freshHeld r.fresh value) with
      | .error msg => .error msg
      | .ok entry =>
        if r.lim.maxRepeated ≤ entries.length ∧ ¬ entries.any (·.1.same entry.1) then
          .error (countExceeds "map" r.lim.maxRepeated)
        else .ok (insertOrAssign entry entries, rest)

def unmarshalElement (r : Readers) (zigzag : Bool) (element : Element) (data : Bytes)
    (elements : List Value) : Except Bytes (List Value × Bytes) :=
  match unmarshalScalar r.lim r.struct zigzag data (freshElement r.fresh element) element with
  | .error msg => .error msg
  | .ok (found, rest) => (pushBack r.lim elements found).map (·, rest)

def unmarshalRepeated (r : Readers) (type : WireType) (zigzag : Bool) (element : Element)
    (data : Bytes) (elements : List Value) : Except Bytes (List Value × Bytes) :=
  match element with
  | .plain plain =>
    if plain.isPackable ∧ type = .bytes then
      match consumeBytes data with
      | none => .error (text "corrupt packed field")
      | some (payload, rest) => (unmarshalPacked r.lim zigzag plain payload elements).map (·, rest)
    else unmarshalElement r zigzag element data elements
  | _ => unmarshalElement r zigzag element data elements

def unmarshalField (r : Readers) (type : WireType) (zigzag : Bool) (data : Bytes) (v : Value) :
    Member → Except Bytes (Value × Bytes)
  | .held holder => unmarshalHeld r.lim r.fresh r.struct zigzag data v holder
  | .map key value =>
    (unmarshalEntry r zigzag key value data v.entries).map fun read => (.map read.1, read.2)
  | .vector element =>
    (unmarshalRepeated r type zigzag element data v.elements).map
      fun read => (.vector read.1, read.2)

def unmarshalMatched (r : Readers) (num : Nat) (type : WireType) (data : Bytes) :
    List Field → List Value → Option (Except Bytes (List Value × Bytes))
  | field :: fields, v :: members =>
    if field.number = num then
      match unmarshalField r type field.zigzag data v field.member with
      | .error msg => some (.error (fieldFailure field.name msg))
      | .ok (found, rest) => some (.ok (found :: members, rest))
    else
      match unmarshalMatched r num type data fields members with
      | none => none
      | some read => some (read.map fun read => (v :: read.1, read.2))
  | _, _ => none

def structWording : Wording :=
  ⟨text "corrupt tag", fun num => text "corrupt field " ++ decimal num⟩

def Value.members : Value → List Value
  | .struct members => members
  | _ => []

def unmarshalFields (r : Readers) (fields : List Field) (data : Bytes) (members : List Value) :
    Except Bytes (List Value) :=
  readRecords structWording
    (fun num type data members => unmarshalMatched r num type data fields members) data members

def unmarshalStruct (S : Schema) (lim : Limits) : Nat → Nat → Bytes → Value → Except Bytes Value
  | 0, _, _, _ => .error (depthError lim.maxDepth)
  | room + 1, id, data, v =>
    (unmarshalFields
      { lim
        fresh := S.fresh
        struct := unmarshalStruct S lim room
        entries :=
          match room with
          | 0 => .error (depthError lim.maxDepth)
          | room + 1 => .ok (unmarshalStruct S lim room) }
      (S.fields id) data v.members).map .struct

def unmarshalWithin (S : Schema) (lim : Limits) (id : Nat) (data : Bytes) (v : Value) :
    Except Bytes Value :=
  if lim.maxMessageSize < data.length then
    .error (text "input of " ++ decimal data.length ++ text " bytes exceeds MaxMessageSize=" ++
      decimal lim.maxMessageSize)
  else unmarshalStruct S lim (lim.maxDepth + 1) id data v

def unmarshal (S : Schema) (id : Nat) (data : Bytes) (v : Value) (opts : UnmarshalOptions) :
    Except Bytes Value := unmarshalWithin S (resolveLimits opts) id data v

end Protowire.Pb.Native
