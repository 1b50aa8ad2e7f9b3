import Mathlib.Data.List.Sort
import Protowire.Detail.GoQuoteCore

/-!
Message types with their SBE annotations, and the templates that are built from them: each field
at its place in a block of fixed length. A composite is a field's message type laid out in place.
A message type is a finite tree here: laying out one that contains itself would never end.
-/

namespace Protowire.Sbe

/-- `FieldDescriptor::Type` of a field that is not a message. -/
inductive Kind where
  | double
  | float
  | int64
  | uint64
  | int32
  | fixed64
  | fixed32
  | bool
  | string
  | bytes
  | uint32
  | enum
  | sfixed32
  | sfixed64
  | sint32
  | sint64
deriving DecidableEq, Repr

inductive CppType where
  | int32
  | int64
  | uint32
  | uint64
  | double
  | float
  | bool
  | enum
  | string
deriving DecidableEq, Repr

namespace Kind

def cppType : Kind → CppType
  | .double => .double
  | .float => .float
  | .int64 | .sfixed64 | .sint64 => .int64
  | .uint64 | .fixed64 => .uint64
  | .int32 | .sfixed32 | .sint32 => .int32
  | .uint32 | .fixed32 => .uint32
  | .bool => .bool
  | .string | .bytes => .string
  | .enum => .enum

def typeName : Kind → Bytes
  | .double => text "double"
  | .float => text "float"
  | .int64 => text "int64"
  | .uint64 => text "uint64"
  | .int32 => text "int32"
  | .fixed64 => text "fixed64"
  | .fixed32 => text "fixed32"
  | .bool => text "bool"
  | .string => text "string"
  | .bytes => text "bytes"
  | .uint32 => text "uint32"
  | .enum => text "enum"
  | .sfixed32 => text "sfixed32"
  | .sfixed64 => text "sfixed64"
  | .sint32 => text "sint32"
  | .sint64 => text "sint64"

end Kind

inductive Scalar where
  | int (value : Int)
  | bool (value : Bool)
  | float (bits : UInt32)
  | double (bits : UInt64)
  | bytes (value : Bytes)
deriving DecidableEq, Repr

structure FieldInfo where
  name : Bytes
  fullName : Bytes
  number : Nat
  repeated : Bool := false
  isMap : Bool := false
  oneof : Option (List Nat) := none
  /-- The numbers that the field's enum declares, if it is a closed one, as those of proto2 are. -/
  closed : Option (List Int) := none
  /-- What an unset field reads as, if it is not zero: a default that is declared, or the first
  number of a closed enum. -/
  unset : Option Scalar := none
  /-- `(sbe.encoding)`. -/
  encoding : Option Bytes := none
  /-- `(sbe.length)`. -/
  length : Option Nat := none
deriving DecidableEq, Repr

mutual

inductive Descriptor where
  /-- A message type: its name, `(sbe.template_id)`, whether the descriptor carries that at its
  retired option number, its fields, and the types declared in it. -/
  | mk (fullName : Bytes) (templateId : Option Nat) (stale : Bool)
      (fields : List FieldDescriptor) (nested : List Descriptor)

inductive FieldDescriptor where
  | scalar (info : FieldInfo) (kind : Kind)
  | message (info : FieldInfo) (type : Descriptor)

end

namespace Descriptor

def fullName : Descriptor → Bytes
  | .mk fullName _ _ _ _ => fullName

def templateId : Descriptor → Option Nat
  | .mk _ templateId _ _ _ => templateId

def stale : Descriptor → Bool
  | .mk _ _ stale _ _ => stale

def fields : Descriptor → List FieldDescriptor
  | .mk _ _ _ fields _ => fields

end Descriptor

namespace FieldDescriptor

def info : FieldDescriptor → FieldInfo
  | .scalar info _ => info
  | .message info _ => info

def name (fd : FieldDescriptor) : Bytes := fd.info.name

def fullName (fd : FieldDescriptor) : Bytes := fd.info.fullName

def number (fd : FieldDescriptor) : Nat := fd.info.number

end FieldDescriptor

mutual

/-- The fields of a message type have their own names and numbers, in the types it contains as
well. A descriptor pool admits no others. -/
def Descriptor.wellFormed : Descriptor → Bool
  | .mk _ _ _ fields nested =>
    (fields.map FieldDescriptor.number).Nodup && (fields.map FieldDescriptor.name).Nodup &&
      fieldsWellFormed fields && allWellFormed nested

def fieldsWellFormed : List FieldDescriptor → Bool
  | [] => true
  | fd :: rest => fieldWellFormed fd && fieldsWellFormed rest

def fieldWellFormed : FieldDescriptor → Bool
  | .scalar _ _ => true
  | .message _ type => type.wellFormed

def allWellFormed : List Descriptor → Bool
  | [] => true
  | md :: rest => md.wellFormed && allWellFormed rest

end

structure FileDescriptor where
  name : Bytes
  /-- `(sbe.schema_id)`. -/
  schemaId : Option Nat
  stale : Bool := false
  /-- `(sbe.version)`. -/
  version : Option Nat := none
  messageTypes : List Descriptor
  wellFormed : allWellFormed messageTypes = true

inductive Primitive where
  | int8
  | int16
  | int32
  | int64
  | uint8
  | uint16
  | uint32
  | uint64
  | float
  | double
  | char
deriving DecidableEq, Repr

namespace Primitive

def encodingName : Primitive → Bytes
  | .int8 => text "int8"
  | .int16 => text "int16"
  | .int32 => text "int32"
  | .int64 => text "int64"
  | .uint8 => text "uint8"
  | .uint16 => text "uint16"
  | .uint32 => text "uint32"
  | .uint64 => text "uint64"
  | .float => text "float"
  | .double => text "double"
  | .char => text "char"

def width : Primitive → Nat
  | .int8 | .uint8 => 1
  | .int16 | .uint16 => 2
  | .int32 | .uint32 | .float => 4
  | .int64 | .uint64 | .double => 8
  | .char => 0

/-- `IsIntEncoding`. -/
def isInt : Primitive → Bool
  | .float | .double | .char => false
  | _ => true

def isSigned : Primitive → Bool
  | .int8 | .int16 | .int32 | .int64 => true
  | _ => false

def named : List Primitive :=
  [.int8, .int16, .int32, .int64, .uint8, .uint16, .uint32, .uint64, .float, .double]

def ofName (e : Bytes) : Option Primitive := named.find? (·.encodingName = e)

end Primitive

inductive FieldTemplate where
  | mk (fd : FieldDescriptor) (offset size : Nat) (encoding : Option Primitive)
      (composite : List FieldTemplate)

namespace FieldTemplate

def fd : FieldTemplate → FieldDescriptor
  | .mk fd _ _ _ _ => fd

def offset : FieldTemplate → Nat
  | .mk _ offset _ _ _ => offset

def size : FieldTemplate → Nat
  | .mk _ _ size _ _ => size

def encoding : FieldTemplate → Option Primitive
  | .mk _ _ _ encoding _ => encoding

def composite : FieldTemplate → List FieldTemplate
  | .mk _ _ _ _ composite => composite

end FieldTemplate

structure GroupTemplate where
  fd : FieldDescriptor
  blockLength : Nat
  fields : List FieldTemplate

structure MessageTemplate where
  templateId : Nat
  schemaId : Nat
  version : Nat
  blockLength : Nat
  fields : List FieldTemplate
  groups : List GroupTemplate

def maxUint16 : Nat := 65535

def fieldPath (mdName : Bytes) (fd : FieldDescriptor) : Bytes := mdName ++ text "." ++ fd.name

def wrap {α : Type} (place : Bytes) (status : Except Bytes α) : Except Bytes α :=
  status.mapError fun message => place ++ text ": " ++ message

def endOfField (offset size : Nat) : Except Bytes Nat :=
  if offset + size > maxUint16 then
    .error (text "ends at byte " ++ decimal (offset + size) ++ text " of its block, past " ++
      decimal maxUint16 ++ text ", the largest blockLength SBE can state")
  else .ok (offset + size)

def namedEncoding (kind : Kind) (e : Bytes) : Except Bytes (Primitive × Nat) :=
  let sized : Except Bytes (Primitive × Nat) :=
    match Primitive.ofName e with
    | some primitive => .ok (primitive, primitive.width)
    | none => .error (text "unknown encoding " ++ goQuote e)
  match kind.cppType with
  | .string =>
    .error (text "(sbe.encoding) = " ++ goQuote e ++ text " on a " ++ kind.typeName ++
      text " field; it narrows a numeric field, and a " ++ kind.typeName ++
      text " field takes (sbe.length)")
  | .float | .double =>
    if (Primitive.ofName e).any (·.isInt) then
      .error (text "(sbe.encoding) = " ++ goQuote e ++
        text " is an integer primitive and the field is " ++ kind.typeName)
    else sized
  | _ =>
    if e = text "float" || e = text "double" then
      .error (text "(sbe.encoding) = " ++ goQuote e ++
        text " is a floating-point primitive and the field is " ++ kind.typeName)
    else sized

def fieldEncodingSize (info : FieldInfo) (kind : Kind) : Except Bytes (Primitive × Nat) :=
  match info.encoding with
  | some e => namedEncoding kind e
  | none =>
    match kind.cppType with
    | .bool => .ok (.uint8, 1)
    | .int32 => .ok (.int32, 4)
    | .int64 => .ok (.int64, 8)
    | .uint32 => .ok (.uint32, 4)
    | .uint64 => .ok (.uint64, 8)
    | .float => .ok (.float, 4)
    | .double => .ok (.double, 8)
    | .enum => .ok (.uint8, 1)
    | .string =>
      match info.length with
      | none => .error (kind.typeName ++ text " field requires (sbe.length) annotation")
      | some len =>
        if len > maxUint16 then
          .error (text "(sbe.length) = " ++ decimal len ++ text " is past " ++
            decimal maxUint16 ++ text ", the largest blockLength SBE can state")
        else .ok (.char, len)

structure Part where
  fd : FieldDescriptor
  subs : Except Bytes (List FieldTemplate × Nat)

/-- `SortedFields`. -/
def sortedParts (parts : List Part) : List Part :=
  parts.insertionSort fun a b => a.fd.number ≤ b.fd.number

def sortedFields (fds : List FieldDescriptor) : List FieldDescriptor :=
  fds.insertionSort fun a b => a.number ≤ b.number

structure Places where
  scalar : FieldDescriptor → Bytes
  composite : FieldDescriptor → Bytes
  wrapSubs : Bool := true

def placeField (places : Places) (offset : Nat) (part : Part) :
    Except Bytes (FieldTemplate × Nat) :=
  match part.fd with
  | .message _ _ => do
    let place := places.composite part.fd
    let built := if places.wrapSubs then wrap place part.subs else part.subs
    let (subs, size) ← built
    let next ← wrap place (endOfField offset size)
    return (.mk part.fd offset size none subs, next)
  | .scalar info kind => do
    let place := places.scalar part.fd
    let (encoding, size) ← wrap place (fieldEncodingSize info kind)
    let next ← wrap place (endOfField offset size)
    return (.mk part.fd offset size (some encoding) [], next)

def placeFields (refusal : FieldDescriptor → Option Bytes) (places : Places) :
    Nat → List Part → Except Bytes (List FieldTemplate × Nat)
  | offset, [] => .ok ([], offset)
  | offset, part :: rest => do
    match refusal part.fd with
    | some message => throw message
    | none =>
      let (ft, next) ← placeField places offset part
      let (fields, total) ← placeFields refusal places next rest
      return (ft :: fields, total)

def compositeRefusal (mdName : Bytes) (fd : FieldDescriptor) : Option Bytes :=
  if fd.info.repeated || fd.info.isMap then
    some (text "composite " ++ mdName ++ text " contains list/map field " ++ fd.name)
  else if fd.info.oneof.isSome then
    some (text "composite " ++ mdName ++ text " contains oneof field " ++ fd.name)
  else none

def compositePlaces (mdName : Bytes) : Places where
  scalar := fun fd => text "composite field " ++ fieldPath mdName fd
  composite := fun fd => text "composite field " ++ fieldPath mdName fd
  wrapSubs := false

mutual

def buildCompositeFields : Descriptor → Except Bytes (List FieldTemplate × Nat)
  | .mk fullName _ _ fields _ =>
    placeFields (compositeRefusal fullName) (compositePlaces fullName) 0
      (sortedParts (parts fields))

def parts : List FieldDescriptor → List Part
  | [] => []
  | fd :: rest => part fd :: parts rest

def part : FieldDescriptor → Part
  | .scalar info kind => ⟨.scalar info kind, .ok ([], 0)⟩
  | .message info type => ⟨.message info type, buildCompositeFields type⟩

end

def groupRefusal (mdName : Bytes) (fd : FieldDescriptor) : Option Bytes :=
  if fd.info.isMap then
    some (text "sbe: map field in group " ++ mdName ++ text " not supported")
  else if fd.info.repeated then
    some (text "sbe: nested repeated field in group " ++ mdName ++ text " not supported")
  else none

def groupPlaces (mdName : Bytes) : Places where
  scalar := fun fd => text "sbe: group field " ++ fieldPath mdName fd
  composite := fun fd => text "sbe: composite in group " ++ fieldPath mdName fd

def buildGroupTemplate (fd : FieldDescriptor) (md : Descriptor) : Except Bytes GroupTemplate := do
  let (fields, blockLength) ← placeFields (groupRefusal md.fullName) (groupPlaces md.fullName) 0
    (sortedParts (parts md.fields))
  return ⟨fd, blockLength, fields⟩

def messagePlaces (mdName : Bytes) : Places where
  scalar := fun fd => text "sbe: field " ++ fieldPath mdName fd
  composite := fun fd => text "sbe: composite " ++ fieldPath mdName fd

abbrev Laid := List FieldTemplate × Nat × List GroupTemplate

def placeMembers (mdName : Bytes) : Nat → List Part → Except Bytes Laid
  | offset, [] => .ok ([], offset, [])
  | offset, part :: rest =>
    if part.fd.info.isMap then
      .error (text "sbe: map field " ++ fieldPath mdName part.fd ++ text " not supported")
    else if part.fd.info.oneof.isSome then
      .error (text "sbe: oneof field " ++ fieldPath mdName part.fd ++ text " not supported")
    else if part.fd.info.repeated then
      match part.fd with
      | .message _ type => do
        let gt ← buildGroupTemplate part.fd type
        let (fields, total, groups) ← placeMembers mdName offset rest
        return (fields, total, gt :: groups)
      | .scalar _ _ =>
        .error (text "sbe: repeated scalar field " ++ fieldPath mdName part.fd ++
          text " not supported; wrap in a message")
    else do
      let (ft, next) ← placeField (messagePlaces mdName) offset part
      let (fields, total, groups) ← placeMembers mdName next rest
      return (ft :: fields, total, groups)

def buildTemplate (md : Descriptor) (schemaId version : Nat) : Except Bytes MessageTemplate :=
  match md.templateId with
  | none => .error (text "sbe: message " ++ md.fullName ++ text " missing (sbe.template_id)")
  | some tid =>
    if tid > maxUint16 then
      .error (text "sbe: message " ++ md.fullName ++ text ": (sbe.template_id) = " ++
        decimal tid ++ text " is past " ++ decimal maxUint16 ++
        text ", the largest templateId SBE can state")
    else do
      let (fields, blockLength, groups) ←
        placeMembers md.fullName 0 (sortedParts (parts md.fields))
      return ⟨tid, schemaId, version, blockLength, fields, groups⟩

end Protowire.Sbe
