import Mathlib.Data.List.DropRight
import Protowire.Detail.FloatConvertCore
import Protowire.Detail.LimitsCore
import Protowire.Sbe.SchemaCore
import Protowire.Support.Digits
import Protowire.Support.Wrapping

/-!
The codec: registered templates, writing a message through one, and reading it back, whole or
field by field through a view.
-/

namespace Protowire.Sbe

open Support

/-- `SetEnumValue` of a number that a closed enum does not declare: it goes to the unknown fields. -/
def FieldDescriptor.drops : FieldDescriptor → Scalar → Bool
  | .scalar info .enum, .int value =>
    match info.closed with
    | some declared => !declared.contains value
    | none => false
  | _, _ => false

inductive Message where
  | mk (scalar : Nat → Option Scalar) (child : Nat → Option Message)
      (entries : Nat → List Message)

namespace Message

def scalar : Message → Nat → Option Scalar
  | .mk scalar _ _ => scalar

def child : Message → Nat → Option Message
  | .mk _ child _ => child

def entries : Message → Nat → List Message
  | .mk _ _ entries => entries

def fresh : Message := .mk (fun _ => none) (fun _ => none) (fun _ => [])

def getMessage (msg : Message) (fd : FieldDescriptor) : Message := (msg.child fd.number).getD fresh

def held (msg : Message) (fd : FieldDescriptor) : Option Scalar :=
  (msg.scalar fd.number).or fd.info.unset

def getInt (msg : Message) (fd : FieldDescriptor) : Int :=
  match msg.held fd with
  | some (.int value) => value
  | _ => 0

def getBool (msg : Message) (fd : FieldDescriptor) : Bool :=
  match msg.held fd with
  | some (.bool value) => value
  | _ => false

def getFloat (msg : Message) (fd : FieldDescriptor) : UInt32 :=
  match msg.held fd with
  | some (.float bits) => bits
  | _ => 0

def getDouble (msg : Message) (fd : FieldDescriptor) : UInt64 :=
  match msg.held fd with
  | some (.double bits) => bits
  | _ => 0

def getString (msg : Message) (fd : FieldDescriptor) : Bytes :=
  match msg.held fd with
  | some (.bytes value) => value
  | _ => []

def clearOneof (msg : Message) (fd : FieldDescriptor) : Message :=
  let others := fd.info.oneof.getD []
  .mk (fun number => if number ∈ others then none else msg.scalar number)
    (fun number => if number ∈ others then none else msg.child number) msg.entries

def setScalar (msg : Message) (fd : FieldDescriptor) (value : Scalar) : Message :=
  if fd.drops value then msg
  else
    let msg := msg.clearOneof fd
    .mk (Function.update msg.scalar fd.number (some value)) msg.child msg.entries

def setMessage (msg : Message) (fd : FieldDescriptor) (sub : Message) : Message :=
  let msg := msg.clearOneof fd
  .mk msg.scalar (Function.update msg.child fd.number (some sub)) msg.entries

def addMessage (msg : Message) (fd : FieldDescriptor) (entry : Message) : Message :=
  .mk msg.scalar msg.child
    (Function.update msg.entries fd.number (msg.entries fd.number ++ [entry]))

end Message

/-- Why a call fails. A double in a message is printed by `GoG`; here it stays as it is. -/
inductive Problem where
  | stated (message : Bytes)
  | outsideFloat (field : Bytes) (value : UInt64)
  | unfitFloat (field : Bytes) (value : UInt64)
  | aborted
deriving DecidableEq, Repr

structure EncodingRange where
  encLo : Int := 0
  encHi : Int := 0
  fieldLo : Int := 0
  fieldHi : Int := 0
  encSigned : Bool := false
  writeCheck : Bool := false
  readCheck : Bool := false
deriving DecidableEq, Repr

def fieldRange : Kind → Int × Int
  | .int32 | .sint32 | .sfixed32 | .enum => (-2 ^ 31, 2 ^ 31 - 1)
  | .int64 | .sint64 | .sfixed64 => (-2 ^ 63, 2 ^ 63 - 1)
  | .uint32 | .fixed32 => (0, 2 ^ 32 - 1)
  | .bool => (0, 1)
  | _ => (0, 2 ^ 64 - 1)

def Primitive.range (primitive : Primitive) : Int × Int :=
  let bits := 8 * primitive.width
  if primitive.isSigned then (-2 ^ (bits - 1), 2 ^ (bits - 1) - 1) else (0, 2 ^ bits - 1)

def rangeOf (kind : Kind) (encoding : Primitive) : EncodingRange :=
  match encoding with
  | .float => { writeCheck := kind = .double }
  | .double => { readCheck := kind = .float }
  | .char => {}
  | _ =>
    let (encLo, encHi) := encoding.range
    let (fieldLo, fieldHi) := fieldRange kind
    { encLo, encHi, fieldLo, fieldHi
      encSigned := encoding.isSigned
      writeCheck := fieldLo < encLo || fieldHi > encHi
      -- a bool reads any nonzero primitive as true
      readCheck := kind ≠ .bool && (encLo < fieldLo || encHi > fieldHi) }

def inRange (v lo hi : Int) : Bool := if v < 0 then lo ≤ v else v ≤ hi

def floatFits (f : UInt64) : Bool :=
  Binary64.isInf f || Binary64.isNaN f || Binary64.magnitude f ≤ largestFloat

def characterStart (s : Bytes) : Nat → Nat
  | 0 => 0
  | n + 1 => if s.getD (n + 1) 0 &&& 0xC0 = 0x80 then characterStart s n else n + 1

def cutLength (s : Bytes) (size : Nat) (isString : Bool) : Nat :=
  if s.length ≤ size then s.length
  else if isString then characterStart s size
  else size

def writeAt (buf : Bytes) (offset : Nat) (bytes : Bytes) : Bytes :=
  let buf := buf ++ List.replicate (offset + bytes.length - buf.length) 0
  buf.take offset ++ bytes ++ buf.drop (offset + bytes.length)

def integerOf (kind : Kind) (fd : FieldDescriptor) (msg : Message) : Int :=
  match kind.cppType with
  | .bool => if msg.getBool fd then 1 else 0
  | _ => msg.getInt fd

def doubleOf (kind : Kind) (fd : FieldDescriptor) (msg : Message) : UInt64 :=
  if kind.cppType = .float then widen (msg.getFloat fd) else msg.getDouble fd

def scalarBytes (fd : FieldDescriptor) (kind : Kind) (size : Nat) (encoding : Primitive)
    (msg : Message) : Except Problem Bytes :=
  let rg := rangeOf kind encoding
  match encoding with
  | .double => .ok (toLittle 8 (doubleOf kind fd msg).toNat)
  | .float =>
    let f := doubleOf kind fd msg
    if rg.writeCheck && !floatFits f then .error (.outsideFloat fd.fullName f)
    else .ok (toLittle 4 (narrow f).toNat)
  | _ =>
    let v := integerOf kind fd msg
    if rg.writeCheck && !inRange v rg.encLo rg.encHi then
      .error (.stated (text "sbe: field " ++ fd.fullName ++ text ": value " ++ signedDecimal v ++
        text " is outside the range of " ++ encoding.encodingName ++ text ", [" ++
        signedDecimal rg.encLo ++ text ", " ++ signedDecimal rg.encHi ++ text "]"))
    else .ok (toLittle size (asUnsigned 64 v))

def fixedString (fd : FieldDescriptor) (kind : Kind) (size : Nat) (msg : Message) : Bytes :=
  let s := msg.getString fd
  let n := cutLength s size (kind = .string)
  s.take n ++ List.replicate (size - n) 0

/-- `WriteFields` of a field without a composite. A message type without fields leaves none, and
the field is then read as a number, which reflection does not survive. -/
def leafBytes (ft : FieldTemplate) (msg : Message) : Except Problem Bytes :=
  match ft.fd, ft.encoding with
  | .scalar info kind, some .char => .ok (fixedString (.scalar info kind) kind ft.size msg)
  | .scalar info kind, some encoding =>
    scalarBytes (.scalar info kind) kind ft.size encoding msg
  | _, _ => .error .aborted

mutual

def writeFields (buf : Bytes) (base : Nat) : List FieldTemplate → Message → Except Problem Bytes
  | [], _ => .ok buf
  | ft :: rest, msg => do
    let buf ← writeField buf base ft msg
    writeFields buf base rest msg

def writeField (buf : Bytes) (base : Nat) : FieldTemplate → Message → Except Problem Bytes
  | .mk fd offset size encoding composite, msg =>
    if composite.isEmpty then do
      let bytes ← leafBytes (.mk fd offset size encoding composite) msg
      return writeAt buf (base + offset) bytes
    else writeFields buf (base + offset) composite (msg.getMessage fd)

end

def writeBlock (buf : Bytes) (blockLength : Nat) (fields : List FieldTemplate) (msg : Message) :
    Except Problem Bytes :=
  writeFields (buf ++ List.replicate blockLength 0) buf.length fields msg

def writeEntries (gt : GroupTemplate) : Bytes → List Message → Except Problem Bytes
  | buf, [] => .ok buf
  | buf, entry :: rest => do
    let buf ← writeBlock buf gt.blockLength gt.fields entry
    writeEntries gt buf rest

def writeGroups (msg : Message) : Bytes → List GroupTemplate → Except Problem Bytes
  | buf, [] => .ok buf
  | buf, gt :: rest => do
    let entries := msg.entries gt.fd.number
    if entries.length > maxUint16 then
      throw (.stated (text "sbe: field " ++ gt.fd.fullName ++ text " has " ++
        decimal entries.length ++ text " entries, past " ++ decimal maxUint16 ++
        text ", the largest numInGroup SBE can state"))
    let buf ← writeEntries gt
      (buf ++ toLittle 2 gt.blockLength ++ toLittle 2 entries.length) entries
    writeGroups msg buf rest

def MessageTemplate.header (tmpl : MessageTemplate) : Bytes :=
  toLittle 2 tmpl.blockLength ++ toLittle 2 tmpl.templateId ++ toLittle 2 tmpl.schemaId ++
    toLittle 2 tmpl.version

def MessageTemplate.marshal (tmpl : MessageTemplate) (msg : Message) : Except Problem Bytes := do
  let buf ← writeBlock tmpl.header tmpl.blockLength tmpl.fields msg
  writeGroups msg buf tmpl.groups

def subspan (data : Bytes) (offset size : Nat) : Bytes := (data.drop offset).take size

def loadU16 (data : Bytes) (offset : Nat) : Nat := ofLittle (subspan data offset 2)

def trimmed (s : Bytes) : Bytes := s.rdropWhile (· = 0)

def loadInteger (encoding : Primitive) (bytes : Bytes) : Int :=
  if encoding.isSigned then asSigned (8 * bytes.length) (ofLittle bytes) else ofLittle bytes

def storedInteger (kind : Kind) (v : Int) : Scalar :=
  match kind.cppType with
  | .bool => .bool (v ≠ 0)
  | .int32 | .enum => .int (asSigned 32 v)
  | .int64 => .int (asSigned 64 v)
  | .uint32 => .int (asUnsigned 32 v)
  | _ => .int (asUnsigned 64 v)

def storedDouble (kind : Kind) (f : UInt64) : Scalar :=
  if kind.cppType = .float then .float (narrow f) else .double f

def decodeScalar (fd : FieldDescriptor) (kind : Kind) (encoding : Primitive) (bytes : Bytes) :
    Except Problem Scalar :=
  let rg := rangeOf kind encoding
  match encoding with
  | .char =>
    let raw := if kind = .string then trimmed bytes else bytes
    if kind = .string && !isValidUTF8 raw then
      .error (.stated (text "sbe: invalid UTF-8 in string field " ++ fd.name))
    else .ok (.bytes raw)
  | .float => .ok (storedDouble kind (widen (.ofNat (ofLittle bytes))))
  | .double =>
    let f := .ofNat (ofLittle bytes)
    if rg.readCheck && !floatFits f then .error (.unfitFloat fd.fullName f)
    else .ok (storedDouble kind f)
  | _ =>
    let v := loadInteger encoding bytes
    if rg.readCheck && !inRange v rg.fieldLo rg.fieldHi then
      .error (.stated (text "sbe: field " ++ fd.fullName ++ text ": wire value " ++
        signedDecimal v ++ text " (" ++ encoding.encodingName ++ text ") does not fit a " ++
        kind.typeName ++ text " field, [" ++ signedDecimal rg.fieldLo ++ text ", " ++
        signedDecimal rg.fieldHi ++ text "]"))
    else .ok (storedInteger kind v)

/-- `DecodeFields` of a field without a composite. One whose message type has no fields is left
as it is. -/
def decodeLeaf (ft : FieldTemplate) (block : Bytes) (msg : Message) : Except Problem Message :=
  match ft.fd, ft.encoding with
  | .scalar info kind, some encoding => do
    let value ← decodeScalar (.scalar info kind) kind encoding (subspan block ft.offset ft.size)
    return msg.setScalar (.scalar info kind) value
  | _, _ => .ok msg

mutual

def decodeFields (block : Bytes) : List FieldTemplate → Message → Except Problem Message
  | [], msg => .ok msg
  | ft :: rest, msg => do
    let msg ← decodeField block ft msg
    decodeFields block rest msg

def decodeField (block : Bytes) : FieldTemplate → Message → Except Problem Message
  | .mk fd offset size encoding composite, msg =>
    if composite.isEmpty then decodeLeaf (.mk fd offset size encoding composite) block msg
    else do
      let sub ← decodeFields (subspan block offset size) composite (msg.getMessage fd)
      return msg.setMessage fd sub

end

def decodeEntries (data : Bytes) (gt : GroupTemplate) (entryBlock : Nat) :
    Nat → Nat → Message → Except Problem Message
  | 0, _, msg => .ok msg
  | count + 1, pos, msg => do
    let entry ← decodeFields (subspan data pos entryBlock) gt.fields .fresh
    decodeEntries data gt entryBlock count (pos + entryBlock) (msg.addMessage gt.fd entry)

def decodeGroups (data : Bytes) : Nat → List GroupTemplate → Message → Except Problem Message
  | _, [], msg => .ok msg
  | pos, gt :: rest, msg => do
    let entryBlock := loadU16 data pos
    let count := loadU16 data (pos + 2)
    let msg ← decodeEntries data gt entryBlock count (pos + 4) msg
    decodeGroups data (pos + 4 + entryBlock * count) rest msg

def validateGroups (data : Bytes) (maxRepeated : Nat) :
    Nat → List GroupTemplate → Except Problem Unit
  | _, [] => .ok ()
  | pos, gt :: rest => do
    if data.length < pos + 4 then
      throw (.stated (text "sbe: data too short for group header"))
    let entryBlock := loadU16 data pos
    let count := loadU16 data (pos + 2)
    if entryBlock < gt.blockLength then
      throw (.stated (text "sbe: group " ++ gt.fd.name ++ text " wire blockLength " ++
        decimal entryBlock ++ text " < schema blockLength " ++ decimal gt.blockLength))
    if 0 < count ∧ entryBlock = 0 then
      throw (.stated (text "sbe: group " ++ gt.fd.name ++ text " declares " ++ decimal count ++
        text " entries of 0 bytes"))
    let remaining := data.length - (pos + 4)
    if 0 < entryBlock ∧ remaining / entryBlock < count then
      throw (.stated (text "sbe: group " ++ gt.fd.name ++ text " declares " ++ decimal count ++
        text " entries × " ++ decimal entryBlock ++ text " bytes, " ++ decimal remaining ++
        text " bytes remaining"))
    if maxRepeated < count then
      throw (.stated (text "sbe: group " ++ gt.fd.name ++ text " declares " ++ decimal count ++
        text " entries, MaxRepeatedCount=" ++ decimal maxRepeated))
    validateGroups data maxRepeated (pos + 4 + entryBlock * count) rest

def MessageTemplate.unmarshalInto (tmpl : MessageTemplate) (maxRepeated : Nat) (data : Bytes)
    (msg : Message) : Except Problem Message := do
  if data.length < 8 then
    throw (.stated (text "sbe: data too short for header: " ++ decimal data.length ++
      text " bytes"))
  let blockLength := loadU16 data 0
  let templateId := loadU16 data 2
  if templateId ≠ tmpl.templateId then
    throw (.stated (text "sbe: template ID mismatch: got " ++ decimal templateId ++
      text ", want " ++ decimal tmpl.templateId))
  let schemaId := loadU16 data 4
  if schemaId ≠ tmpl.schemaId then
    throw (.stated (text "sbe: schema ID mismatch: got " ++ decimal schemaId ++ text ", want " ++
      decimal tmpl.schemaId ++ text " for template " ++ decimal tmpl.templateId))
  if blockLength < tmpl.blockLength then
    throw (.stated (text "sbe: wire blockLength " ++ decimal blockLength ++
      text " < schema blockLength " ++ decimal tmpl.blockLength ++ text " for template " ++
      decimal tmpl.templateId))
  if data.length < 8 + blockLength then
    throw (.stated (text "sbe: data too short for root block: need " ++
      decimal (8 + blockLength) ++ text ", have " ++ decimal data.length))
  validateGroups data maxRepeated (8 + blockLength) tmpl.groups
  let msg ← decodeFields (subspan data 8 blockLength) tmpl.fields msg
  decodeGroups data (8 + blockLength) tmpl.groups msg

structure CodecOptions where
  maxMessageSize : Int32 := 0
  maxRepeatedCount : Int32 := 0

/-- The registered templates, by full name and by schema and template id. An entry ahead of
another of the same key replaces it. -/
structure Codec where
  byName : List (Bytes × MessageTemplate) := []
  byId : List ((Nat × Nat) × (Bytes × MessageTemplate)) := []
  maxMessageSize : Nat
  maxRepeated : Nat

namespace Codec

def staleText (what option : Bytes) (retired registered : Nat) : Bytes :=
  text "sbe: " ++ what ++ text " carries (sbe." ++ option ++ text ") at retired option number " ++
    decimal retired ++ text " (registered as " ++ decimal registered ++
    text (" since protowire v1.12.0): the descriptor predates the registered extension block " ++
      "and must be recompiled against the current sbe/annotations.proto")

def registerOne (schemaId version : Nat) (c : Codec) (md : Descriptor) : Except Bytes Codec :=
  match md.templateId with
  | none =>
    if md.stale then
      .error (staleText (text "message " ++ md.fullName) (text "template_id") 50200 1321)
    else .ok c
  | some _ => do
    let tmpl ← buildTemplate md schemaId version
    let key := (schemaId, tmpl.templateId)
    match c.byId.lookup key with
    | some (previous, _) =>
      if previous ≠ md.fullName then
        throw (text "sbe: messages " ++ previous ++ text " and " ++ md.fullName ++
          text " share (sbe.template_id) = " ++ decimal tmpl.templateId ++
          text " in schema " ++ decimal schemaId ++
          text "; it must be unique within a schema")
    | none => pure ()
    return { c with
      byId := (key, (md.fullName, tmpl)) :: c.byId
      byName := (md.fullName, tmpl) :: c.byName }

mutual

def withNested : Descriptor → List Descriptor
  | .mk fullName templateId stale fields nested =>
    .mk fullName templateId stale fields nested :: allNested nested

def allNested : List Descriptor → List Descriptor
  | [] => []
  | md :: rest => withNested md ++ allNested rest

end

def registerFile (c : Codec) (file : FileDescriptor) : Except Bytes Codec := do
  match file.schemaId with
  | none =>
    if file.stale then
      throw (staleText (text "file " ++ file.name) (text "schema_id") 50100 1319)
    throw (text "sbe: file " ++ file.name ++ text " missing (sbe.schema_id) option")
  | some schema =>
    let version := file.version.getD 0
    if schema > maxUint16 then
      throw (text "sbe: file " ++ file.name ++ text ": (sbe.schema_id) = " ++ decimal schema ++
        text " is past " ++ decimal maxUint16 ++ text ", the largest schemaId SBE can state")
    if version > maxUint16 then
      throw (text "sbe: file " ++ file.name ++ text ": (sbe.version) = " ++ decimal version ++
        text " is past " ++ decimal maxUint16 ++ text ", the largest version SBE can state")
    (allNested file.messageTypes).foldlM (registerOne schema version) c

def new (files : List FileDescriptor) (opts : CodecOptions := {}) : Except Bytes Codec :=
  files.foldlM registerFile
    { maxMessageSize := Limit.resolve opts.maxMessageSize Limit.maxMessageSize
      maxRepeated := Limit.resolve opts.maxRepeatedCount Limit.maxRepeatedCount }

def templateByName (c : Codec) (name : Bytes) : Option MessageTemplate := c.byName.lookup name

def unregistered (fullName : Bytes) : Problem :=
  .stated (text "sbe: no template registered for " ++ fullName)

def oversized (c : Codec) (data : Bytes) : Problem :=
  .stated (text "sbe: input of " ++ decimal data.length ++ text " bytes exceeds MaxMessageSize=" ++
    decimal c.maxMessageSize)

def marshal (c : Codec) (fullName : Bytes) (msg : Message) : Except Problem Bytes :=
  match c.templateByName fullName with
  | none => .error (unregistered fullName)
  | some tmpl => tmpl.marshal msg

def unmarshal (c : Codec) (fullName : Bytes) (data : Bytes) (msg : Message) :
    Except Problem Message :=
  if data.length > c.maxMessageSize then .error (c.oversized data)
  else
    match c.templateByName fullName with
    | none => .error (unregistered fullName)
    | some tmpl => tmpl.unmarshalInto c.maxRepeated data msg

end Codec

structure View where
  data : Bytes := []
  block : Bytes := []
  fields : List FieldTemplate := []
  groups : List GroupTemplate := []

structure GroupView where
  data : Bytes := []
  blockLength : Nat := 0
  count : Nat := 0
  fields : List FieldTemplate := []

namespace Codec

def newView (c : Codec) (data : Bytes) : Except Problem View := do
  if data.length > c.maxMessageSize then throw (c.oversized data)
  if data.length < 8 then throw (.stated (text "sbe: data too short for header"))
  let blockLength := loadU16 data 0
  let templateId := loadU16 data 2
  let schemaId := loadU16 data 4
  match c.byId.lookup (schemaId, templateId) with
  | none =>
    throw (.stated (text "sbe: unknown template ID " ++ decimal templateId ++
      text " in schema " ++ decimal schemaId))
  | some (_, tmpl) =>
    if blockLength < tmpl.blockLength then
      throw (.stated (text "sbe: wire blockLength " ++ decimal blockLength ++
        text " < schema blockLength " ++ decimal tmpl.blockLength ++ text " for template " ++
        decimal templateId))
    if data.length < 8 + blockLength then
      throw (.stated (text "sbe: data too short for root block"))
    validateGroups data c.maxRepeated (8 + blockLength) tmpl.groups
    return { data, block := subspan data 8 blockLength
             fields := tmpl.fields, groups := tmpl.groups }

end Codec

namespace View

def findField (view : View) (name : Bytes) : Option FieldTemplate :=
  view.fields.find? (·.fd.name = name)

def region (view : View) (ft : FieldTemplate) : Bytes := subspan view.block ft.offset ft.size

def bool (view : View) (name : Bytes) : Bool :=
  match view.findField name with
  | none => false
  | some ft => if ft.size = 0 then false else view.block.getD ft.offset 0 ≠ 0

def isNumberSize (size : Nat) : Bool := size = 1 || size = 2 || size = 4 || size = 8

def int (view : View) (name : Bytes) : Int :=
  match view.findField name with
  | none => 0
  | some ft =>
    if isNumberSize ft.size then asSigned (8 * ft.size) (ofLittle (view.region ft)) else 0

def uint (view : View) (name : Bytes) : Nat :=
  match view.findField name with
  | none => 0
  | some ft => if isNumberSize ft.size then ofLittle (view.region ft) else 0

def float (view : View) (name : Bytes) : UInt64 :=
  match view.findField name with
  | none => 0
  | some ft =>
    if ft.size = 4 then widen (.ofNat (ofLittle (view.region ft)))
    else if ft.size = 8 then .ofNat (ofLittle (view.region ft))
    else 0

def string (view : View) (name : Bytes) : Bytes :=
  match view.findField name with
  | none => []
  | some ft => trimmed (view.region ft)

def bytes (view : View) (name : Bytes) : Bytes :=
  match view.findField name with
  | none => []
  | some ft => view.region ft

def groupFrom (data name : Bytes) : Nat → List GroupTemplate → GroupView
  | _, [] => {}
  | pos, gt :: rest =>
    if data.length < pos + 4 then {}
    else
      let entryBlock := loadU16 data (8 + pos)
      let count := loadU16 data (8 + pos + 2)
      if gt.fd.name = name then
        { data := subspan data (8 + pos + 4) (entryBlock * count)
          blockLength := entryBlock, count, fields := gt.fields }
      else groupFrom data name (pos + (4 + entryBlock * count)) rest

def group (view : View) (name : Bytes) : GroupView :=
  groupFrom view.data name view.block.length view.groups

def composite (view : View) (name : Bytes) : View :=
  match view.findField name with
  | none => {}
  | some ft =>
    if ft.composite.isEmpty then {}
    else { data := view.data, block := view.region ft, fields := ft.composite }

end View

namespace GroupView

def len (group : GroupView) : Nat := group.count

def entry (group : GroupView) (i : Nat) : View :=
  if group.count ≤ i ∨ group.data.length < (i + 1) * group.blockLength then {}
  else
    { block := subspan group.data (i * group.blockLength) group.blockLength
      fields := group.fields }

end GroupView

end Protowire.Sbe
