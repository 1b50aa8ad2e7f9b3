import Protowire.Pxf.DescriptorCore

/-!
Bind-time checks of one schema file. The walk goes through its messages once for names, annotations
and well-known types, and a second time for options with retired numbers.
-/

namespace Protowire.Pxf

open Descriptor

inductive ViolationKind where
  | field
  | oneof
  | enumValue
  | keyOption
  | requiredOption
  | defaultOption
  | retiredNumber
  | wellKnownShape
deriving DecidableEq

structure Finding where
  element : Bytes
  name : Bytes
  kind : ViolationKind
  detail : Bytes
  annotationForm : Bool
deriving DecidableEq

/-- What has options, with the numbers of the unknown fields in them. -/
structure Optioned where
  fullName : Bytes
  unknown : List Nat

structure SchemaElement extends Optioned where
  name : Bytes

/-- What `ReadFieldAnnotations` gives. -/
structure FieldAnnotations where
  required : Bool := false
  requiredFromCarrier : Bool := false
  default : Option Bytes := none
  defaultFromCarrier : Bool := false
  defaultProblem : Bytes := []

structure SchemaField extends FieldDescriptor, SchemaElement, FieldAnnotations where
  hasOptions : Bool
  bare : hasOptions = false →
    keyName = none ∧ required = false ∧ default = none ∧ defaultProblem = []

structure SchemaEnum extends Optioned where
  values : List SchemaElement

/-- The synthetic oneofs are those of optional fields. They come after the real ones. -/
structure MessageParts extends Optioned where
  fields : List SchemaField
  realOneofs : List SchemaElement
  syntheticOneofs : List SchemaElement
  enums : List SchemaEnum

def MessageParts.oneofs (md : MessageParts) : List SchemaElement :=
  md.realOneofs ++ md.syntheticOneofs

inductive SchemaMessage where
  | mk (parts : MessageParts) (nested : List SchemaMessage)

structure SchemaService extends Optioned where
  methods : List Optioned

structure SchemaFile where
  name : Bytes
  unknown : List Nat
  messages : List SchemaMessage
  enums : List SchemaEnum
  services : List SchemaService

def isReservedName (name : Bytes) : Bool :=
  name = text "null" || name = text "true" || name = text "false"

def SchemaElement.reservedFinding (kind : ViolationKind) (e : SchemaElement) : Finding :=
  ⟨e.fullName, e.name, kind, [], false⟩

def SchemaElement.reserved (kind : ViolationKind) (e : SchemaElement) : List Finding :=
  if isReservedName e.name then [e.reservedFinding kind] else []

def walkEnums (enums : List SchemaEnum) : List Finding :=
  enums.flatMap fun e => e.values.flatMap (SchemaElement.reserved .enumValue)

def wktShapes : List (String × List WktField) :=
  [("google.protobuf.Timestamp", secondsFields), ("google.protobuf.Duration", secondsFields),
   ("google.protobuf.Any", anyFields),
   ("google.protobuf.FieldMask", [⟨text "paths", .string, true, false⟩]),
   ("pxf.BigInt", bigIntFields), ("pxf.Decimal", decimalFields), ("pxf.BigFloat", bigFloatFields),
   ("pxf.Secret", secretFields)] ++ wrappers.map fun w => (w.1, wrapperFields w.2)

def longestShapeName : Nat := (wktShapes.map fun shape => (text shape.1).length).foldl max 0

def FieldType.typeName : FieldType → Bytes
  | .double => text "double"
  | .float => text "float"
  | .int64 => text "int64"
  | .uint64 => text "uint64"
  | .int32 => text "int32"
  | .fixed64 => text "fixed64"
  | .fixed32 => text "fixed32"
  | .bool => text "bool"
  | .string => text "string"
  | .group _ => text "group"
  | .message _ => text "message"
  | .bytes => text "bytes"
  | .uint32 => text "uint32"
  | .enum _ => text "enum"
  | .sfixed32 => text "sfixed32"
  | .sfixed64 => text "sfixed64"
  | .sint32 => text "sint32"
  | .sint64 => text "sint64"

def misfit (f : WktField) : Option FieldDescriptor → Bytes
  | none => text "it has no field \"" ++ f.name ++ text "\""
  | some fd =>
    text "field \"" ++ f.name ++
      if fd.type ≠ f.type then
        text "\" is " ++ fd.type.typeName ++ text ", and must be " ++ f.type.typeName
      else text "\" has the wrong cardinality"

def MessageParts.findFieldByName (md : MessageParts) (name : Bytes) : Option FieldDescriptor :=
  (md.fields.map (·.toFieldDescriptor)).find? (·.name = name)

def MessageParts.shapeProblem (md : MessageParts) : List WktField → Bytes
  | [] => []
  | f :: rest =>
    let fd := md.findFieldByName f.name
    if fieldFits f fd then md.shapeProblem rest else misfit f fd

def MessageParts.wktShapeProblem (md : MessageParts) : Bytes :=
  if longestShapeName < md.fullName.length then []
  else if !opensWith (text "google.protobuf.") md.fullName &&
      !opensWith (text "pxf.") md.fullName then
    []
  else
    match wktShapes.find? fun shape => text shape.1 = md.fullName with
    | none => []
    | some shape => md.shapeProblem shape.2

def MessageParts.shapeFinding (md : MessageParts) (problem : Bytes) : Finding :=
  ⟨md.fullName, [], .wellKnownShape, problem, false⟩

def MessageParts.checkWktShape (md : MessageParts) : List Finding :=
  let problem := md.wktShapeProblem
  if problem.isEmpty then [] else [md.shapeFinding problem]

def requiredSpelling (fromCarrier : Bool) : Bytes :=
  if fromCarrier then text "@required" else text "(pxf.required)"

def defaultSpelling (fromCarrier : Bool) : Bytes :=
  if fromCarrier then text "@default" else text "(pxf.default)"

namespace SchemaField

variable (pool : Pool) (f : SchemaField)

def messageType : Option Descriptor :=
  match f.cppType with
  | .message type => some (pool.message type)
  | _ => none

def keyFinding (key detail : Bytes) : Finding := ⟨f.fullName, key, .keyOption, detail, false⟩

def notListed (key : Bytes) : Finding :=
  f.keyFinding key (text "(pxf.key) is valid only on repeated message-typed fields")

def keyMissing (md : Descriptor) (key : Bytes) : Finding :=
  f.keyFinding key
    (text "element message " ++ md.fullName ++ text " has no field \"" ++ key ++ text "\"")

-- The field was found by the name in the annotation.
def keyNotString (md : Descriptor) (key : Bytes) : Finding :=
  f.keyFinding key (text "key field " ++ md.fullName ++ text "." ++ key ++
    text " must be a singular string field")

def checkKeyOption (key : Bytes) : List Finding :=
  match f.messageType pool with
  | none => [f.notListed key]
  | some md =>
    if !f.repeated || f.isMap then [f.notListed key]
    else
      match md.findFieldByName key with
      | none => [f.keyMissing md key]
      | some kf =>
        if kf.repeated || kf.isMap || kf.type ≠ .string then [f.keyNotString md key] else []

def unusable : Finding := ⟨f.fullName, [], .defaultOption, f.defaultProblem, f.defaultFromCarrier⟩

def misplaced (why : Bytes) : Finding :=
  ⟨f.fullName, f.default.getD [], .defaultOption,
    defaultSpelling f.defaultFromCarrier ++ text " is not valid on " ++ why, f.defaultFromCarrier⟩

def onMap : Finding := f.misplaced (text "map fields: one literal cannot denote a map")

def onRepeated : Finding := f.misplaced (text "repeated fields: one literal cannot denote a list")

def onGroup : Finding := f.misplaced (text "group fields")

def onMessage (md : Descriptor) : Finding :=
  f.misplaced (text "message type " ++ md.fullName ++ text ": no PXF literal denotes it")

def checkDefaultPlacement : List Finding :=
  if f.isMap then [f.onMap]
  else if f.repeated then [f.onRepeated]
  else
    match f.type with
    | .group _ => [f.onGroup]
    | .message type =>
      if (pool.message type).isDefaultable then [] else [f.onMessage (pool.message type)]
    | _ => []

def exclusive : Finding :=
  ⟨f.fullName, f.default.getD [], .requiredOption,
    requiredSpelling f.requiredFromCarrier ++ text " and " ++
      defaultSpelling f.defaultFromCarrier ++
      text " are exclusive on one field: the first rejects a document where the field is absent," ++
      text " and the second treats it as supplied",
    f.requiredFromCarrier⟩

def requiredMember (oneof : Bytes) : Finding :=
  ⟨f.fullName, oneof, .requiredOption,
    requiredSpelling f.requiredFromCarrier ++ text " is not valid on a member of oneof \"" ++
      oneof ++
      text "\": read per field it demands that one arm always be chosen, which makes every other" ++
      text " arm undecodable",
    f.requiredFromCarrier⟩

def checkFieldAnnotations : List Finding :=
  (match f.keyName with
    | none => []
    | some key => f.checkKeyOption pool key) ++
  (if f.defaultProblem.isEmpty then [] else [f.unusable]) ++
  (if f.default.isSome then f.checkDefaultPlacement pool else []) ++
  (if f.required && f.default.isSome then [f.exclusive] else []) ++
  match f.oneof with
  | none => []
  | some oneof => if f.required then [f.requiredMember oneof] else []

def check : List Finding :=
  f.reserved .field ++ if f.hasOptions then f.checkFieldAnnotations pool else []

/-- The members that `CheckFieldAnnotations` puts on the list of defaults. -/
def hasOneofDefault : Bool := f.oneof.isSome && f.default.isSome

def excess (names : List Bytes) : Finding :=
  ⟨f.fullName, f.default.getD [], .defaultOption,
    text "at most one member of oneof \"" ++ f.oneof.getD [] ++ text "\" may carry a default; " ++
      decimal names.length ++ text " do (" ++ (text ", ").intercalate names ++ text ")",
    f.defaultFromCarrier⟩

end SchemaField

/-- The rest of the loop, after members of the oneofs `seen`. -/
def capDefaults (annotated : List SchemaField) (seen : List (Option Bytes)) :
    List SchemaField → List Finding
  | [] => []
  | m :: rest =>
    let members := annotated.filter (·.oneof = m.oneof)
    (if m.oneof ∈ seen then [] else if members.length < 2 then [] else
      members.map (·.excess (members.map (·.name)))) ++
      capDefaults annotated (seen ++ [m.oneof]) rest

def checkOneofDefaultCap (annotated : List SchemaField) : List Finding :=
  capDefaults annotated [] annotated

section Walking

variable (pool : Pool)

def MessageParts.checkOneofs (md : MessageParts) : List Finding :=
  let count := if 0 < md.realOneofs.length then md.realOneofs.length else md.oneofs.length
  (md.oneofs.take count).flatMap (SchemaElement.reserved .oneof)

mutual

def walkMessages : SchemaMessage → List Finding
  | .mk md nested =>
    md.checkWktShape ++ md.fields.flatMap (·.check pool) ++
      checkOneofDefaultCap (md.fields.filter (·.hasOneofDefault)) ++ md.checkOneofs ++
      walkNested nested ++ walkEnums md.enums

def walkNested : List SchemaMessage → List Finding
  | [] => []
  | md :: rest => walkMessages md ++ walkNested rest

end

end Walking

structure RetiredNumber where
  number : Nat
  was : String
  now : Nat
  file : String

def sbeFile := "sbe/annotations.proto"

def pxfFile := "pxf/annotations.proto"

def schemaFile := "protowire/schema/v1/descriptor.proto"

def protocheckFile := "protocheck's annotations"

def retiredFile : List RetiredNumber :=
  [⟨50100, "(sbe.schema_id)", 1319, sbeFile⟩,
   ⟨50101, "(sbe.version)", 1320, sbeFile⟩,
   ⟨50400, "the file_annotations carrier", 1327, schemaFile⟩,
   ⟨50401, "the functions carrier", 1328, schemaFile⟩,
   ⟨50402, "the annotation_decls carrier", 1329, schemaFile⟩,
   ⟨50403, "the type_decls carrier", 1330, schemaFile⟩,
   ⟨50404, "the source_map carrier", 1331, schemaFile⟩]

def retiredMessage : List RetiredNumber :=
  [⟨50200, "(sbe.template_id)", 1321, sbeFile⟩,
   ⟨50400, "the message_annotations carrier", 1327, schemaFile⟩,
   ⟨51001, "a protocheck message constraint", 1348, protocheckFile⟩]

def retiredField : List RetiredNumber :=
  [⟨50000, "(pxf.required)", 1314, pxfFile⟩,
   ⟨50001, "(pxf.default)", 1315, pxfFile⟩,
   ⟨50002, "(pxf.key)", 1316, pxfFile⟩,
   ⟨50300, "(sbe.length)", 1322, sbeFile⟩,
   ⟨50301, "(sbe.encoding)", 1323, sbeFile⟩,
   ⟨50400, "the field_annotations carrier", 1327, schemaFile⟩,
   ⟨51000, "a protocheck field constraint", 1347, protocheckFile⟩]

def retiredOneof : List RetiredNumber :=
  [⟨50400, "the oneof_annotations carrier", 1327, schemaFile⟩,
   ⟨51002, "a protocheck oneof constraint", 1349, protocheckFile⟩]

def retiredCarrierOnly : List RetiredNumber :=
  [⟨50400, "the *_annotations carrier", 1327, schemaFile⟩]

def RetiredNumber.finding (kind : String) (e : Optioned) (r : RetiredNumber) : Finding :=
  let number := decimal r.number
  ⟨e.fullName, number, .retiredNumber,
    text "option number " ++ number ++ text " on " ++ text kind ++ text " was " ++ text r.was ++
      text " before protowire v1.12.0 and is " ++ decimal r.now ++
      text " now; the descriptor predates the registered extension block and must be recompiled" ++
      text " against the current " ++ text r.file,
    false⟩

def retiredIn (kind : String) (table : List RetiredNumber) (e : Optioned) : List Finding :=
  e.unknown.flatMap fun number =>
    (table.filter (·.number = number)).map (RetiredNumber.finding kind e)

def walkRetiredEnum (e : SchemaEnum) : List Finding :=
  retiredIn "EnumOptions" retiredCarrierOnly e.toOptioned ++
    e.values.flatMap fun v => retiredIn "EnumValueOptions" retiredCarrierOnly v.toOptioned

mutual

def walkRetiredMessage : SchemaMessage → List Finding
  | .mk md nested =>
    retiredIn "MessageOptions" retiredMessage md.toOptioned ++
      md.fields.flatMap (fun f => retiredIn "FieldOptions" retiredField f.toOptioned) ++
      md.oneofs.flatMap (fun o => retiredIn "OneofOptions" retiredOneof o.toOptioned) ++
      md.enums.flatMap walkRetiredEnum ++ walkRetiredNested nested

def walkRetiredNested : List SchemaMessage → List Finding
  | [] => []
  | md :: rest => walkRetiredMessage md ++ walkRetiredNested rest

end

def walkRetired (fd : SchemaFile) : List Finding :=
  retiredIn "FileOptions" retiredFile ⟨fd.name, fd.unknown⟩ ++ walkRetiredNested fd.messages ++
    fd.enums.flatMap walkRetiredEnum ++
    fd.services.flatMap fun s =>
      retiredIn "ServiceOptions" retiredCarrierOnly s.toOptioned ++
        s.methods.flatMap (retiredIn "MethodOptions" retiredCarrierOnly)

def fileViolations (pool : Pool) (fd : SchemaFile) (importsProtowire : Bool) : List Finding :=
  walkNested pool fd.messages ++ walkEnums fd.enums ++
    if importsProtowire then walkRetired fd else []

end Protowire.Pxf
