import Protowire.Sbe.CodecCore
import Protowire.Sbe.XmlCore

/-!
`XMLToProto`, which writes a schema as the declarations of a `.proto` file.
-/

namespace Protowire.Sbe

inductive FieldOption where
  | none
  | encoding (primitive : Bytes)
  | length (value : Nat)
deriving DecidableEq, Repr

structure ProtoField where
  repeated : Bool := false
  type : Bytes
  name : Bytes
  number : Nat
  option : FieldOption := .none
  note : Bytes := []
deriving DecidableEq, Repr

inductive ProtoMember where
  | field (field : ProtoField)
  | message (name : Bytes) (fields : List ProtoField)
deriving DecidableEq, Repr

structure ProtoMessage where
  name : Bytes
  templateId : Option Nat := none
  members : List ProtoMember
deriving DecidableEq, Repr

structure ProtoEnum where
  name : Bytes
  values : List (Bytes × Bytes)
deriving DecidableEq, Repr

structure ProtoFile where
  package : Bytes
  schemaId : Nat
  version : Nat
  enums : List ProtoEnum
  messages : List ProtoMessage
deriving DecidableEq, Repr

namespace FieldOption

def render : FieldOption → Bytes
  | .none => []
  | .encoding primitive => text " [(sbe.encoding) = \"" ++ primitive ++ text "\"]"
  | .length value => text " [(sbe.length) = " ++ decimal value ++ text "]"

end FieldOption

/-- `WriteNote` and `WriteLine`. -/
def ProtoField.render (indent : Bytes) (f : ProtoField) : Bytes :=
  (if f.note.isEmpty then [] else indent ++ text "// " ++ f.note ++ text "\n") ++
    indent ++ (if f.repeated then text "repeated " else []) ++ f.type ++ text " " ++ f.name ++
    text " = " ++ decimal f.number ++ f.option.render ++ text ";\n"

def ProtoMember.render (indent : Bytes) : ProtoMember → Bytes
  | .field f => f.render indent
  | .message name fields =>
    indent ++ text "message " ++ name ++ text " \x7b\n" ++
      fields.flatMap (·.render (indent ++ text "  ")) ++ indent ++ text "\x7d\n"

def ProtoMessage.render (m : ProtoMessage) : Bytes :=
  text "message " ++ m.name ++ text " \x7b\n" ++
    (m.templateId.elim [] fun id =>
      text "  option (sbe.template_id) = " ++ decimal id ++ text ";\n") ++
    m.members.flatMap (·.render (text "  ")) ++ text "\x7d\n\n"

def ProtoEnum.render (e : ProtoEnum) : Bytes :=
  text "enum " ++ e.name ++ text " \x7b\n" ++
    (e.values.flatMap fun v => text "  " ++ v.1 ++ text " = " ++ v.2 ++ text ";\n") ++
    text "\x7d\n\n"

def ProtoFile.render (file : ProtoFile) : Bytes :=
  text "syntax = \"proto3\";\n\n" ++
    (if file.package.isEmpty then [] else text "package " ++ file.package ++ text ";\n\n") ++
    text "import \"sbe/annotations.proto\";\n\n" ++
    text "option (sbe.schema_id) = " ++ decimal file.schemaId ++ text ";\n" ++
    text "option (sbe.version) = " ++ decimal file.version ++ text ";\n\n" ++
    file.enums.flatMap ProtoEnum.render ++ file.messages.flatMap ProtoMessage.render

def charsetName : Bytes → Bytes
  -- lower case of the Kelvin sign and of the capital I with a dot
  | 0xE2 :: 0x84 :: 0xAA :: rest => 0x6B :: charsetName rest
  | 0xC4 :: 0xB0 :: rest => 0x69 :: charsetName rest
  | c :: rest =>
    if c ∈ text "-_.: " then charsetName rest else toLower c :: charsetName rest
  | [] => []

def isUTF8Compatible (encoding : Bytes) : Bool :=
  charsetName (trimSpace encoding) ∈
    [text "", text "usascii", text "ascii", text "ansix341968", text "ansix341986",
      text "iso646us", text "isoir6", text "iso646irv1991", text "us", text "ibm367",
      text "cp367", text "csascii", text "utf8", text "csutf8"]

def resolvePrimitive (primitive : Bytes) : Bytes × FieldOption :=
  if primitive = text "int8" then (text "int32", .encoding (text "int8"))
  else if primitive = text "int16" then (text "int32", .encoding (text "int16"))
  else if primitive = text "int32" then (text "int32", .none)
  else if primitive = text "int64" then (text "int64", .none)
  else if primitive = text "uint8" then (text "uint32", .encoding (text "uint8"))
  else if primitive = text "uint16" then (text "uint32", .encoding (text "uint16"))
  else if primitive = text "uint32" then (text "uint32", .none)
  else if primitive = text "uint64" then (text "uint64", .none)
  else if primitive = text "float" then (text "float", .none)
  else if primitive = text "double" then (text "double", .none)
  else (primitive, .none)

structure Resolved where
  protoType : Bytes
  option : FieldOption
  note : Bytes := []
deriving DecidableEq, Repr

def resolveType (t : XMLType) : Except Bytes Resolved :=
  if t.primitiveType = text "char" then
    let length := if t.length = 0 then 1 else t.length
    if isUTF8Compatible t.characterEncoding then .ok ⟨text "string", .length length, []⟩
    else
      .ok ⟨text "bytes", .length length,
        text "SBE characterEncoding " ++ goQuote t.characterEncoding ++
          text " is not UTF-8 compatible, so this field is bytes."⟩
  else if 1 < t.length then
    if t.primitiveType = text "uint8" ∨ t.primitiveType = text "int8" then
      .ok ⟨text "bytes", .length t.length, []⟩
    else
      .error (text "type " ++ goQuote t.name ++ text " is an array of " ++ decimal t.length ++
        text " " ++ t.primitiveType ++ text ", which no proto field represents")
  else
    let (type, option) := resolvePrimitive t.primitiveType
    .ok ⟨type, option, []⟩

def within {α : Type} (place : Bytes) (result : Except Bytes α) : Except Bytes α :=
  result.mapError (place ++ ·)

def Resolved.field (r : Resolved) (name : Bytes) (number : Nat) : ProtoField :=
  { type := r.protoType, name, number, option := r.option, note := r.note }

def enumDeclaration (e : XMLEnum) : ProtoEnum where
  name := e.name
  values := e.validValues.map fun v =>
    (camelToScreamingSnake e.name ++ text "_" ++ camelToScreamingSnake v.name, v.value)

def compositeTypes : Nat → List XMLType → Except Bytes (List ProtoField)
  | _, [] => .ok []
  | number, t :: rest => do
    let r ← resolveType t
    let fields ← compositeTypes (number + 1) rest
    return r.field (camelToSnake t.name) number :: fields

def XMLRef.field (ref : XMLRef) (number : Nat) : ProtoField :=
  { type := ref.type, name := camelToSnake ref.name, number }

def compositeRefs : Nat → List XMLRef → List ProtoField
  | _, [] => []
  | number, ref :: rest => ref.field number :: compositeRefs (number + 1) rest

/-- `WriteComposite`. -/
def compositeDeclaration (c : XMLComposite) : Except Bytes ProtoMessage := do
  let types ← within (text "sbe: composite " ++ goQuote c.name ++ text ": ")
    (compositeTypes 1 c.types)
  return { name := c.name
           members := (types ++ compositeRefs (1 + c.types.length) c.refs).map .field }

def Primitive.all : List Primitive :=
  [.int8, .int16, .int32, .int64, .uint8, .uint16, .uint32, .uint64, .float, .double, .char]

def builtinTypes : List XMLType :=
  Primitive.all.map fun p => { name := p.encodingName, primitiveType := p.encodingName }

namespace XMLTypes

def isEnumOrComposite (m : XMLTypes) (name : Bytes) : Bool :=
  m.enums.any (·.name = name) || m.composites.any (·.name = name)

def typeNamed (m : XMLTypes) (name : Bytes) : Option XMLType :=
  (builtinTypes ++ m.types).reverse.find? (·.name = name)

end XMLTypes

/-- `WriteField`. -/
def fieldDeclaration (m : XMLTypes) (f : XMLField) : Except Bytes ProtoField :=
  let name := camelToSnake f.name
  if m.isEnumOrComposite f.type then .ok { type := f.type, name, number := f.id }
  else
    match m.typeNamed f.type with
    | some t => do
      let r ← within (text "field " ++ goQuote f.name ++ text ": ") (resolveType t)
      return r.field name f.id
    -- an unknown type is passed through as it is
    | none => .ok { type := f.type, name, number := f.id }

/-- `WriteGroup`. -/
def groupDeclaration (m : XMLTypes) (g : XMLGroup) : Except Bytes (List ProtoMember) := do
  let fields ← within (text "group " ++ goQuote g.name ++ text ": ")
    (g.fields.mapM (fieldDeclaration m))
  return [.message (singularPascal g.name) fields,
    .field { repeated := true, type := singularPascal g.name, name := camelToSnake g.name
             number := g.id }]

/-- `WriteMessage`. -/
def messageDeclaration (m : XMLTypes) (msg : XMLMessage) : Except Bytes ProtoMessage :=
  within (text "sbe: message " ++ goQuote msg.name ++ text ": ") do
    let fields ← msg.fields.mapM (fieldDeclaration m)
    let groups ← msg.groups.mapM (groupDeclaration m)
    return { name := msg.name, templateId := some msg.id
             members := fields.map .field ++ groups.flatten }

def isFraming (name : Bytes) : Bool :=
  name = text "messageHeader" || name = text "groupSizeEncoding"

def protoFile (schema : XMLSchema) : Except Bytes ProtoFile := do
  let composites ← (schema.types.composites.filter fun c => !isFraming c.name).mapM
    compositeDeclaration
  let messages ← schema.messages.mapM (messageDeclaration schema.types)
  return { package := schema.package, schemaId := schema.id, version := schema.version
           enums := schema.types.enums.map enumDeclaration, messages := composites ++ messages }

def importedFile (parser : Bytes → Except Bytes Xml) (xml : Bytes) : Except Bytes ProtoFile := do
  let schema ← parseXMLSchema parser xml
  protoFile schema

def xmlToProto (parser : Bytes → Except Bytes Xml) (xml : Bytes) : Except Bytes Bytes :=
  ProtoFile.render <$> importedFile parser xml

def Kind.builtin : List Kind :=
  [.double, .float, .int64, .uint64, .int32, .fixed64, .fixed32, .bool, .string, .bytes, .uint32,
    .sfixed32, .sfixed64, .sint32, .sint64]

def Kind.ofTypeName (name : Bytes) : Option Kind := Kind.builtin.find? (·.typeName = name)

inductive TypeRef where
  | scalar (kind : Kind)
  | message (type : Descriptor)

namespace ProtoMember

def asField : ProtoMember → Option ProtoField
  | .field f => some f
  | .message _ _ => none

def asMessage : ProtoMember → Option (Bytes × List ProtoField)
  | .field _ => none
  | .message name fields => some (name, fields)

end ProtoMember

namespace ProtoMessage

def fields (m : ProtoMessage) : List ProtoField := m.members.filterMap ProtoMember.asField

def nested (m : ProtoMessage) : List (Bytes × List ProtoField) :=
  m.members.filterMap ProtoMember.asMessage

end ProtoMessage

def ProtoField.info (f : ProtoField) (scope : Bytes) : FieldInfo where
  name := f.name
  fullName := scope ++ text "." ++ f.name
  number := f.number
  repeated := f.repeated
  encoding := match f.option with
    | .encoding primitive => some primitive
    | _ => none
  length := match f.option with
    | .length value => some value
    | _ => none

def linkField (resolve : Bytes → Option TypeRef) (scope : Bytes) (f : ProtoField) :
    Option FieldDescriptor :=
  match resolve f.type with
  | some (.scalar kind) => some (.scalar (f.info scope) kind)
  | some (.message type) => some (.message (f.info scope) type)
  | none => none

def linkNested (resolve : Bytes → Option TypeRef) (scope : Bytes)
    (nested : Bytes × List ProtoField) : Option Descriptor := do
  let fullName := scope ++ text "." ++ nested.1
  let fields ← nested.2.mapM (linkField resolve fullName)
  return .mk fullName none false fields []

def linkMessage (resolve : Bytes → Option TypeRef) (fullName : Bytes) (m : ProtoMessage) :
    Option Descriptor := do
  let fields ← m.fields.mapM (linkField resolve fullName)
  let nested ← m.nested.mapM (linkNested resolve fullName)
  return .mk fullName m.templateId false fields nested

namespace ProtoFile

def qualified (file : ProtoFile) (name : Bytes) : Bytes :=
  if file.package.isEmpty then name else file.package ++ text "." ++ name

/-- What a type name stands for by the scoping rules of the language, in a message or in a message
declared in it: a scalar type, or the innermost declaration of the name. A type inside itself has no
finite depth. -/
def typeNamed (file : ProtoFile) : Nat → ProtoMessage → Bytes → Option TypeRef
  | 0, _, _ => none
  | depth + 1, scope, name =>
    match Kind.ofTypeName name with
    | some kind => some (.scalar kind)
    | none =>
      match scope.nested.find? (·.1 = name) with
      | some nested =>
        .message <$> linkNested (file.typeNamed depth scope) (file.qualified scope.name)
          nested
      | none =>
        if file.enums.any (·.name = name) then some (.scalar .enum)
        else
          match file.messages.find? (·.name = name) with
          | some m =>
            .message <$> linkMessage (file.typeNamed depth m) (file.qualified m.name) m
          | none => none

def link (file : ProtoFile) (depth : Nat) (m : ProtoMessage) : Option Descriptor :=
  linkMessage (file.typeNamed depth m) (file.qualified m.name) m

/-- What is assumed of a proto compiler on a file that it accepts: it makes of every message what
its declarations say, and lets no message declare two types of one name. -/
structure Compiles (file : ProtoFile) (compiler : Bytes → Option FileDescriptor)
    (compiled : FileDescriptor) : Prop where
  accepted : compiler file.render = some compiled
  linked : ∃ depth, List.Forall₂ (fun m md => file.link depth m = some md) file.messages
    compiled.messageTypes
  nested : ∀ m ∈ file.messages, (m.nested.map (·.1)).Nodup

end ProtoFile

end Protowire.Sbe
