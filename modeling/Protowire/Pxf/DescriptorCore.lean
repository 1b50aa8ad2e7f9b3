import Protowire.Detail.BytesCore

/-!
Schemas: message types as a descriptor pool gives them, the well-known types among them and
the annotations the decoder reads. A message type is named by its place in the pool.
-/

namespace Protowire.Pxf

structure EnumDescriptor where
  fullName : Bytes
  values : List (Bytes × Int)
deriving DecidableEq, Repr

/-- `FieldDescriptor::Type`. -/
inductive FieldType where
  | double
  | float
  | int64
  | uint64
  | int32
  | fixed64
  | fixed32
  | bool
  | string
  | group (type : Nat)
  | message (type : Nat)
  | bytes
  | uint32
  | enum (type : EnumDescriptor)
  | sfixed32
  | sfixed64
  | sint32
  | sint64
deriving DecidableEq, Repr

inductive CppType where
  | int32
  | int64
  | uint32
  | uint64
  | double
  | float
  | bool
  | enum (type : EnumDescriptor)
  | string
  | message (type : Nat)
deriving DecidableEq, Repr

def FieldType.cppType : FieldType → CppType
  | .double => .double
  | .float => .float
  | .int64 | .sfixed64 | .sint64 => .int64
  | .uint64 | .fixed64 => .uint64
  | .int32 | .sfixed32 | .sint32 => .int32
  | .uint32 | .fixed32 => .uint32
  | .bool => .bool
  | .string | .bytes => .string
  | .enum type => .enum type
  | .group type | .message type => .message type

structure FieldDescriptor where
  name : Bytes
  index : Nat
  type : FieldType
  repeated : Bool := false
  isMap : Bool := false
  hasPresence : Bool := false
  isRequired : Bool := false
  oneof : Option Bytes := none
  pxfRequired : Bool := false
  keyName : Option Bytes := none
deriving DecidableEq, Repr

def FieldDescriptor.cppType (fd : FieldDescriptor) : CppType := fd.type.cppType

structure Descriptor where
  fullName : Bytes := []
  fields : List FieldDescriptor := []
  indexed : fields.map (·.index) = List.range fields.length := by decide
  distinct : (fields.map (·.name)).Nodup := by decide

namespace Descriptor

def findFieldByName (d : Descriptor) (name : Bytes) : Option FieldDescriptor :=
  d.fields.find? (·.name = name)

structure WktField where
  name : Bytes
  type : FieldType
  repeated : Bool := false
  optional : Bool := false

def fieldFits (f : WktField) : Option FieldDescriptor → Bool
  | none => f.optional
  | some fd => fd.type = f.type && !fd.isMap && fd.repeated = f.repeated

def fits (d : Descriptor) (fields : List WktField) : Bool :=
  fields.all fun f => fieldFits f (d.findFieldByName f.name)

def isWkt (d : Descriptor) (name : String) (fields : List WktField) : Bool :=
  d.fullName = text name && d.fits fields

def secondsFields : List WktField := [⟨text "seconds", .int64, false, false⟩,
  ⟨text "nanos", .int32, false, false⟩]

def isTimestamp (d : Descriptor) : Bool := d.isWkt "google.protobuf.Timestamp" secondsFields

def isDuration (d : Descriptor) : Bool := d.isWkt "google.protobuf.Duration" secondsFields

def anyFields : List WktField := [⟨text "type_url", .string, false, false⟩,
  ⟨text "value", .bytes, false, false⟩]

def isAny (d : Descriptor) : Bool := d.isWkt "google.protobuf.Any" anyFields

def bigIntFields : List WktField := [⟨text "abs", .bytes, false, false⟩,
  ⟨text "negative", .bool, false, false⟩]

def isBigInt (d : Descriptor) : Bool := d.isWkt "pxf.BigInt" bigIntFields

def decimalFields : List WktField := [⟨text "unscaled", .bytes, false, false⟩,
  ⟨text "scale", .int32, false, false⟩, ⟨text "negative", .bool, false, false⟩]

def isDecimal (d : Descriptor) : Bool := d.isWkt "pxf.Decimal" decimalFields

def bigFloatFields : List WktField := [⟨text "mantissa", .bytes, false, false⟩,
  ⟨text "exponent", .int32, false, false⟩, ⟨text "prec", .uint32, false, false⟩,
  ⟨text "negative", .bool, false, false⟩]

def isBigFloat (d : Descriptor) : Bool := d.isWkt "pxf.BigFloat" bigFloatFields

def secretFields : List WktField := [⟨text "value", .string, false, false⟩,
  ⟨text "hint", .string, false, true⟩, ⟨text "fingerprint", .string, false, true⟩]

def isSecret (d : Descriptor) : Bool := d.isWkt "pxf.Secret" secretFields

def wrappers : List (String × FieldType) :=
  [("google.protobuf.BoolValue", .bool), ("google.protobuf.BytesValue", .bytes),
   ("google.protobuf.DoubleValue", .double), ("google.protobuf.FloatValue", .float),
   ("google.protobuf.Int32Value", .int32), ("google.protobuf.Int64Value", .int64),
   ("google.protobuf.StringValue", .string), ("google.protobuf.UInt32Value", .uint32),
   ("google.protobuf.UInt64Value", .uint64)]

def wrapperFields (value : FieldType) : List WktField := [⟨text "value", value, false, false⟩]

def isWrapper (d : Descriptor) : Bool := wrappers.any fun w => d.isWkt w.1 (wrapperFields w.2)

def isDefaultable (d : Descriptor) : Bool :=
  d.isTimestamp || d.isDuration || d.isWrapper || d.isBigInt || d.isDecimal || d.isBigFloat

end Descriptor

structure Pool where
  messages : List Descriptor
  schemaProblem : Nat → Option Bytes := fun _ => none

def Pool.message (pool : Pool) (type : Nat) : Descriptor := pool.messages.getD type {}

def Pool.keyField (pool : Pool) (fd : FieldDescriptor) : Option FieldDescriptor :=
  match fd.cppType with
  | .message type =>
    if !fd.repeated || fd.isMap then none
    else
      match fd.keyName with
      | none => none
      | some name =>
        if name.isEmpty then none
        else
          match (pool.message type).findFieldByName name with
          | none => none
          | some key =>
            if key.repeated || key.isMap || key.type ≠ .string then none else some key
  | _ => none

def Descriptor.mapKey (d : Descriptor) : Option FieldDescriptor := d.fields[0]?

def Descriptor.mapValue (d : Descriptor) : Option FieldDescriptor := d.fields[1]?

end Protowire.Pxf
