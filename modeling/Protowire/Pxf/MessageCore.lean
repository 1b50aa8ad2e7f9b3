import Protowire.Pb.BigCore
import Protowire.Pxf.DescriptorCore

/-!
Messages as reflection reads and writes them. A message has one slot a field, in declared
order; a slot holds the field's values, none where the field is unset. A map is a repeated
field of entries, as reflection has it.
-/

namespace Protowire.Pxf

inductive Scalar where
  | int (value : Int)
  | bool (value : Bool)
  | float (bits : UInt32)
  | double (bits : UInt64)
  | bytes (value : Bytes)
deriving DecidableEq, Repr

inductive Item where
  | scalar (value : Scalar)
  | message (slots : List (List Item))

abbrev Message := List (List Item)

def Scalar.isZero : Scalar → Bool
  | .int value => value = 0
  | .bool value => !value
  | .float bits => bits = 0
  | .double bits => bits = 0
  | .bytes value => value.isEmpty

def Descriptor.empty (d : Descriptor) : Message := List.replicate d.fields.length []

namespace Message

def slot (msg : Message) (fd : FieldDescriptor) : List Item := msg.getD fd.index []

def setSlot (msg : Message) (fd : FieldDescriptor) (items : List Item) : Message :=
  msg.set fd.index items

/-- Sets a singular scalar. A field without presence that is set to zero reads as unset. -/
def setScalar (msg : Message) (fd : FieldDescriptor) (value : Scalar) : Message :=
  msg.setSlot fd (if !fd.hasPresence && value.isZero then [] else [.scalar value])

def add (msg : Message) (fd : FieldDescriptor) (item : Item) : Message :=
  msg.setSlot fd (msg.slot fd ++ [item])

def put (msg : Message) (fd : FieldDescriptor) (sub : Message) : Message :=
  msg.setSlot fd [.message sub]

/-- `Set` or `Add` of a scalar, as the field is written. -/
def write (msg : Message) (fd : FieldDescriptor) (repeated : Bool) (value : Scalar) : Message :=
  if repeated then msg.add fd (.scalar value) else msg.setScalar fd value

/-- `MutableMessage`: what the field holds, or a fresh message of its type. -/
def mutable (msg : Message) (fd : FieldDescriptor) (fresh : Message) : Message :=
  match msg.slot fd with
  | .message sub :: _ => sub
  | _ => fresh

def setNamed (msg : Message) (d : Descriptor) (name : String) (value : Scalar) : Message :=
  match d.findFieldByName (text name) with
  | none => msg
  | some fd => msg.setScalar fd value

def setNonzero (msg : Message) (d : Descriptor) (name : String) (value : Scalar) : Message :=
  if value.isZero then msg else msg.setNamed d name value

def setSeconds (msg : Message) (d : Descriptor) (seconds nanos : Int) : Message :=
  (msg.setNamed d "seconds" (.int seconds)).setNamed d "nanos" (.int nanos)

def setBigInt (msg : Message) (d : Descriptor) (n : Pb.BigInt) : Message :=
  (msg.setNonzero d "abs" (.bytes (Pb.magnitudeBytes n.abs))).setNonzero d "negative"
    (.bool n.negative)

def setDecimal (msg : Message) (d : Descriptor) (n : Pb.Decimal) : Message :=
  ((msg.setNonzero d "unscaled" (.bytes (Pb.magnitudeBytes n.unscaled))).setNonzero d "scale"
    (.int n.scale)).setNonzero d "negative" (.bool n.negative)

end Message

/-- The number a literal bound to a `pxf.Decimal` stands for. The sign is the literal's, which
`parseDecimal` drops for a zero. -/
def decimalLiteral (literal : Bytes) : Option Pb.Decimal :=
  (Pb.parseDecimal literal).map fun n => { n with negative := n.negative || peek literal 0 = 0x2D }

structure BigFloatFields where
  mantissa : Bytes
  exponent : Int
  prec : Nat
  negative : Bool
deriving DecidableEq, Repr

def Message.setBigFloat (msg : Message) (d : Descriptor) (f : BigFloatFields) : Message :=
  (((msg.setNonzero d "mantissa" (.bytes f.mantissa)).setNonzero d "exponent"
    (.int f.exponent)).setNonzero d "prec" (.int f.prec)).setNonzero d "negative"
      (.bool f.negative)

end Protowire.Pxf
