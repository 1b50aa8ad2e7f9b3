import Protowire.Detail.BytesCore
import Protowire.Support.Digits
import Protowire.Support.Iterate

/-!
The protobuf wire format. An `Append` function is the bytes it appends; a `Consume` function
gives what it read and the rest of the span, or nothing where the source returns -1.
-/

namespace Protowire.Wire

open Support

inductive WireType where
  | varint
  | fixed64
  | bytes
  | startGroup
  | endGroup
  | fixed32
  | reserved6
  | reserved7
deriving DecidableEq, Repr

def WireType.code : WireType → Nat
  | .varint => 0
  | .fixed64 => 1
  | .bytes => 2
  | .startGroup => 3
  | .endGroup => 4
  | .fixed32 => 5
  | .reserved6 => 6
  | .reserved7 => 7

def WireType.ofCode : Nat → WireType
  | 0 => .varint
  | 1 => .fixed64
  | 2 => .bytes
  | 3 => .startGroup
  | 4 => .endGroup
  | 5 => .fixed32
  | 6 => .reserved6
  | _ => .reserved7

def encodeZigZag (v : Int) : Nat := (if v < 0 then -2 * v - 1 else 2 * v).toNat

def decodeZigZag (v : Nat) : Int := if v % 2 = 0 then (v / 2 : Nat) else -((v / 2 : Nat) : Int) - 1

def appendVarintFrom : Nat → Nat → Bytes
  | 0, v => [UInt8.ofNat v]
  | more + 1, v =>
    if v < 0x80 then [UInt8.ofNat v]
    else UInt8.ofNat (v % 0x80 + 0x80) :: appendVarintFrom more (v / 0x80)

def appendVarint (v : Nat) : Bytes := appendVarintFrom 9 v

def appendTag (num : Nat) (type : WireType) : Bytes := appendVarint (num * 8 + type.code)

def appendFixed32 (v : Nat) : Bytes := toLittle 4 v

def appendFixed64 (v : Nat) : Bytes := toLittle 8 v

def appendBytes (data : Bytes) : Bytes := appendVarint data.length ++ data

/-- `ConsumeVarint` from the byte of index `i`. -/
def consumeVarintFrom (i : Nat) : Bytes → Option (Nat × Bytes)
  | [] => none
  | b :: rest =>
    if 10 ≤ i then none
    -- past 64 bits
    else if i = 9 ∧ 1 < b.toNat then none
    else if b.toNat < 0x80 then some (b.toNat, rest)
    else
      match consumeVarintFrom (i + 1) rest with
      | none => none
      | some (high, rest) => some (b.toNat % 0x80 + 0x80 * high, rest)

def consumeVarint (data : Bytes) : Option (Nat × Bytes) := consumeVarintFrom 0 data

def consumeTag (data : Bytes) : Option (Nat × WireType × Bytes) :=
  match consumeVarint data with
  | none => none
  | some (v, rest) =>
    if v / 8 = 0 ∨ 0x7fffffff < v / 8 then none else some (v / 8, .ofCode (v % 8), rest)

/-- `ConsumeFixed32` and `ConsumeFixed64`. -/
def consumeFixed (width : Nat) (data : Bytes) : Option (Nat × Bytes) :=
  if data.length < width then none else some (ofLittle (data.take width), data.drop width)

def consumeFixed32 (data : Bytes) : Option (Nat × Bytes) := consumeFixed 4 data

def consumeFixed64 (data : Bytes) : Option (Nat × Bytes) := consumeFixed 8 data

def consumeBytes (data : Bytes) : Option (Bytes × Bytes) :=
  match consumeVarint data with
  | none => none
  | some (len, rest) => if rest.length < len then none else some (rest.take len, rest.drop len)

def fieldValueRecursionLimit : Nat := 10000

def consumePlainValue (type : WireType) (data : Bytes) : Option Bytes :=
  match type with
  | .varint => (consumeVarint data).map (·.2)
  | .fixed64 => (consumeFixed64 data).map (·.2)
  | .bytes => (consumeBytes data).map (·.2)
  | .fixed32 => (consumeFixed32 data).map (·.2)
  | _ => none

structure GroupState where
  data : Bytes
  open_ : List Nat

def groupTurn (s : GroupState) : Turn GroupState (Option Bytes) :=
  match s.open_ with
  | [] => .done (some s.data)
  | last :: outer =>
    match consumeTag s.data with
    | none => .done none
    | some (inner, type, rest) =>
      if type = .endGroup then if inner ≠ last then .done none else .next ⟨rest, outer⟩
      else if type = .startGroup then
        if fieldValueRecursionLimit < s.open_.length then .done none
        else .next ⟨rest, inner :: s.open_⟩
      else
        match consumePlainValue type rest with
        | none => .done none
        | some rest => .next ⟨rest, s.open_⟩

def consumeFieldValue (data : Bytes) (num : Nat) (type : WireType) : Option Bytes :=
  if type = .startGroup then
    loop (fun s => s.data.length) groupTurn (fun _ => none) ⟨data, [num]⟩
  else consumePlainValue type data

end Protowire.Wire
