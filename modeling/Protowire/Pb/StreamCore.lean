import Protowire.Pb.NativeCore

/-!
Length-prefixed framing. A stream is the bytes that are left of it, and ends where they do; a
stream that fails for another reason is not modelled.
-/

namespace Protowire.Pb.Native

open Support Wire

def eof : Bytes := text "EOF"

def unexpectedEOF : Bytes := text "unexpected EOF"

def framingCorrupt : Bytes := text "pb: stream framing corrupt"

def corrupt (why : Bytes) : Bytes := framingCorrupt ++ text ": " ++ why

def writeFrame (body : Bytes) : Bytes := appendVarint body.length ++ body

def encode (S : Schema) (opts : MarshalOptions) (written : Bytes) (message : Nat × Value) :
    Except Bytes Bytes :=
  match marshal S message.1 message.2 opts with
  | .error msg => .error msg
  | .ok body => .ok (written ++ writeFrame body)

def encodeAll (S : Schema) (opts : MarshalOptions) (messages : List (Nat × Value)) :
    Except Bytes Bytes := messages.foldlM (encode S opts) []

inductive VarintEnd where
  | ok (n : Nat)
  | eof
  | unexpectedEOF
  | overflow
deriving DecidableEq, Repr

/-- `ReadUvarint` from the byte of index `i`, with the bits of `x` read so far. -/
def readUvarintFrom (i x : Nat) : Bytes → VarintEnd × Bytes
  | [] => (if 0 < i then .unexpectedEOF else .eof, [])
  | b :: rest =>
    if b.toNat < 0x80 then
      if i = 9 ∧ 1 < b.toNat then (.overflow, rest) else (.ok (x + b.toNat * 0x80 ^ i), rest)
    -- the loop ends after ten bytes
    else if i = 9 then (.overflow, rest)
    else readUvarintFrom (i + 1) (x + b.toNat % 0x80 * 0x80 ^ i) rest

def readUvarint (r : Bytes) : VarintEnd × Bytes := readUvarintFrom 0 0 r

structure Decoder where
  r : Bytes
  max : Int := 16 * 2 ^ 20
  err : Option Bytes := none
deriving DecidableEq, Repr

def Decoder.fail {α : Type} (d : Decoder) (r : Bytes) (msg : Bytes) : Except Bytes α × Decoder :=
  (.error msg, { d with r, err := some msg })

def readFrame (d : Decoder) : Except Bytes Bytes × Decoder :=
  match d.err with
  | some msg => (.error msg, d)
  | none =>
    match readUvarint d.r with
    | (.eof, r) => (.error eof, { d with r })
    | (.unexpectedEOF, r) => d.fail r unexpectedEOF
    | (.overflow, r) => d.fail r (corrupt (text "binary: varint overflows a 64-bit integer"))
    | (.ok n, r) =>
      if asUnsigned 64 d.max < n then
        d.fail r (corrupt
          (text "frame size " ++ decimal n ++ text " exceeds max " ++ signedDecimal d.max))
      else if r.length < n then d.fail [] unexpectedEOF
      else (.ok (r.take n), { d with r := r.drop n })

def decode (S : Schema) (opts : UnmarshalOptions) (d : Decoder) (id : Nat) (v : Value) :
    Except Bytes Value × Decoder :=
  match readFrame d with
  | (.error msg, d) => (.error msg, d)
  | (.ok body, d) => (unmarshal S id body v opts, d)

def decodeEach (S : Schema) (opts : UnmarshalOptions) :
    Decoder → List (Nat × Value) → List (Except Bytes Value)
  | _, [] => []
  | d, (id, v) :: targets =>
    (decode S opts d id v).1 :: decodeEach S opts (decode S opts d id v).2 targets

end Protowire.Pb.Native
