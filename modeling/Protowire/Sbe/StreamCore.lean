import Protowire.Detail.GoQuoteCore
import Protowire.Sbe.CodecCore

/-!
Simple Open Framing Header: a frame is its total length and the encoding type, big-endian, and a
body the codec reads and writes. A stream is the bytes that are left of it; one that fails for
another reason than its end is not modelled.
-/

namespace Protowire.Sbe

open Support

def eof : Problem := .stated (text "EOF")

def unexpectedEOF : Problem := .stated (text "unexpected EOF")

def sofhEncodingSbeLE : Nat := 0xEB50

def sofhHeaderLen : Nat := 6

def corrupt (why : Bytes) : Problem :=
  .stated (text "sbe: stream framing corrupt" ++ text ": " ++ why)

def toBig (width n : Nat) : Bytes := (toLittle width n).reverse

def writeFrame (body : Bytes) : Bytes :=
  toBig 4 (sofhHeaderLen + body.length) ++ toBig 2 sofhEncodingSbeLE ++ body

def Codec.encode (c : Codec) (written : Bytes) (message : Bytes × Message) :
    Except Problem Bytes := do
  let body ← c.marshal message.1 message.2
  return written ++ writeFrame body

def Codec.encodeAll (c : Codec) (messages : List (Bytes × Message)) : Except Problem Bytes :=
  messages.foldlM c.encode []

structure Decoder where
  r : Bytes
  max : Int := 16 * 2 ^ 20
  err : Option Problem := none

def Decoder.fail {α : Type} (d : Decoder) (r : Bytes) (problem : Problem) :
    Except Problem α × Decoder :=
  (.error problem, { d with r, err := some problem })

def Decoder.readFrame (d : Decoder) : Except Problem Bytes × Decoder :=
  match d.err with
  | some problem => (.error problem, d)
  | none =>
    if d.r.length < sofhHeaderLen then
      if d.r.isEmpty then (.error eof, d) else d.fail [] unexpectedEOF
    else
      let r := d.r.drop sofhHeaderLen
      let total := ofBig 0 (d.r.take 4)
      let enc := ofBig 0 ((d.r.drop 4).take 2)
      let bodyLen := total - sofhHeaderLen
      if enc ≠ sofhEncodingSbeLE then
        d.fail r (corrupt (text "SOFH encoding type " ++ text "0x" ++ appendHex enc 4 ++
          text " not supported"))
      else if total < sofhHeaderLen then
        d.fail r (corrupt (text "SOFH total length " ++ decimal total ++ text " < header size"))
      else if d.max < bodyLen then
        d.fail r (corrupt (text "frame size " ++ decimal bodyLen ++ text " exceeds max " ++
          signedDecimal d.max))
      else if r.length < bodyLen then d.fail [] unexpectedEOF
      else (.ok (r.take bodyLen), { d with r := r.drop bodyLen })

def Codec.decode (c : Codec) (d : Decoder) (fullName : Bytes) (msg : Message) :
    Except Problem Message × Decoder :=
  match d.readFrame with
  | (.error problem, d) => (.error problem, d)
  | (.ok body, d) => (c.unmarshal fullName body msg, d)

def Codec.decodeEach (c : Codec) : Decoder → List Bytes → List (Except Problem Message)
  | _, [] => []
  | d, fullName :: fullNames =>
    (c.decode d fullName .fresh).1 :: c.decodeEach (c.decode d fullName .fresh).2 fullNames

end Protowire.Sbe
