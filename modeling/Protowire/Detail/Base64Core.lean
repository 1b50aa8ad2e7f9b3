import Protowire.Detail.BytesCore

/-!
Base64 as the readers and the writer use it: the standard alphabet with padding on the way
out, and `encoding/base64`'s quantum loop, newlines skipped and trailing bits dropped, on the
way in.
-/

namespace Protowire

def base64Alphabet : Bytes :=
  text "ABCDEFGHIJKLMNOPQRSTUVWXYZabcdefghijklmnopqrstuvwxyz0123456789+/"

def base64Char (value index : Nat) : UInt8 := peek base64Alphabet (value / 64 ^ (3 - index) % 64)

def base64EncodeStd : Bytes → Bytes
  | [] => []
  | [a] =>
    let v := a.toNat * 0x10000
    [base64Char v 0, base64Char v 1, 0x3D, 0x3D]
  | [a, b] =>
    let v := a.toNat * 0x10000 + b.toNat * 0x100
    [base64Char v 0, base64Char v 1, base64Char v 2, 0x3D]
  | a :: b :: c :: rest =>
    let v := a.toNat * 0x10000 + b.toNat * 0x100 + c.toNat
    base64Char v 0 :: base64Char v 1 :: base64Char v 2 :: base64Char v 3 :: base64EncodeStd rest

def base64Value (url : Bool) (c : UInt8) : Option Nat :=
  if 0x41 ≤ c && c ≤ 0x5A then some (c.toNat - 0x41)
  else if 0x61 ≤ c && c ≤ 0x7A then some (c.toNat - 0x61 + 26)
  else if 0x30 ≤ c && c ≤ 0x39 then some (c.toNat - 0x30 + 52)
  else if c = (if url then 0x2D else 0x2B) then some 62
  else if c = (if url then 0x5F else 0x2F) then some 63
  else none

def isLineBreak (c : UInt8) : Bool := c = 0x0A || c = 0x0D

def quantumBytes (value length : Nat) : Bytes :=
  [value / 0x10000, value / 0x100, value].take (length - 1) |>.map Nat.toUInt8

/-- What follows the first `=` of a quantum, `read` characters of which precede it; `offset` is
the index of `rest` in the source. The padding has to end the source. -/
def base64Padding (offset read : Nat) (rest : Bytes) : Except Nat Unit :=
  let skipped := spanLength isLineBreak rest
  let after := rest.drop skipped
  let close (offset : Nat) (rest : Bytes) : Except Nat Unit :=
    let skipped := spanLength isLineBreak rest
    if skipped < rest.length then .error (offset + skipped) else .ok ()
  if read = 2 then
    match after with
    | [] => .error (offset + skipped)
    | c :: tail => if c = 0x3D then close (offset + skipped + 1) tail
                   else .error (offset + skipped - 1)
  else close offset rest

/-- The quantum loop of `DecodeGo`. `offset` is the index of the bytes left, `read` how many
characters of the current quantum were read and `value` their bits. The error is the offset
the source reports. -/
def decodeQuanta (url padded : Bool) (offset read value : Nat) : Bytes → Except Nat Bytes
  | [] =>
    if read = 0 then .ok []
    else if read = 1 || padded then .error (offset - read)
    else .ok (quantumBytes value read)
  | c :: rest =>
    match base64Value url c with
    | some v =>
      let value := value + v * 64 ^ (3 - read)
      if read = 3 then
        (quantumBytes value 4 ++ ·) <$> decodeQuanta url padded (offset + 1) 0 0 rest
      else decodeQuanta url padded (offset + 1) (read + 1) value rest
    | none =>
      if isLineBreak c then decodeQuanta url padded (offset + 1) read value rest
      else if !padded || c ≠ 0x3D then .error offset
      else if read < 2 then .error offset
      else (fun _ => quantumBytes value read) <$> base64Padding (offset + 1) read rest

def decodeGo (url padded : Bool) (src : Bytes) : Except Nat Bytes := decodeQuanta url padded 0 0 0 src

def base64DecodeProto (s : Bytes) : Except Nat Bytes :=
  match decodeGo false true s with
  | .ok decoded => .ok decoded
  | .error _ => decodeGo true true s

/-- The reading of a bytes literal: padded or not, in either alphabet. The offset of a failure
is that of the first reading. -/
def base64DecodeLenient (s : Bytes) : Except Nat Bytes :=
  match decodeGo false true s with
  | .ok decoded => .ok decoded
  | .error offset =>
    match [(false, false), (true, true), (true, false)].findSome? fun (url, padded) =>
        (decodeGo url padded s).toOption with
    | some decoded => .ok decoded
    | none => .error offset

end Protowire
