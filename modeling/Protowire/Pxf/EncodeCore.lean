import Protowire.Detail.Base64Core
import Protowire.Detail.GoQuoteCore

/-!
The literals of the encoder.
-/

namespace Protowire.Pxf

def emitStringByte (c : UInt8) : Bytes :=
  if c = 0x22 then text "\\\""
  else if c = 0x5C then text "\\\\"
  else if c = 0x0A then text "\\n"
  else if c = 0x09 then text "\\t"
  else if c = 0x0D then text "\\r"
  else if c < 0x20 then text "\\x" ++ [hexDigit (c.toNat / 16), hexDigit (c.toNat % 16)]
  else [c]

def emitString (s : Bytes) : Bytes := 0x22 :: s.flatMap emitStringByte ++ [0x22]

end Protowire.Pxf
