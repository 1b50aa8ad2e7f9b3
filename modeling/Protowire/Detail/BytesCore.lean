import Mathlib.Algebra.Group.Int.Defs
import Mathlib.Algebra.Group.Nat.Defs
import Mathlib.Tactic.Common

/-!
Byte strings. `std::string` and `std::string_view` are lists of bytes here, and every
message and literal the code writes is one of them.
-/

namespace Protowire

abbrev Bytes := List UInt8

def text (constant : String) : Bytes := constant.toUTF8.data.toList

def decimal (n : Nat) : Bytes := (Nat.toDigits 10 n).map fun c => c.toNat.toUInt8

def signedDecimal (n : Int) : Bytes :=
  if n < 0 then 0x2D :: decimal n.natAbs else decimal n.natAbs

def peek (s : Bytes) (index : Nat) : UInt8 := s.getD index 0

def opensWith (lead s : Bytes) : Bool := lead.isPrefixOf s

def isDigit (c : UInt8) : Bool := 0x30 ≤ c && c ≤ 0x39

def digitValue (c : UInt8) : Nat := c.toNat - 0x30

def digitsValue (accumulated : Nat) (s : Bytes) : Nat :=
  s.foldl (fun value c => value * 10 + digitValue c) accumulated

def spanLength (keep : UInt8 → Bool) (s : Bytes) : Nat := (s.takeWhile keep).length

end Protowire
