import Protowire.Detail.BytesCore

/-!
Arbitrary-precision decimal literals. A magnitude is a natural number here; the source keeps
it as big-endian bytes with no leading zero, which is how a message stores it.
-/

namespace Protowire.Pb

structure BigInt where
  abs : Nat := 0
  negative : Bool := false
deriving DecidableEq, Repr

structure Decimal where
  unscaled : Nat := 0
  scale : Int := 0
  negative : Bool := false
deriving DecidableEq, Repr

def magnitudeFrom : Nat → Nat → Bytes → Bytes
  | 0, _, low => low
  | fuel + 1, n, low =>
    if n = 0 then low else magnitudeFrom fuel (n / 256) ((n % 256).toUInt8 :: low)

def magnitudeBytes (n : Nat) : Bytes := magnitudeFrom (n.log2 / 8 + 1) n []

def parseDigits (mag : Nat) (s : Bytes) : Option Nat :=
  if s.all isDigit then some (digitsValue mag s) else none

def splitSign (s : Bytes) : Bool × Bytes :=
  if peek s 0 = 0x2D then (true, s.drop 1)
  else if peek s 0 = 0x2B then (false, s.drop 1)
  else (false, s)

def parseBigInt (s : Bytes) : Option BigInt :=
  let digits := (splitSign s).2
  if digits.isEmpty then none
  else (parseDigits 0 digits).map fun abs => ⟨abs, (splitSign s).1 && abs ≠ 0⟩

def wholePart (s : Bytes) : Bytes := s.takeWhile (· ≠ 0x2E)

def fractionPart (s : Bytes) : Bytes := (s.dropWhile (· ≠ 0x2E)).drop 1

def parseDecimal (s : Bytes) : Option Decimal :=
  let digits := (splitSign s).2
  let whole := wholePart digits
  let fraction := fractionPart digits
  if whole.isEmpty && fraction.isEmpty then none
  else do
    let mag ← parseDigits 0 whole
    let unscaled ← parseDigits mag fraction
    some ⟨unscaled, fraction.length, (splitSign s).1 && unscaled ≠ 0⟩

end Protowire.Pb
