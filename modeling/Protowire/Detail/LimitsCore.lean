import Mathlib.Algebra.Group.Nat.Defs

/-!
The default decode limits that the binary codecs share.
-/

namespace Protowire.Limit

def maxNestingDepth : Nat := 100

def maxMessageSize : Nat := 64 * 2 ^ 20

def maxNumericLiteralDigits : Nat := 4096

def maxBigFloatExponent : Nat := 16384

def maxRepeatedCount : Nat := maxMessageSize

def resolve (limit : Int32) (standard : Nat) : Nat :=
  if 0 < limit then limit.toInt.toNat else standard

theorem resolve_lt (limit : Int32) {standard : Nat} (small : standard < 2 ^ 31) :
    resolve limit standard < 2 ^ 31 := by
  have bound := limit.toInt_lt
  rw [resolve]
  split <;> omega

end Protowire.Limit
