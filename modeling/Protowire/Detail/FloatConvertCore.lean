import Protowire.Detail.FloatCore
import Protowire.Support.Rounding

/-!
Conversion between `float` and `double`, rounding to nearest and half to even. A finite number is
a significand times a power of two, the power that of the last bit of its format.
-/

namespace Protowire

open Support

namespace Binary32

def sign (bits : UInt32) : Nat := bits.toNat / 2 ^ 31

def ofParts (s magnitude : Nat) : UInt32 := .ofNat (s * 2 ^ 31 + magnitude)

def significand (magnitude : Nat) : Nat × Nat :=
  if magnitude / 2 ^ 23 = 0 then (magnitude, 0)
  else (2 ^ 23 + magnitude % 2 ^ 23, magnitude / 2 ^ 23 - 1)

def infinity : Nat := 0x7F800000

end Binary32

namespace Binary64

def sign (bits : UInt64) : Nat := bits.toNat / 2 ^ 63

def ofParts (s magnitude : Nat) : UInt64 := .ofNat (s * 2 ^ 63 + magnitude)

def significand (magnitude : Nat) : Nat × Nat :=
  if magnitude / 2 ^ 52 = 0 then (magnitude, 0)
  else (2 ^ 52 + magnitude % 2 ^ 52, magnitude / 2 ^ 52 - 1)

def infinity : Nat := 0x7FF0000000000000

end Binary64

def largestFloat : Nat := 0x47EFFFFFE0000000

def exponentGap : Nat := 925

def widenMagnitude (magnitude : Nat) : Nat :=
  if Binary32.infinity < magnitude then
    Binary64.infinity + 2 ^ 51 + magnitude % 2 ^ 22 * 2 ^ 29
  else if magnitude = Binary32.infinity then Binary64.infinity
  else
    let (n, e) := Binary32.significand magnitude
    if n = 0 then 0
    else
      -- the significand moves to the top of the format, its exponent along
      let shift := 53 - bitLength n
      (e + exponentGap - shift) * 2 ^ 52 + n * 2 ^ shift

def widen (bits : UInt32) : UInt64 :=
  Binary64.ofParts (Binary32.sign bits) (widenMagnitude (Binary32.magnitude bits))

def narrowMagnitude (magnitude : Nat) : Nat :=
  if Binary64.infinity < magnitude then
    Binary32.infinity + 2 ^ 22 + magnitude / 2 ^ 29 % 2 ^ 22
  else if magnitude = Binary64.infinity then Binary32.infinity
  else
    let (n, e) := Binary64.significand magnitude
    -- the exponent of the last bit kept: 24 bits, or fewer below the smallest normal number
    let last := max (e + bitLength n - 24) exponentGap
    let rounded := if last ≤ e then n * 2 ^ (e - last) else halfEven n (2 ^ (last - e))
    min ((last - exponentGap) * 2 ^ 23 + rounded) Binary32.infinity

def narrow (bits : UInt64) : UInt32 :=
  Binary32.ofParts (Binary64.sign bits) (narrowMagnitude (Binary64.magnitude bits))

example : widen 0x3F800000 = 0x3FF0000000000000 := by decide

example : narrow 0x3FF0000010000000 = 0x3F800000 ∧ narrow 0x3FF0000030000000 = 0x3F800002 := by
  decide

example : widen 1 = 0x36A0000000000000 ∧ narrow 0x36A0000000000000 = 1 := by decide

end Protowire
