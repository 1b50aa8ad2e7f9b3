import Protowire.Detail.BytesCore

/-!
IEEE 754 values as the bits they are stored in.
-/

namespace Protowire

namespace Binary64

def magnitude (bits : UInt64) : Nat := bits.toNat % 2 ^ 63

def isNaN (bits : UInt64) : Bool := 0x7FF0000000000000 < magnitude bits

def isInf (bits : UInt64) : Bool := magnitude bits = 0x7FF0000000000000

def isZero (bits : UInt64) : Bool := magnitude bits = 0

def same (a b : UInt64) : Bool := !isNaN a && !isNaN b && (a = b || (isZero a && isZero b))

def canonicalNaN : UInt64 := 0x7FF8000000000000

end Binary64

namespace Binary32

def magnitude (bits : UInt32) : Nat := bits.toNat % 2 ^ 31

def isNaN (bits : UInt32) : Bool := 0x7F800000 < magnitude bits

def isZero (bits : UInt32) : Bool := magnitude bits = 0

def same (a b : UInt32) : Bool := !isNaN a && !isNaN b && (a = b || (isZero a && isZero b))

def canonicalNaN : UInt32 := 0x7FC00000

end Binary32

end Protowire
