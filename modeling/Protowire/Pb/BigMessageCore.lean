import Protowire.Detail.LimitsCore
import Protowire.Pb.BigCore
import Protowire.Pb.RecordsCore
import Protowire.Support.Rounding
import Protowire.Support.Wrapping

/-!
Big numbers as a native struct holds them, and their messages. The fields are bytes, as in the
source; the arithmetic on a magnitude is on the number its bytes write, where the source works
on bytes or on 32-bit limbs.
-/

namespace Protowire.Pb.Native

open Support Wire Limit

structure BigInt where
  abs : Bytes := []
  negative : Bool := false
deriving DecidableEq, Repr

structure Decimal where
  unscaled : Bytes := []
  scale : Int := 0
  negative : Bool := false
deriving DecidableEq, Repr

structure BigFloat where
  mantissa : Bytes := []
  exponent : Int := 0
  prec : Nat := 0
  negative : Bool := false
deriving DecidableEq, Repr

def BigInt.isZero (v : BigInt) : Bool := v.abs.isEmpty

def Decimal.isZero (v : Decimal) : Bool := v.unscaled.isEmpty

def trimLeadingZeros (mag : Bytes) : Bytes := mag.dropWhile (· = 0)

def magnitudeOf (mag : Bytes) : Nat := ofBig 0 mag

def shiftRightRounded (mag n : Nat) : Nat :=
  let half := mag.testBit (n - 1)
  let sticky := mag % 2 ^ (n - 1) ≠ 0
  let shifted := mag / 2 ^ n
  if half && (sticky || shifted % 2 = 1) then shifted + 1 else shifted

def batchDigits : Nat := 9

def widenTurn (s : Nat × Int) : Turn (Nat × Int) (Nat × Int) :=
  if s.2 < 0 then
    let step := min batchDigits (-s.2).toNat
    .next (s.1 * 10 ^ step, s.2 + step)
  else .done s

def narrowTurn (step : Nat) (s : Nat × Int) : Turn (Nat × Int) (Nat × Int) :=
  if step ≤ s.2 ∧ s.1 % 10 ^ step = 0 then .next (s.1 / 10 ^ step, s.2 - step) else .done s

def widen (s : Nat × Int) : Nat × Int := loop (fun s => (-s.2).toNat) widenTurn id s

def narrow (step : Nat) (s : Nat × Int) : Nat × Int :=
  loop (fun s => s.2.toNat) (narrowTurn step) id s

def reduce (unscaled : Nat) (scale : Int) : Nat × Int :=
  narrow 1 (narrow batchDigits (widen (unscaled, scale)))

def appendFlag (num : Nat) (flag : Bool) : Bytes :=
  if flag then appendTag num .varint ++ appendVarint 1 else []

def appendMagnitude (num : Nat) (mag : Bytes) : Bytes :=
  if mag.isEmpty then [] else appendTag num .bytes ++ appendBytes mag

def appendInt (num : Nat) (v : Int) : Bytes :=
  if v = 0 then [] else appendTag num .varint ++ appendVarint (asUnsigned 64 v)

def marshalBigIntMsg (v : BigInt) : Bytes := appendMagnitude 1 v.abs ++ appendFlag 2 v.negative

def scaleExceeds (scale : Int) (limit : Nat) : Bytes :=
  text "pxf.Decimal scale " ++ signedDecimal scale ++ text " exceeds MaxNumericLiteralDigits=" ++
    decimal limit

def reduced (unscaled : Nat) (scale : Int) : Nat × Int :=
  if -(maxNumericLiteralDigits : Int) ≤ scale ∧ scale ≠ 0 then reduce unscaled scale
  else (unscaled, scale)

def marshalDecimalMsg (v : Decimal) : Except Bytes Bytes :=
  if magnitudeOf v.unscaled = 0 then .ok []
  else
    let r := reduced (magnitudeOf v.unscaled) v.scale
    if (maxNumericLiteralDigits : Int) < r.2 ∨ r.2 < -(maxNumericLiteralDigits : Int) then
      .error (scaleExceeds r.2 maxNumericLiteralDigits)
    else
      .ok (appendTag 1 .bytes ++ appendBytes (magnitudeBytes r.1) ++ appendInt 2 r.2 ++
        appendFlag 3 v.negative)

def pow2Digits (p : Nat) : Nat := (p * 0x4d104d42 + p * 0x7de7fbcc / 2 ^ 32) / 2 ^ 32 + 1

def bigFloatPrecDigits (prec : Nat) : Nat := pow2Digits prec + 1

def precExceeds (prec limit : Nat) : Bytes :=
  text "pxf.BigFloat prec " ++ decimal prec ++ text " implies " ++
    decimal (bigFloatPrecDigits prec) ++ text " digits; MaxNumericLiteralDigits=" ++ decimal limit

def exponentExceeds (binary : Int) (limit : Nat) : Bytes :=
  text "pxf.BigFloat binary exponent " ++ signedDecimal binary ++
    text " exceeds MaxBigFloatExponent=" ++ decimal limit

def roundedTo (prec mantissa : Nat) (exponent : Int) : Nat × Int :=
  if prec < bitLength mantissa then
    (shiftRightRounded mantissa (bitLength mantissa - prec), exponent + (bitLength mantissa - prec : Nat))
  else (mantissa, exponent)

def widenedTo (prec mantissa : Nat) : Nat :=
  if prec < bitLength mantissa then shiftRightRounded mantissa (bitLength mantissa - prec)
  else mantissa * 2 ^ (prec - bitLength mantissa)

def wireParts (prec mantissa : Nat) (exponent : Int) : Except Bytes (Nat × Int) :=
  let r := roundedTo prec mantissa exponent
  let widened := r.2 + bitLength r.1 - prec
  if widened < -2 ^ 31 ∨ 2 ^ 31 - 1 < widened then
    .error (text "pxf.BigFloat exponent " ++ signedDecimal widened ++ text " does not fit int32")
  else if (maxBigFloatExponent : Int) < widened + prec ∨
      widened + prec < -(maxBigFloatExponent : Int) then
    .error (exponentExceeds (widened + prec) maxBigFloatExponent)
  else .ok (widenedTo prec r.1, widened)

def appendParts (v : BigFloat) (mantissa : Nat) (exponent : Int) : Bytes :=
  appendMagnitude 1 (magnitudeBytes mantissa) ++ appendInt 2 exponent ++
    (appendTag 3 .varint ++ appendVarint v.prec) ++ appendFlag 4 v.negative

def marshalBigFloatMsg (v : BigFloat) : Except Bytes Bytes :=
  if v.prec = 0 then .ok (appendFlag 4 v.negative)
  else if maxNumericLiteralDigits < bigFloatPrecDigits v.prec then
    .error (precExceeds v.prec maxNumericLiteralDigits)
  else if magnitudeOf v.mantissa = 0 then .ok (appendParts v 0 0)
  else
    match wireParts v.prec (magnitudeOf v.mantissa) v.exponent with
    | .error msg => .error msg
    | .ok (mantissa, exponent) => .ok (appendParts v mantissa exponent)

def messageWording (message : String) : Wording :=
  ⟨text "corrupt tag in " ++ text message,
    fun num => text "corrupt field " ++ decimal num ++ text " in " ++ text message⟩

def readMagnitude {α : Type} (what : String) (data : Bytes) (store : Bytes → α) :
    Except Bytes (α × Bytes) :=
  match consumeBytes data with
  | none => .error (text "corrupt " ++ text what)
  | some (found, rest) => .ok (store found, rest)

def readVarint {α : Type} (what : String) (data : Bytes) (store : Nat → α) :
    Except Bytes (α × Bytes) :=
  match consumeVarint data with
  | none => .error (text "corrupt " ++ text what)
  | some (x, rest) => .ok (store x, rest)

def bigIntField : FieldReader BigInt := fun num _ data v =>
  match num with
  | 1 => some (readMagnitude "abs in BigInt" data fun abs => { v with abs })
  | 2 => some (readVarint "negative in BigInt" data fun x => { v with negative := x ≠ 0 })
  | _ => none

def unmarshalBigIntMsg (data : Bytes) : Except Bytes BigInt :=
  match readRecords (messageWording "BigInt") bigIntField data {} with
  | .error msg => .error msg
  | .ok v =>
    let abs := trimLeadingZeros v.abs
    .ok ⟨abs, v.negative && !abs.isEmpty⟩

def decimalField : FieldReader Decimal := fun num _ data v =>
  match num with
  | 1 => some (readMagnitude "unscaled in Decimal" data fun unscaled => { v with unscaled })
  | 2 => some (readVarint "scale in Decimal" data fun x => { v with scale := asSigned 32 x })
  | 3 => some (readVarint "negative in Decimal" data fun x => { v with negative := x ≠ 0 })
  | _ => none

def unmarshalDecimalMsg (data : Bytes) (maxDigits : Nat) : Except Bytes Decimal :=
  match readRecords (messageWording "Decimal") decimalField data {} with
  | .error msg => .error msg
  | .ok v =>
    if (maxDigits : Int) < v.scale ∨ v.scale < -(maxDigits : Int) then
      .error (scaleExceeds v.scale maxDigits)
    else
      let unscaled := trimLeadingZeros v.unscaled
      .ok ⟨unscaled, v.scale, v.negative && !unscaled.isEmpty⟩

def bigFloatField : FieldReader BigFloat := fun num _ data v =>
  match num with
  | 1 => some (readMagnitude "mantissa in BigFloat" data fun mantissa => { v with mantissa })
  | 2 => some (readVarint "exponent in BigFloat" data fun x => { v with exponent := asSigned 32 x })
  | 3 => some (readVarint "prec in BigFloat" data fun x => { v with prec := x % 2 ^ 32 })
  | 4 => some (readVarint "negative in BigFloat" data fun x => { v with negative := x ≠ 0 })
  | _ => none

def narrowed (v : BigFloat) (maxExponent : Nat) : Except Bytes BigFloat :=
  let mantissa := magnitudeOf v.mantissa
  let binary := v.exponent + bitLength mantissa
  if (maxExponent : Int) < binary ∨ binary < -(maxExponent : Int) then
    .error (exponentExceeds binary maxExponent)
  else
    let r := roundedTo v.prec mantissa v.exponent
    if 2 ^ 31 - 1 < r.2 + bitLength r.1 then
      .error (text "pxf.BigFloat exponent " ++ signedDecimal v.exponent ++ text " with a " ++
        decimal (bitLength mantissa) ++ text "-bit mantissa overflows big.Float")
    else .ok { v with mantissa := magnitudeBytes r.1, exponent := r.2 }

def unmarshalBigFloatMsg (data : Bytes) (maxExponent maxDigits : Nat) : Except Bytes BigFloat :=
  match readRecords (messageWording "BigFloat") bigFloatField data {} with
  | .error msg => .error msg
  | .ok v =>
    -- A precision of zero is a zero, whatever else is there.
    if v.prec = 0 then .ok { v with mantissa := [], exponent := 0 }
    else if maxDigits < bigFloatPrecDigits v.prec then .error (precExceeds v.prec maxDigits)
    else if magnitudeOf v.mantissa = 0 then .ok { v with mantissa := [], exponent := 0 }
    else narrowed v maxExponent

end Protowire.Pb.Native
