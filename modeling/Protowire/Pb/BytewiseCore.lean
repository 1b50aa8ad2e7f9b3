import Protowire.Pb.BigMessageCore
import Protowire.Pb.Skipping
import Protowire.Support.Limbs

/-!
Big numbers as the source computes with them: magnitudes are big-endian bytes, worked on a byte
and a carry at a time, and a decimal is reduced over 32-bit limbs. What is read off the wire is
counted in an `int`.
-/

namespace Protowire.Pb.Native.Bytewise

open Support Wire Limit

def mulAdd (factor carry : Nat) : Bytes → Bytes × Nat
  | [] => ([], carry)
  | b :: rest =>
    let low := mulAdd factor carry rest
    let v := b.toNat * factor + low.2
    (UInt8.ofNat v :: low.1, v / 256)

def pushCarry (r : Bytes × Nat) : Bytes := magnitudeFrom 2 r.2 r.1

def mulBy10 (mag : Bytes) : Bytes := pushCarry (mulAdd 10 0 mag)

def addU8 (mag : Bytes) (v : Nat) : Bytes := pushCarry (mulAdd 1 v mag)

def divFrom (d : Nat) : Nat → Bytes → Bytes × Nat
  | rem, [] => ([], rem)
  | rem, b :: rest =>
    let cur := rem * 256 + b.toNat
    let low := divFrom d (cur % d) rest
    (UInt8.ofNat (cur / d) :: low.1, low.2)

def divBy10 (mag : Bytes) : Bytes × Nat :=
  let r := divFrom 10 0 mag
  (trimLeadingZeros r.1, r.2)

def appendDigits (mag : Bytes) : Bytes → Option Bytes
  | [] => some mag
  | c :: rest =>
    if isDigit c then appendDigits (addU8 (mulBy10 mag) (digitValue c)) rest else none

def parseDigits (s mag : Bytes) : Option Bytes :=
  if s.isEmpty then none else (appendDigits mag s).map trimLeadingZeros

def bitLen (mag : Bytes) : Nat :=
  match mag with
  | [] => 0
  | top :: rest => rest.length * 8 + bitLength top.toNat

def bit (mag : Bytes) (i : Nat) : Bool := (mag.reverse.getD (i / 8) 0).toNat.testBit (i % 8)

def shiftBytes (shift : Nat) : UInt8 → Bytes → Bytes
  | _, [] => []
  | high, b :: rest =>
    UInt8.ofNat ((high.toNat * 256 + b.toNat) >>> shift) :: shiftBytes shift b rest

def shiftRightRounded (mag : Bytes) (n : Nat) : Bytes :=
  let half := bit mag (n - 1)
  let sticky := (List.range (n - 1)).any (bit mag)
  let kept := mag.take (mag.length - n / 8)
  let shifted := if n % 8 ≠ 0 then shiftBytes (n % 8) 0 kept else kept
  trimLeadingZeros
    (if half && (sticky || (shifted.getLastD 0).toNat % 2 = 1) then addU8 shifted 1 else shifted)

def shiftLeft (mag : Bytes) (n : Nat) : Bytes :=
  (if n % 8 ≠ 0 then pushCarry (mulAdd (2 ^ (n % 8)) 0 mag) else mag) ++ List.replicate (n / 8) 0

def formatTurn (s : Bytes × Bytes) : Turn (Bytes × Bytes) Bytes :=
  if s.1.isEmpty then .done s.2
  else .next ((divBy10 s.1).1, UInt8.ofNat (0x30 + (divBy10 s.1).2) :: s.2)

def formatMagnitude (mag : Bytes) : Bytes :=
  if mag.isEmpty then text "0"
  else loop (fun s => magnitudeOf s.1 + s.1.length) formatTurn (fun s => s.2) (mag, [])

def parseBigInt (s : Bytes) : Option BigInt :=
  if s.isEmpty then none
  else
    (parseDigits (splitSign s).2 []).map fun abs => ⟨abs, (splitSign s).1 && !abs.isEmpty⟩

def parseDecimal (s : Bytes) : Option Decimal :=
  if s.isEmpty then none
  else
    let whole := wholePart (splitSign s).2
    let fraction := fractionPart (splitSign s).2
    do
      let mag ← if whole.isEmpty then some [] else parseDigits whole []
      let mag ← if fraction.isEmpty then some mag else appendDigits mag fraction
      let mag := trimLeadingZeros mag
      if mag.isEmpty && whole.isEmpty && fraction.isEmpty then none
      else some ⟨mag, castInt fraction.length, (splitSign s).1 && !mag.isEmpty⟩

def significantDigitsFrom (leading : Bool) : Bytes → Nat
  | [] => 0
  | c :: rest =>
    if !isDigit c || (leading && c = 0x30) then significantDigitsFrom leading rest
    else significantDigitsFrom false rest + 1

def significantDigits (literal : Bytes) : Nat := significantDigitsFrom true literal

def boundLiteral (kind : String) (literal : Bytes) : Except Bytes Bytes :=
  if maxNumericLiteralDigits < literal.length ∧
      maxNumericLiteralDigits < significantDigits literal then
    .error (text kind ++ text " renders to " ++ decimal (significantDigits literal) ++
      text " digits; MaxNumericLiteralDigits=" ++ decimal maxNumericLiteralDigits)
  else .ok literal

def formatBigInt (v : BigInt) : Except Bytes Bytes :=
  boundLiteral "pxf.BigInt"
    ((if v.negative && !v.abs.isEmpty then text "-" else []) ++ formatMagnitude v.abs)

def padDigits (scale : Nat) (digits : Bytes) : Bytes :=
  List.replicate (scale + 1 - digits.length) 0x30 ++ digits

def formatDecimal (v : Decimal) : Except Bytes Bytes :=
  if (maxNumericLiteralDigits : Int) < v.scale ∨ v.scale < -(maxNumericLiteralDigits : Int) then
    .error (scaleExceeds v.scale maxNumericLiteralDigits)
  else
    let digits := formatMagnitude v.unscaled
    let sign := if v.negative && !v.unscaled.isEmpty then text "-" else []
    if v.scale ≤ 0 then
      -- A negative scale means trailing zeros: unscaled 5, scale -2 is 500.
      let zeros := if v.unscaled.isEmpty then 0 else (-v.scale).toNat
      boundLiteral "pxf.Decimal" (sign ++ digits ++ List.replicate zeros 0x30)
    else
      let padded := padDigits v.scale.toNat digits
      let whole := padded.length - v.scale.toNat
      boundLiteral "pxf.Decimal" (sign ++ padded.take whole ++ text "." ++ padded.drop whole)

def toLimbs (mag : Bytes) : List UInt32 := limbsOfLittle mag.reverse

def fromLimbs (limbs : List UInt32) : Bytes := trimLeadingZeros (littleOfLimbs limbs).reverse

def multiplyLimbs (limbs : List UInt32) (factor : Nat) : List UInt32 := mulAddLimbs factor 0 limbs

def divideLimbs (limbs : List UInt32) (divisor : Nat) : List UInt32 × Nat :=
  let r := divLimbs divisor limbs
  (trimLimbs r.1, r.2)

def widenTurn (s : List UInt32 × Int) : Turn (List UInt32 × Int) (List UInt32 × Int) :=
  if s.2 < 0 then
    let step := min batchDigits (-s.2).toNat
    .next (multiplyLimbs s.1 (10 ^ step), s.2 + step)
  else .done s

def narrowTurn (step : Nat) (s : List UInt32 × Int) : Turn (List UInt32 × Int) (List UInt32 × Int) :=
  if step ≤ s.2 ∧ (divideLimbs s.1 (10 ^ step)).2 = 0 then
    .next ((divideLimbs s.1 (10 ^ step)).1, s.2 - step)
  else .done s

def reduce (unscaled : Bytes) (scale : Int) : Bytes × Int :=
  let widened := loop (fun s => (-s.2).toNat) widenTurn id (toLimbs unscaled, scale)
  let batches := loop (fun s => s.2.toNat) (narrowTurn batchDigits) id widened
  let reduced := loop (fun s => s.2.toNat) (narrowTurn 1) id batches
  (fromLimbs reduced.1, reduced.2)

def marshalDecimalMsg (v : Decimal) : Except Bytes Bytes :=
  let unscaled := trimLeadingZeros v.unscaled
  if unscaled.isEmpty then .ok []
  else
    let r := if -(maxNumericLiteralDigits : Int) ≤ v.scale ∧ v.scale ≠ 0 then
        reduce unscaled v.scale
      else (unscaled, v.scale)
    if (maxNumericLiteralDigits : Int) < r.2 ∨ r.2 < -(maxNumericLiteralDigits : Int) then
      .error (scaleExceeds r.2 maxNumericLiteralDigits)
    else
      .ok (appendTag 1 .bytes ++ appendBytes r.1 ++ appendInt 2 r.2 ++ appendFlag 3 v.negative)

def roundedTo (prec : Nat) (mantissa : Bytes) (exponent : Int) : Bytes × Int :=
  if prec < bitLen mantissa then
    (shiftRightRounded mantissa (bitLen mantissa - prec), exponent + (bitLen mantissa - prec : Nat))
  else (mantissa, exponent)

def widenedTo (prec : Nat) (mantissa : Bytes) : Bytes :=
  if prec < bitLen mantissa then shiftRightRounded mantissa (bitLen mantissa - prec)
  else shiftLeft mantissa (prec - bitLen mantissa)

def wireParts (prec : Nat) (mantissa : Bytes) (exponent : Int) : Except Bytes (Bytes × Int) :=
  let r := roundedTo prec mantissa exponent
  let widened := r.2 + bitLen r.1 - prec
  if widened < -2 ^ 31 ∨ 2 ^ 31 - 1 < widened then
    .error (text "pxf.BigFloat exponent " ++ signedDecimal widened ++ text " does not fit int32")
  else if (maxBigFloatExponent : Int) < widened + prec ∨
      widened + prec < -(maxBigFloatExponent : Int) then
    .error (exponentExceeds (widened + prec) maxBigFloatExponent)
  else .ok (widenedTo prec r.1, widened)

def appendParts (v : BigFloat) (mantissa : Bytes) (exponent : Int) : Bytes :=
  appendMagnitude 1 mantissa ++ appendInt 2 exponent ++
    (appendTag 3 .varint ++ appendVarint v.prec) ++ appendFlag 4 v.negative

def marshalBigFloatMsg (v : BigFloat) : Except Bytes Bytes :=
  if v.prec = 0 then .ok (appendFlag 4 v.negative)
  else if maxNumericLiteralDigits < bigFloatPrecDigits v.prec then
    .error (precExceeds v.prec maxNumericLiteralDigits)
  else
    let mantissa := trimLeadingZeros v.mantissa
    if mantissa.isEmpty then .ok (appendParts v [] 0)
    else
      match wireParts v.prec mantissa v.exponent with
      | .error msg => .error msg
      | .ok (mantissa, exponent) => .ok (appendParts v mantissa exponent)

abbrev CountedReader (α : Type) := Nat → WireType → Bytes → α → Except Bytes (α × Int)

def fieldsTurn {α : Type} (wording : Wording) (field : CountedReader α) (s : Bytes × α) :
    Turn (Bytes × α) (Except Bytes α) :=
  if s.1.isEmpty then .done (.ok s.2)
  else
    match consumeTag s.1 with
    | none => .done (.error wording.corruptTag)
    | some (num, type, data) =>
      match field num type data s.2 with
      | .error msg => .done (.error msg)
      | .ok (out, consumed) =>
        if consumed ≠ 0 then .next (data.drop consumed.toNat, out)
        else if fieldValueCount data num type < 0 then
          .done (.error (wording.corruptField num))
        else .next (data.drop (fieldValueCount data num type).toNat, out)

def readFields {α : Type} (wording : Wording) (field : CountedReader α) (data : Bytes) (out : α) :
    Except Bytes α :=
  loop (fun s => s.1.length) (fieldsTurn wording field) (fun s => .ok s.2) (data, out)

def readMagnitude {α : Type} (what : String) (data : Bytes) (store : Bytes → α) :
    Except Bytes (α × Int) :=
  if plainValueCount .bytes data < 0 then .error (text "corrupt " ++ text what)
  else
    match consumeBytes data with
    | none => .error (text "corrupt " ++ text what)
    | some (found, _) => .ok (store found, plainValueCount .bytes data)

def readVarint {α : Type} (what : String) (data : Bytes) (store : Nat → α) :
    Except Bytes (α × Int) :=
  match consumeVarint data with
  | none => .error (text "corrupt " ++ text what)
  | some (x, _) => .ok (store x, plainValueCount .varint data)

def decimalField : CountedReader Decimal := fun num _ data v =>
  match num with
  | 1 => readMagnitude "unscaled in Decimal" data fun unscaled => { v with unscaled }
  | 2 => readVarint "scale in Decimal" data fun x => { v with scale := asSigned 32 x }
  | 3 => readVarint "negative in Decimal" data fun x => { v with negative := x ≠ 0 }
  | _ => .ok (v, 0)

def unmarshalDecimalMsg (data : Bytes) (maxDigits : Int32) : Except Bytes Decimal :=
  let maxDigits := resolve maxDigits maxNumericLiteralDigits
  match readFields (messageWording "Decimal") decimalField data {} with
  | .error msg => .error msg
  | .ok v =>
    if (maxDigits : Int) < v.scale ∨ v.scale < -(maxDigits : Int) then
      .error (scaleExceeds v.scale maxDigits)
    else
      let unscaled := trimLeadingZeros v.unscaled
      .ok ⟨unscaled, v.scale, v.negative && !unscaled.isEmpty⟩

def bigFloatField : CountedReader BigFloat := fun num _ data v =>
  match num with
  | 1 => readMagnitude "mantissa in BigFloat" data fun mantissa => { v with mantissa }
  | 2 => readVarint "exponent in BigFloat" data fun x => { v with exponent := asSigned 32 x }
  | 3 => readVarint "prec in BigFloat" data fun x => { v with prec := x % 2 ^ 32 }
  | 4 => readVarint "negative in BigFloat" data fun x => { v with negative := x ≠ 0 }
  | _ => .ok (v, 0)

def narrowed (v : BigFloat) (mantissa : Bytes) (maxExponent : Nat) : Except Bytes BigFloat :=
  let binary := v.exponent + bitLen mantissa
  if (maxExponent : Int) < binary ∨ binary < -(maxExponent : Int) then
    .error (exponentExceeds binary maxExponent)
  else
    let r := roundedTo v.prec mantissa v.exponent
    if 2 ^ 31 - 1 < r.2 + bitLen r.1 then
      .error (text "pxf.BigFloat exponent " ++ signedDecimal v.exponent ++ text " with a " ++
        decimal (bitLen mantissa) ++ text "-bit mantissa overflows big.Float")
    else .ok { v with mantissa := r.1, exponent := castInt r.2 }

def unmarshalBigFloatMsg (data : Bytes) (maxExponent maxDigits : Int32) : Except Bytes BigFloat :=
  let maxExponent := resolve maxExponent maxBigFloatExponent
  let maxDigits := resolve maxDigits maxNumericLiteralDigits
  match readFields (messageWording "BigFloat") bigFloatField data {} with
  | .error msg => .error msg
  | .ok v =>
    -- A precision of zero is a zero, whatever else is there.
    if v.prec = 0 then .ok { v with mantissa := [], exponent := 0 }
    else if maxDigits < bigFloatPrecDigits v.prec then .error (precExceeds v.prec maxDigits)
    else
      let mantissa := trimLeadingZeros v.mantissa
      if bitLen mantissa = 0 then .ok { v with mantissa, exponent := 0 }
      else narrowed v mantissa maxExponent

end Protowire.Pb.Native.Bytewise
