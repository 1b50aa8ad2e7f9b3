import Mathlib.Data.Int.Log
import Mathlib.Data.List.DropRight
import Mathlib.Data.Rat.Floor
import Protowire.Pb.BigMessageCore
import Protowire.Pb.Skipping
import Protowire.Pxf.LiteralCore
import Protowire.Support.Floating
import Protowire.Support.LongDivision

/-!
The text of a `pxf.BigFloat`: a decimal literal with a precision suffix. A literal is read twice,
once as Go's `big.Float` reads it, which the limits are asked of, and once exactly. An `int64_t`
and a `size_t` are unbounded here, an `int` is an integer; a `double` is a rational of 53 bits.
-/

namespace Protowire.Pxf.BigFloat

open Support

def defaultPrec : Nat := 256

def checkPrec : Nat := 2 ^ 14

def roundToBits (m : BigNat) (bits : Nat) (sticky : Bool) : BigNat × Nat :=
  if m.bitLen ≤ bits then (m, 0)
  else
    let shift := m.bitLen - bits
    let half := m.bit (shift - 1)
    let rest := sticky || m.anyBitBelow (shift - 1)
    let kept := m.shr shift
    (if half && (rest || kept.isOdd) then kept.addSmall 1 else kept, shift)

def binaryExponent (mantissa : BigNat) (exponent : Int) : Int := exponent + mantissa.bitLen

def exceedsBound (e limit : Int) : Bool := limit < e || e < -limit

def scaledTo (num den : BigNat) (at_ : Int) : BigNat × BigNat :=
  (if 0 ≤ at_ then den.shl at_.toNat else den, if 0 ≤ at_ then num else num.shl (-at_).toNat)

def exactExponentAndCarry (num den : BigNat) (prec : Nat) : Int × Bool :=
  let e : Int := num.bitLen - den.bitLen
  let first := scaledTo num den e
  let e := if BigNat.cmp first.2 first.1 ≠ .lt then e + 1 else e
  let (a, b) := scaledTo num den e
  if a.bitLen ≤ prec + 1 then (e, false)
  else (e, BigNat.cmp ((BigNat.sub a b).shl (prec + 1)) a ≠ .gt)

def roundedBinaryExponent (num den : BigNat) (prec : Nat) : Int :=
  let (e, carries) := exactExponentAndCarry num den prec
  if carries then e + 1 else e

inductive GoForm where
  | zero
  | finite
  | inf
deriving DecidableEq, Repr

structure GoFloat where
  form : GoForm := .finite
  m : BigNat := .zero
  exp : Int := 0

def goMinExp : Int := -2 ^ 31

def goMaxExp : Int := 2 ^ 31 - 1

def setExpAndRound (z : GoFloat) (exp : Int) (prec : Nat) : GoFloat :=
  if exp < goMinExp ∨ goMaxExp < exp then
    { z with form := if exp < goMinExp then .zero else .inf }
  else
    let m := (roundToBits z.m prec false).1
    if prec < m.bitLen then
      if goMaxExp ≤ exp then { form := .inf, m, exp }
      else { form := .finite, m := m.shr 1, exp := exp + 1 }
    else { form := .finite, m, exp }

def goMul (x y : GoFloat) (prec : Nat) : GoFloat :=
  if x.form ≠ .finite ∨ y.form ≠ .finite then
    { form := if x.form = .inf ∨ y.form = .inf then .inf else .zero }
  else
    let m := BigNat.mul x.m y.m
    let fnorm : Int := x.m.bitLen + y.m.bitLen - m.bitLen
    setExpAndRound { m } (x.exp + y.exp - fnorm) prec

def goExact (k : Nat) : GoFloat :=
  let m := (BigNat.mulSmall · 5)^[k] (.ofNat32 1)
  { m, exp := m.bitLen }

def goTab : Nat := 27

structure Pow5State where
  n : Nat
  z : GoFloat
  f : GoFloat

def pow5Turn (prec : Nat) (s : Pow5State) : Turn Pow5State GoFloat :=
  if s.n = 0 then .done s.z
  else
    let z := if s.n % 2 = 1 then goMul s.z s.f prec else s.z
    let n := s.n / 2
    .next ⟨n, z, if 0 < n then goMul s.f s.f (prec + 64) else s.f⟩

/-- `5^n` at `prec`, exact up to `5^27` and then by squaring, the square kept 64 bits wider. -/
def goPow5 (n prec : Nat) : GoFloat :=
  if n ≤ goTab then goExact n
  else loop (fun s => s.n) (pow5Turn prec) (fun s => s.z) ⟨n - goTab, goExact goTab, goExact 1⟩

structure GoScan where
  mant : BigNat := .zero
  frac : Nat := 0
  exp : Int := 0

def scanDigit (s : GoScan × Bool) (c : UInt8) : GoScan × Bool :=
  if c = 0x2E then (s.1, true)
  else
    ({ s.1 with
        frac := if s.2 then s.1.frac + 1 else s.1.frac
        mant := if !s.1.mant.isZero || c ≠ 0x30 then
            (s.1.mant.mulSmall 10).addSmall (digitValue c)
          else s.1.mant }, s.2)

def scanExponent (limit mag : Nat) : Bytes → Option Nat
  | [] => some mag
  | c :: rest =>
    if (limit - digitValue c) / 10 < mag then none
    else scanExponent limit (mag * 10 + digitValue c) rest

def withoutSign (s : Bytes) : Bytes := if peek s 0 = 0x2D ∨ peek s 0 = 0x2B then s.drop 1 else s

def scanLikeGo (s : Bytes) : Option GoScan :=
  let body := withoutSign s
  let run := body.takeWhile fun c => isDigit c || c = 0x2E
  let rest := body.drop run.length
  let scan := (run.foldl scanDigit ({}, false)).1
  if rest.isEmpty then some scan
  else
    let neg := peek rest 1 = 0x2D
    (scanExponent (if neg then 2 ^ 63 else 2 ^ 63 - 1) 0 (withoutSign (rest.drop 1))).map fun mag =>
      { scan with exp := if neg then -mag else mag }

def log2Of5 : ℚ := nearest 53 (2321928094887362 / 10 ^ 15)

def reach (exp2 exp5 : Int) : ℚ :=
  nearest 53 (nearest 53 exp2 + nearest 53 (nearest 53 exp5 * log2Of5))

/-- What `big.Float.Parse` makes of a literal at `prec`, as far as the checks after it ask, or
nothing where it fails. -/
def goParse (scan : GoScan) (prec : Nat) : Option GoFloat :=
  if scan.mant.isZero then some { form := .zero }
  else
    let bits : Int := scan.mant.bitLen - scan.frac
    if (0 < scan.exp ∧ 2 ^ 63 - 1 - scan.exp < bits) ∨ (scan.exp < 0 ∧ bits < -2 ^ 63 - scan.exp) then
      none
    else
      let exp2 := bits + scan.exp
      if exp2 < goMinExp ∨ goMaxExp < exp2 then none
      else
        let exp5 := exp2 - scan.mant.bitLen
        if exp5 = 0 then some (setExpAndRound { m := scan.mant } exp2 prec)
        else if exp5 < 0 ∧ nearest 53 (reach exp2 exp5 + 4) < goMinExp then some { form := .zero }
        else if 0 < exp5 ∧ goMaxExp < nearest 53 (reach exp2 exp5 - 4) then some { form := .inf }
        else
          let p := goPow5 exp5.natAbs (prec + 64)
          let z : GoFloat := { m := scan.mant, exp := exp2 }
          if 0 < exp5 then some (goMul z p prec)
          else if p.form = .inf then some { form := .zero }
          else
            -- only the exponent and the range of the quotient are asked
            let (e, carries) := exactExponentAndCarry z.m p.m prec
            let exp := e + (exp2 - z.m.bitLen) - (p.exp - p.m.bitLen)
            if exp < goMinExp ∨ goMaxExp < exp ∨ (carries ∧ goMaxExp ≤ exp) then
              some { form := if exp < goMinExp then .zero else .inf }
            else some { exp := if carries then exp + 1 else exp }

def parsePrecision (digits : Bytes) : Option Nat :=
  if digits.isEmpty ∨ 10 < digits.length ∨ ¬ digits.all isDigit then none
  else
    let v := digitsValue 0 digits
    if v = 0 ∨ 0xFFFFFFFF < v then none else some v

structure LiteralParts where
  negative : Bool
  whole : Bytes
  fraction : Bytes
  exponent : Option (Bool × Bytes)
deriving DecidableEq, Repr

def saturated : Nat := 2 ^ 55

def saturatingExponent (digits : Bytes) : Nat :=
  digits.foldl (fun e c => if e < saturated then e * 10 + digitValue c else saturated * 10) 0

def exponentPart (s : Bytes) : Option (Option (Bool × Bytes)) :=
  if peek s 0 = 0x65 ∨ peek s 0 = 0x45 then
    let digits := withoutSign (s.drop 1)
    if digits.isEmpty ∨ ¬ digits.all isDigit then none else some (some (peek s 1 = 0x2D, digits))
  else if s.isEmpty then some none
  else none

def literalParts (s : Bytes) : Option LiteralParts :=
  let body := withoutSign s
  let whole := body.takeWhile isDigit
  let rest := body.dropWhile isDigit
  let pointed := peek rest 0 = 0x2E
  if whole.isEmpty ∧ ¬ (pointed ∧ isDigit (peek rest 1)) then none
  else
    let fraction := if pointed then (rest.drop 1).takeWhile isDigit else []
    let rest := if pointed then (rest.drop 1).dropWhile isDigit else rest
    (exponentPart rest).map fun exponent => ⟨peek s 0 = 0x2D, whole, fraction, exponent⟩

structure Literal where
  negative : Bool := false
  digits : Bytes := []
  exp10 : Int := 0
deriving DecidableEq, Repr

def LiteralParts.saturatedExp (parts : LiteralParts) : Int :=
  match parts.exponent with
  | none => 0
  | some (neg, e) => if neg then -saturatingExponent e else saturatingExponent e

def LiteralParts.trimmed (parts : LiteralParts) : Literal :=
  let digits := (parts.whole ++ parts.fraction).dropWhile (· = 0x30)
  if digits.isEmpty then { negative := parts.negative }
  else
    let kept := digits.rdropWhile (· = 0x30)
    { negative := parts.negative, digits := kept,
      exp10 := -parts.fraction.length + parts.saturatedExp + (digits.length - kept.length : Nat) }

def splitLiteral (s : Bytes) : Option Literal := (literalParts s).map LiteralParts.trimmed

inductive Refusal where
  | precision
  | precisionDigits (prec count : Nat)
  | digits (count : Int)
  | infinite
  | invalid
  | aboveRange
  | belowRange
  | wideMantissa (prec : Nat)
  | belowWire
  | pastBound (e : Int)
  | internal (found expected : Int)
deriving DecidableEq, Repr

def Refusal.message (literal precDigits : Bytes) (maxDigits maxExponent : Int) : Refusal → Bytes
  | .precision =>
    text "big float literal " ++ clip literal ++ text "p" ++ clip precDigits ++
      text ": precision suffix p" ++ clip precDigits ++ text " is not a positive bit count"
  | .precisionDigits prec count =>
    text "big float literal " ++ clip literal ++ text "p" ++ decimal prec ++
      text ": precision p" ++ decimal prec ++ text " renders to " ++ decimal count ++
      text " digits; MaxNumericLiteralDigits=" ++ signedDecimal maxDigits
  | .digits count =>
    text "numeric literal has " ++ signedDecimal count ++
      text " digits; MaxNumericLiteralDigits=" ++ signedDecimal maxDigits
  | .infinite | .aboveRange =>
    text "big float literal " ++ clip literal ++ text " is above big.Float's range"
  | .invalid => text "invalid big float: " ++ literal
  | .belowRange => text "big float literal " ++ clip literal ++ text " is below big.Float's range"
  | .wideMantissa prec =>
    text "big float literal " ++ clip literal ++ text ": precision p" ++ decimal prec ++
      text " exceeds the widest mantissa big.Float can hold, 2147483647 bits"
  | .belowWire =>
    text "big float literal " ++ clip literal ++ text " is below the wire's exponent range"
  | .pastBound e =>
    text "big float literal " ++ clip literal ++ text " has binary exponent " ++ signedDecimal e ++
      text ", and MaxBigFloatExponent=" ++ signedDecimal maxExponent ++ text " bounds its magnitude"
  | .internal found expected =>
    text "big float literal " ++ clip literal ++
      text ": internal error: rounded binary exponent " ++ signedDecimal found ++
      text ", expected " ++ signedDecimal expected

def precisionOf (precDigits : Bytes) (maxDigits : Int) : Except Refusal Nat :=
  if precDigits.isEmpty then .ok defaultPrec
  else
    match parsePrecision precDigits with
    | none => .error .precision
    | some prec =>
      if maxDigits < Pb.Native.bigFloatPrecDigits prec then
        .error (.precisionDigits prec (Pb.Native.bigFloatPrecDigits prec))
      else .ok prec

def divideRounded (num den : BigNat) (prec : Nat) : BigNat × Int :=
  let scale : Int := prec + 2 - num.bitLen + den.bitLen
  let num := if 0 ≤ scale then num.shl scale.toNat else num
  let den := if 0 ≤ scale then den else den.shl (-scale).toNat
  let (q, r) := BigNat.divMod num den
  let (q, shift) := roundToBits q prec !r.isZero
  let exponent := -scale + shift
  -- a round up can have carried past the top bit
  if prec < q.bitLen then (q.shr 1, exponent + 1) else (q, exponent)

def digitsNumber (digits : Bytes) : BigNat :=
  digits.foldl (fun n c => (n.mulSmall 10).addSmall (digitValue c)) .zero

def ratioOf (lit : Literal) : BigNat × BigNat :=
  let num := digitsNumber lit.digits
  if 0 ≤ lit.exp10 then (BigNat.mul num (BigNat.pow10 lit.exp10.toNat), .ofNat32 1)
  else (num, BigNat.pow10 (-lit.exp10).toNat)

def belowWire (prec : Nat) (e : Int) : Bool := e - prec < -2 ^ 31

def roundLiteral (lit : Literal) (prec : Nat) (maxExponent : Int) : Except Refusal BigFloatFields :=
  let (num, den) := ratioOf lit
  let bin := roundedBinaryExponent num den prec
  if exceedsBound bin maxExponent then .error (.pastBound bin)
  else if belowWire prec bin then .error .belowWire
  else
    let (q, exponent) := divideRounded num den prec
    if binaryExponent q exponent ≠ bin then .error (.internal (binaryExponent q exponent) bin)
    else .ok ⟨q.toBytes, exponent, prec, lit.negative⟩

def isInfinity (literal : Bytes) : Bool :=
  withoutSign literal = text "inf" || withoutSign literal = text "Inf"

def goRefusal (go : GoFloat) (prec : Nat) (maxExponent : Int) : Option Refusal :=
  if go.form = .inf then some .aboveRange
  else if go.form = .zero then some .belowRange
  else if 2 ^ 31 - 1 < prec then some (.wideMantissa prec)
  else if belowWire prec go.exp then some .belowWire
  else if exceedsBound (if checkPrec < prec ∧ 0 < go.exp then go.exp - 1 else go.exp) maxExponent then
    some (.pastBound go.exp)
  else none

def readLiteral (literal : Bytes) (suffixed : Bool) (prec : Nat) (maxExponent : Int) :
    Except Refusal BigFloatFields :=
  match splitLiteral literal with
  | none => .error .invalid
  | some lit =>
    match (scanLikeGo literal).bind (goParse · (min prec checkPrec)) with
    | none => .error .invalid
    | some go =>
      if lit.digits.isEmpty then .ok ⟨[], 0, if suffixed then prec else 0, lit.negative⟩
      else
        match goRefusal go prec maxExponent with
        | some refusal => .error refusal
        | none => roundLiteral lit prec maxExponent

def parseBigFloatLiteral (literal precDigits : Bytes) (maxDigits maxExponent : Int) :
    Except Refusal BigFloatFields :=
  match precisionOf precDigits maxDigits with
  | .error refusal => .error refusal
  | .ok prec =>
    let digits := Wire.castInt (countLiteralDigits literal)
    if maxDigits < digits then .error (.digits digits)
    else if isInfinity literal then .error .infinite
    else readLiteral literal (!precDigits.isEmpty) prec maxExponent

def roundedMantissa (f : BigFloatFields) : BigNat × Int :=
  let (m, shift) := roundToBits (.ofBytes f.mantissa) f.prec false
  (m, f.exponent + shift)

inductive FormatRefusal where
  | exponent (bin : Int)
  | roundedExponent (bin : Int) (prec : Nat)
  | digits (prec count : Nat)
deriving DecidableEq, Repr

def FormatRefusal.message (maxDigits maxExponent : Int) : FormatRefusal → Bytes
  | .exponent bin =>
    text "pxf.BigFloat binary exponent " ++ signedDecimal bin ++
      text " exceeds MaxBigFloatExponent=" ++ signedDecimal maxExponent
  | .roundedExponent bin prec =>
    text "pxf.BigFloat binary exponent " ++ signedDecimal bin ++ text " after rounding to prec " ++
      decimal prec ++ text " exceeds MaxBigFloatExponent=" ++ signedDecimal maxExponent
  | .digits prec count =>
    text "pxf.BigFloat prec " ++ decimal prec ++ text " bits renders to " ++ decimal count ++
      text " digits; MaxNumericLiteralDigits=" ++ signedDecimal maxDigits

def checkBigFloatLimits (f : BigFloatFields) (maxDigits maxExponent : Int) : Option FormatRefusal :=
  let stored := BigNat.ofBytes f.mantissa
  let bin := binaryExponent stored f.exponent
  let rounded := binaryExponent (roundedMantissa f).1 (roundedMantissa f).2
  let digits := Pb.Native.bigFloatPrecDigits f.prec
  if !stored.isZero && exceedsBound bin maxExponent then some (.exponent bin)
  else if !stored.isZero && exceedsBound rounded maxExponent then some (.roundedExponent rounded f.prec)
  else if maxDigits < digits then some (.digits f.prec digits)
  else none

def nineDigits (chunk : Nat) : Bytes :=
  ((List.range 9).map fun i => UInt8.ofNat (0x30 + chunk / 10 ^ i % 10)).reverse

def toDecimalTurn (s : BigNat × Bytes) : Turn (BigNat × Bytes) Bytes :=
  if s.1.isZero then .done s.2
  else
    let (n, chunk) := s.1.divSmall 1000000000
    .next (n, nineDigits chunk ++ s.2)

def toDecimal (n : BigNat) : Bytes :=
  if n.isZero then text "0"
  else
    let digits := loop (fun s => s.1.value) toDecimalTurn (fun s => s.2) (n, [])
    let kept := digits.dropWhile (· = 0x30)
    if kept.isEmpty then text "0" else kept

def decimalRatio (num den : BigNat) (digits : Nat) (x : Int) : BigNat × BigNat :=
  let p : Int := digits - 1 - x
  (if 0 ≤ p then BigNat.mul num (BigNat.pow10 p.toNat) else num,
    if 0 ≤ p then den else BigNat.mul den (BigNat.pow10 (-p).toNat))

def decimalTurn (num den : BigNat) (digits : Nat) (x : Int) : Turn Int (Int × BigNat × BigNat × BigNat) :=
  let (a, divisor) := decimalRatio num den digits x
  let (q, r) := BigNat.divMod a divisor
  if BigNat.cmp q (BigNat.pow10 digits) ≠ .lt then .next (x + 1)
  else if BigNat.cmp q (BigNat.pow10 (digits - 1)) = .lt then .next (x - 1)
  else .done (x, q, r, divisor)

def decimalDistance (num den : BigNat) (x : Int) : Nat :=
  (x - Int.log 10 ((num.value : ℚ) / den.value)).natAbs

def firstEstimate (bin : Int) : Int :=
  Int.tdiv ((bin - 1) * 30103) 100000 - (if bin - 1 < 0 then 1 else 0)

def decimalOf (num den : BigNat) (digits : Nat) (bin : Int) : Int × BigNat :=
  let (x, q, r, divisor) := loop (decimalDistance num den) (decimalTurn num den digits)
    (fun x => (x, .zero, .zero, .zero)) (firstEstimate bin)
  let half := BigNat.cmp (r.shl 1) divisor
  let q := if half = .gt ∨ (half = .eq ∧ q.isOdd) then q.addSmall 1 else q
  -- 99…9 can have rounded up to the next power
  if BigNat.cmp q (BigNat.pow10 digits) = .eq then (x + 1, BigNat.pow10 (digits - 1)) else (x, q)

def exponentText (x : Int) : Bytes :=
  let digits := decimal x.natAbs
  text "e" ++ (if x < 0 then text "-" else text "+") ++
    (if digits.length < 2 then text "0" ++ digits else digits)

/-- C's `%g`: positional unless the exponent is below -4 or not below the digits asked for. -/
def positional (d : Bytes) (x : Int) (digits : Nat) : Bytes :=
  if x < -4 ∨ digits ≤ x then
    d.take 1 ++ (if 1 < d.length then text "." ++ d.drop 1 else []) ++ exponentText x
  else if x < 0 then text "0." ++ List.replicate (-x - 1).toNat 0x30 ++ d
  else
    let whole := x.toNat + 1
    if d.length ≤ whole then d ++ List.replicate (whole - d.length) 0x30
    else d.take whole ++ text "." ++ d.drop whole

def formatBigFloatLiteral (f : BigFloatFields) (maxDigits maxExponent : Int) :
    Except FormatRefusal Bytes :=
  if f.prec = 0 then .ok (if f.negative then text "-0" else text "0")
  else
    match checkBigFloatLimits f maxDigits maxExponent with
    | some refusal => .error refusal
    | none =>
      let suffix := text "p" ++ decimal f.prec
      let sign := if f.negative then text "-" else []
      let (m, exponent) := roundedMantissa f
      if m.isZero then .ok (sign ++ text "0" ++ suffix)
      else
        let digits := Pb.Native.bigFloatPrecDigits f.prec
        let num := if 0 ≤ exponent then m.shl exponent.toNat else m
        let den := if 0 ≤ exponent then .ofNat32 1 else (BigNat.ofNat32 1).shl (-exponent).toNat
        let (x, q) := decimalOf num den digits (binaryExponent m exponent)
        let d := (toDecimal q).rdropWhile (· = 0x30)
        .ok (sign ++ positional d x digits ++ suffix)

end Protowire.Pxf.BigFloat
