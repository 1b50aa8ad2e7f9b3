import Protowire.Detail.BytesCore
import Protowire.Support.Iterate

/-!
Timestamps and durations: reading and writing RFC 3339 and the `time.Duration` text form.
-/

namespace Protowire

open Support

structure Timestamp where
  seconds : Int
  nanos : Nat
deriving DecidableEq, Repr

def daysFromCivil (year month day : Nat) : Int :=
  let y : Int := (year : Int) - (if month ≤ 2 then 1 else 0)
  let era : Int := (if 0 ≤ y then y else y - 399).tdiv 400
  let yoe : Nat := (y - era * 400).toNat
  let doy : Nat := (153 * (if 2 < month then month - 3 else month + 9) + 2) / 5 + day - 1
  let doe : Nat := yoe * 365 + yoe / 4 - yoe / 100 + doy
  era * 146097 + doe - 719468

def parseUInt (s : Bytes) (start length : Nat) : Option Nat :=
  let field := (s.drop start).take length
  if field.all isDigit then some (digitsValue 0 field) else none

def daysInMonth (year month : Nat) : Nat :=
  let days := [31, 28, 31, 30, 31, 30, 31, 31, 30, 31, 30, 31].getD (month - 1) 0
  let leap := month = 2 ∧ year % 4 = 0 ∧ (year % 100 ≠ 0 ∨ year % 400 = 0)
  days + if leap then 1 else 0

/-- The fraction at `pos`, in nanoseconds, and where it ends. Digits past the ninth are cut. -/
def parseFraction (s : Bytes) (pos : Nat) : Nat × Nat :=
  if (peek s pos = 0x2E ∨ peek s pos = 0x2C) ∧ isDigit (peek s (pos + 1)) then
    let run := (s.drop (pos + 1)).takeWhile isDigit
    let kept := run.take 9
    (digitsValue 0 kept * 10 ^ (9 - kept.length), pos + 1 + run.length)
  else (0, pos)

def parseZone (s : Bytes) (pos : Nat) : Option Int :=
  let tz := peek s pos
  if s.length ≤ pos then none
  else if tz = 0x5A then
    if pos + 1 = s.length then some 0 else none
  else if tz = 0x2B ∨ tz = 0x2D then do
    if s.length - pos ≠ 6 ∨ peek s (pos + 3) ≠ 0x3A then none
    let oh ← parseUInt s (pos + 1) 2
    let om ← parseUInt s (pos + 4) 2
    if 24 < oh ∨ 60 < om then none
    let offset : Int := oh * 3600 + om * 60
    if tz = 0x2D then some (-offset) else some offset
  else none

/-- What `time.Parse` takes for `time.RFC3339`: the hour may be one digit, the fraction may open
with a comma, and an offset runs to 24:60. -/
def parseRFC3339 (s : Bytes) : Option Timestamp := do
  if s.length < 19 then none
  if peek s 4 ≠ 0x2D ∨ peek s 7 ≠ 0x2D ∨ peek s 10 ≠ 0x54 then none
  let hourDigits := if isDigit (peek s 12) then 2 else 1
  let minutes := 11 + hourDigits + 1
  if s.length < minutes + 6 ∨ peek s (minutes - 1) ≠ 0x3A ∨ peek s (minutes + 2) ≠ 0x3A then none
  let year ← parseUInt s 0 4
  let month ← parseUInt s 5 2
  let day ← parseUInt s 8 2
  let hour ← parseUInt s 11 hourDigits
  let minute ← parseUInt s minutes 2
  let second ← parseUInt s (minutes + 3) 2
  let (nanos, pos) := parseFraction s (minutes + 5)
  let zone ← parseZone s pos
  if month < 1 ∨ 12 < month ∨ day < 1 ∨ daysInMonth year month < day ∨ 23 < hour ∨
      59 < minute ∨ 59 < second then none
  let seconds := daysFromCivil year month day * 86400 + hour * 3600 + minute * 60 + second
  some ⟨seconds - zone, nanos⟩

def zeroPadded (width n : Nat) : Bytes :=
  List.replicate (width - (decimal n).length) 0x30 ++ decimal n

def signedPadded (width : Nat) (n : Int) : Bytes :=
  if n < 0 then 0x2D :: zeroPadded (width - 1) n.natAbs else zeroPadded width n.natAbs

def trimZeros : Nat → Int → Nat × Int
  | 0, n => (0, n)
  | width + 1, n => if n.tmod 10 = 0 then trimZeros width (n.tdiv 10) else (width + 1, n)

def civilFromDays (days : Int) : Int × Nat × Nat :=
  let z := days + 719468
  let era := (if 0 ≤ z then z else z - 146096).tdiv 146097
  let doe := (z - era * 146097).toNat
  let yoe := (doe - doe / 1460 + doe / 36524 - doe / 146096) / 365
  let doy := doe - (365 * yoe + yoe / 4 - yoe / 100)
  let mp := (5 * doy + 2) / 153
  let day := doy - (153 * mp + 2) / 5 + 1
  let month := if mp < 10 then mp + 3 else mp - 9
  (yoe + era * 400 + (if month ≤ 2 then 1 else 0), month, day)

def formatRFC3339Nano (seconds nanos : Int) : Bytes :=
  let days := seconds.fdiv 86400
  let tod := (seconds.fmod 86400).toNat
  let (year, month, day) := civilFromDays days
  let date := signedPadded 4 year ++ text "-" ++ zeroPadded 2 month ++ text "-" ++ zeroPadded 2 day
  let clock := zeroPadded 2 (tod / 3600) ++ text ":" ++ zeroPadded 2 (tod / 60 % 60) ++ text ":" ++
    zeroPadded 2 (tod % 60)
  let fraction :=
    if nanos = 0 then []
    else
      let (width, n) := trimZeros 9 nanos
      text "." ++ signedPadded width n
  date ++ text "T" ++ clock ++ fraction ++ text "Z"

structure Duration where
  seconds : Int
  nanos : Int
deriving DecidableEq, Repr

def maxInt64 : Nat := 2 ^ 63 - 1

def maxUInt64 : Nat := 2 ^ 64 - 1

def unitNanos (s : Bytes) : Option (Nat × Nat) :=
  if opensWith [0xC2, 0xB5, 0x73] s ∨ opensWith [0xCE, 0xBC, 0x73] s then some (1000, 3)
  else if opensWith (text "ns") s then some (1, 2)
  else if opensWith (text "us") s then some (1000, 2)
  else if opensWith (text "ms") s then some (1000000, 2)
  else if opensWith (text "s") s then some (1000000000, 1)
  else if opensWith (text "m") s then some (60 * 1000000000, 1)
  else if opensWith (text "h") s then some (3600 * 1000000000, 1)
  else none

def wholeValue (whole : Nat) : Bytes → Option Nat
  | [] => some whole
  | c :: rest =>
    if maxInt64 < whole * 10 ∨ maxInt64 < whole * 10 + digitValue c then none
    else wholeValue (whole * 10 + digitValue c) rest

def mulU64 (a b : Nat) : Option Nat := if maxUInt64 < a * b then none else some (a * b)

def addU64 (a b : Nat) : Option Nat := if maxUInt64 < a + b then none else some (a + b)

/-- One segment of a duration, `1*DIGIT [ "." *DIGIT ] unit`, added to the total so far, with
what follows it. Fraction digits past the ninth are dropped. -/
def durationSegment (total : Nat) (s : Bytes) : Option (Nat × Bytes) := do
  let digits := s.takeWhile isDigit
  let whole ← wholeValue 0 digits
  let afterWhole := s.drop digits.length
  let pointed := peek afterWhole 0 = 0x2E
  let fraction := if pointed then (afterWhole.drop 1).takeWhile isDigit else []
  if digits.isEmpty ∧ fraction.isEmpty then none
  let kept := fraction.take 9
  let fracNum := digitsValue 0 kept
  let fracDiv := 10 ^ kept.length
  let afterNumber := if pointed then afterWhole.drop (1 + fraction.length) else afterWhole
  let (unit, length) ← unitNanos afterNumber
  let v ← mulU64 whole unit
  let v ←
    if 0 < fracNum then
      if maxInt64 < fracNum * unit then none else addU64 v (fracNum * unit / fracDiv)
    else some v
  let total ← addU64 total v
  some (total, afterNumber.drop length)

def durationTotal (s : Bytes) : Option Nat :=
  loop (fun state : Nat × Bytes => state.2.length)
    (fun (total, s) =>
      if s.isEmpty then .done (some total)
      else
        match durationSegment total s with
        | none => .done none
        | some following => .next following)
    (fun _ => none) (0, s)

def parseDuration (s : Bytes) : Option Duration := do
  if s.isEmpty then none
  let neg := peek s 0 = 0x2D
  let s := if neg ∨ peek s 0 = 0x2B then s.drop 1 else s
  if s.isEmpty then none
  if s = text "0" then some ⟨0, 0⟩
  else do
    let total ← durationTotal s
    if (if neg then maxInt64 + 1 else maxInt64) < total then none
    let signed : Int := if neg then -total else total
    some ⟨signed.tdiv 1000000000, signed.tmod 1000000000⟩

def fractionDigits (width n : Nat) : Bytes :=
  ((zeroPadded width n).reverse.dropWhile (· == 0x30)).reverse

def withFraction (whole width n : Nat) (unit : Bytes) : Bytes :=
  if n = 0 then decimal whole ++ unit
  else decimal whole ++ text "." ++ fractionDigits width n ++ unit

def durationMagnitude (total : Nat) : Bytes :=
  if total < 1000 then decimal total ++ text "ns"
  else if total < 1000000 then withFraction (total / 1000) 3 (total % 1000) (text "µs")
  else if total < 1000000000 then withFraction (total / 1000000) 6 (total % 1000000) (text "ms")
  else
    let s := total / 1000000000
    let h := s / 3600
    let m := s / 60 % 60
    (if 0 < h then decimal h ++ text "h" else []) ++
      (if 0 < h ∨ 0 < m then decimal m ++ text "m" else []) ++
      withFraction (s % 60) 9 (total % 1000000000) (text "s")

def fitsInt64 (n : Int) : Bool := -(2 : Int) ^ 63 ≤ n && n < (2 : Int) ^ 63

def formatDuration (seconds nanos : Int) : Bytes :=
  let scaled := seconds * 1000000000
  if !fitsInt64 scaled || !fitsInt64 (scaled + nanos) then text "<duration overflow>"
  else
    let total := scaled + nanos
    if total = 0 then text "0s"
    else (if total < 0 then text "-" else []) ++ durationMagnitude total.natAbs

end Protowire
