import Protowire.Detail.GoQuoteCore
import Protowire.Detail.TimeCore

/-!
`GoTimestampError`: why a text is no timestamp, in the words of `time.Parse`. It reads the text
again, on its own.
-/

namespace Protowire

def timeQuoteByte (c : UInt8) : Bytes :=
  if 0x80 ≤ c ∨ c < 0x20 then text "\\x" ++ [hexDigit (c.toNat / 16), hexDigit (c.toNat % 16)]
  else if c = 0x22 ∨ c = 0x5C then [0x5C, c]
  else [c]

def timeQuote (s : Bytes) : Bytes := 0x22 :: s.flatMap timeQuoteByte ++ [0x22]

def timeLayout : Bytes := text "2006-01-02T15:04:05Z07:00"

def timeError (value rest elem : Bytes) : Bytes :=
  text "parsing time " ++ timeQuote value ++ text " as " ++ timeQuote timeLayout ++
    text ": cannot parse " ++ timeQuote rest ++ text " as " ++ timeQuote elem

def timeMessage (value message : Bytes) : Bytes := text "parsing time " ++ timeQuote value ++ message

def getNum (s : Bytes) (fixed : Bool) : Option (Nat × Bytes) :=
  if s.isEmpty ∨ ¬isDigit (peek s 0) then none
  else if s.length < 2 ∨ ¬isDigit (peek s 1) then
    if fixed then none else some (digitValue (peek s 0), s.drop 1)
  else some (digitValue (peek s 0) * 10 + digitValue (peek s 1), s.drop 2)

section

-- The whole text, which every message quotes.
variable (v : Bytes)

def rangeError (what : Bytes) : Bytes := timeMessage v (text ": " ++ what ++ text " out of range")

def literal (c : UInt8) (value : Bytes) : Except Bytes Bytes :=
  if ¬value.isEmpty ∧ peek value 0 = c then .ok (value.drop 1) else .error (timeError v value [c])

def numberField (fixed : Bool) (elem value : Bytes) : Except Bytes (Nat × Bytes) :=
  match getNum value fixed with
  | some found => .ok found
  | none => .error (timeError v value elem)

def pastSeconds (value : Bytes) : Bytes :=
  if 2 ≤ value.length ∧ (peek value 0 = 0x2E ∨ peek value 0 = 0x2C) ∧ isDigit (peek value 1) then
    value.drop (2 + spanLength isDigit (value.drop 2))
  else value

def zoneField (value : Bytes) : Except Bytes Bytes :=
  if ¬value.isEmpty ∧ peek value 0 = 0x5A then .ok (value.drop 1)
  else if value.length < 6 ∨ peek value 3 ≠ 0x3A then .error (timeError v value (text "Z07:00"))
  else
    let hours := getNum ((value.drop 1).take 2) true
    -- The minutes are not read where the hours are none.
    let minutes := if hours.isSome then getNum ((value.drop 4).take 2) true else none
    let sign := peek value 0
    if 24 < (hours.map Prod.fst).getD 0 then .error (rangeError v (text "time zone offset hour"))
    else if 60 < (minutes.map Prod.fst).getD 0 then
      .error (rangeError v (text "time zone offset minute"))
    else if ¬(hours.isSome ∧ minutes.isSome) ∨ (sign ≠ 0x2B ∧ sign ≠ 0x2D) then
      .error (timeError v value (text "Z07:00"))
    else .ok (value.drop 6)

def timestampFault : Except Bytes Unit := do
  if v.length < 4 ∨ ¬(v.take 4).all isDigit then throw (timeError v v (text "2006"))
  let year := digitsValue 0 (v.take 4)
  let value ← literal v 0x2D (v.drop 4)
  let (month, value) ← numberField v true (text "01") value
  if month ≤ 0 ∨ 12 < month then throw (rangeError v (text "month"))
  let value ← literal v 0x2D value
  let (day, value) ← numberField v true (text "02") value
  let value ← literal v 0x54 value
  let (hour, value) ← numberField v false (text "15") value
  if 24 ≤ hour then throw (rangeError v (text "hour"))
  let value ← literal v 0x3A value
  let (minute, value) ← numberField v true (text "04") value
  if 60 ≤ minute then throw (rangeError v (text "minute"))
  let value ← literal v 0x3A value
  let (second, value) ← numberField v true (text "05") value
  if 60 ≤ second then throw (rangeError v (text "second"))
  let value ← zoneField v (pastSeconds value)
  if ¬value.isEmpty then throw (timeMessage v (text ": extra text: " ++ timeQuote value))
  if day < 1 ∨ daysInMonth year month < day then throw (rangeError v (text "day"))

def notReached : Bytes := timeMessage v (text ": extra text: \"\"")

def goTimestampError : Bytes :=
  match timestampFault v with
  | .error message => message
  | .ok () => notReached v

end

end Protowire
