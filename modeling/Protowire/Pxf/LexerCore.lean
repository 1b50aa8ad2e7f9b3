import Protowire.Detail.Base64Core
import Protowire.Detail.GoQuoteCore
import Protowire.Detail.TimeCore
import Protowire.Pxf.Token

/-!
The lexer. Each scanner reads one token from the bytes that are left and says how many of
them it takes; the lexer turns that into positions. A scanner that fails takes the bytes the
source has read when it gives up, since a parser that recovers goes on from there.
-/

namespace Protowire.Pxf

def isIdentStart (c : UInt8) : Bool :=
  (0x61 ≤ c && c ≤ 0x7A) || (0x41 ≤ c && c ≤ 0x5A) || c = 0x5F

def isIdentPart (c : UInt8) : Bool := isIdentStart c || isDigit c || c = 0x2E

def isDurationUnit (c : UInt8) : Bool :=
  c = 0x68 || c = 0x6D || c = 0x73 || c = 0x6E || c = 0x75

def isLowerAlpha (c : UInt8) : Bool := 0x61 ≤ c && c ≤ 0x7A

def hexVal (c : UInt8) : Option Nat :=
  if 0x30 ≤ c && c ≤ 0x39 then some (c.toNat - 0x30)
  else if 0x61 ≤ c && c ≤ 0x66 then some (c.toNat - 0x61 + 10)
  else if 0x41 ≤ c && c ≤ 0x46 then some (c.toNat - 0x41 + 10)
  else none

def octVal (c : UInt8) : Option Nat :=
  if 0x30 ≤ c && c ≤ 0x37 then some (c.toNat - 0x30) else none

def isSpace (c : UInt8) : Bool := c = 0x20 || c = 0x09 || c = 0x0D

def indexOf (needle : Bytes) : Bytes → Option Nat
  | [] => none
  | c :: rest => if opensWith needle (c :: rest) then some 0 else (indexOf needle rest).map (· + 1)

def wideSpace (s : Bytes) : Nat :=
  let c := peek s 0
  if c = 0xC2 ∧ (peek s 1 = 0x85 ∨ peek s 1 = 0xA0) then 2
  else if s.length ≤ 2 then 0
  else
    let r := c.toNat * 0x10000 + (peek s 1).toNat * 0x100 + (peek s 2).toNat
    if r = 0xE19A80 ∨ (0xE28080 ≤ r ∧ r ≤ 0xE2808A) ∨ r = 0xE280A8 ∨ r = 0xE280A9 ∨
        r = 0xE280AF ∨ r = 0xE2819F ∨ r = 0xE38080 then 3
    else 0

def isBlankFrom : Nat → Bytes → Bool
  | _, [] => true
  | skip + 1, _ :: rest => isBlankFrom skip rest
  | 0, c :: rest =>
    if c < 0x80 then (c = 0x20 || (0x09 ≤ c && c ≤ 0x0D)) && isBlankFrom 0 rest
    else
      match wideSpace (c :: rest) with
      | 0 => false
      | width + 1 => isBlankFrom width rest

def isBlank (s : Bytes) : Bool := isBlankFrom 0 s

def splitLines : Bytes → List Bytes
  | [] => [[]]
  | c :: rest =>
    if c = 0x0A then [] :: splitLines rest
    else
      match splitLines rest with
      | [] => [[c]]
      | line :: lines => (c :: line) :: lines

def joinLines : List Bytes → Bytes
  | [] => []
  | [line] => line
  | line :: lines => line ++ 0x0A :: joinLines lines

def removeIndent (indent line : Bytes) : Bytes :=
  if opensWith indent line then line.drop indent.length else line

def dedent (raw : Bytes) : Bytes :=
  let raw := if peek raw 0 = 0x0A then raw.drop 1 else raw
  if raw.isEmpty then []
  else
    let lines := splitLines raw
    let last := lines.getLastD []
    -- A last line that is blank is the indent, and no line of the text.
    if isBlank last then joinLines (lines.dropLast.map (removeIndent last))
    else joinLines lines

/-- What a scanner finds: the token, the bytes it takes, and what a tolerant lexer reports,
with each report's offset from the start of the token. -/
structure Scan where
  kind : TokenKind
  value : Bytes := []
  width : Nat
  prec : Bytes := []
  reports : List (Nat × Bytes) := []
deriving DecidableEq, Repr

def Scan.illegal (message : Bytes) (width : Nat) : Scan :=
  { kind := .illegal, value := message, width }

def Scan.verbatim (kind : TokenKind) (s : Bytes) (width : Nat) : Scan :=
  { kind, value := s.take width, width }

def Scan.unfinished (tolerant : Bool) (message : Bytes) (width : Nat) (kept : Scan) : Scan :=
  if tolerant then { kept with reports := kept.reports ++ [(0, message)] }
  else Scan.illegal message width

def scanLineComment (s : Bytes) : Scan := .verbatim .comment s (spanLength (· ≠ 0x0A) s)

def scanBlockComment (tolerant : Bool) (s : Bytes) : Scan :=
  match indexOf (text "*/") (s.drop 2) with
  | some index => .verbatim .comment s (2 + index + 2)
  | none =>
    -- The search stops a byte short of the end.
    .unfinished tolerant (text "unterminated block comment") (max 2 (s.length - 1))
      (.verbatim .comment s s.length)

/-- What an escape stands for, or why it is none and the text a tolerant lexer keeps of it.
`width` counts the bytes read after the escape's letter. -/
inductive Escape where
  | good (bytes : Bytes) (width : Nat)
  | bad (message kept : Bytes) (width : Nat)

def readHexByte (s : Bytes) : Option UInt8 := do
  if s.length ≤ 1 then none
  let hi ← hexVal (peek s 0)
  let lo ← hexVal (peek s 1)
  some (hi * 16 + lo).toUInt8

def hexDigitsValue (value : Nat) : Bytes → Nat
  | [] => value
  | c :: rest => hexDigitsValue (value * 16 + (hexVal c).getD 0) rest

/-- Exactly `n` hex digits, and how many bytes were read: the digits before a bad one stay
consumed. -/
def readHexRune (n : Nat) (s : Bytes) : Option Nat × Nat :=
  if s.length < n then (none, 0)
  else
    let digits := (s.take n).takeWhile fun c => (hexVal c).isSome
    if digits.length = n then (some (hexDigitsValue 0 digits), n) else (none, digits.length)

def readOctRest (first : UInt8) (s : Bytes) : Option UInt8 := do
  if s.length ≤ 1 then none
  let d1 ← octVal (peek s 0)
  let d2 ← octVal (peek s 1)
  some ((first.toNat - 0x30) * 64 + d1 * 8 + d2).toUInt8

def readRuneEscape (n : Nat) (kept : Bytes) (s : Bytes) : Escape :=
  let bad (width : Nat) : Escape :=
    .bad (text "invalid " ++ kept ++ text " escape: expected " ++ decimal n ++
      text " hex digits forming a valid codepoint") kept width
  match readHexRune n s with
  | (some rune, width) => if isValidRune rune then .good (encodeRune rune) width else bad width
  | (none, width) => bad width

def readEscape (esc : UInt8) (s : Bytes) : Escape :=
  if esc = 0x22 ∨ esc = 0x5C ∨ esc = 0x27 ∨ esc = 0x3F then .good [esc] 0
  else if esc = 0x61 then .good [0x07] 0
  else if esc = 0x62 then .good [0x08] 0
  else if esc = 0x66 then .good [0x0C] 0
  else if esc = 0x6E then .good [0x0A] 0
  else if esc = 0x72 then .good [0x0D] 0
  else if esc = 0x74 then .good [0x09] 0
  else if esc = 0x76 then .good [0x0B] 0
  else if esc = 0x78 then
    match readHexByte s with
    | some b => .good [b] 2
    | none => .bad (text "invalid \\x escape: expected 2 hex digits") (text "\\x") 0
  else if 0x30 ≤ esc ∧ esc ≤ 0x33 then
    match readOctRest esc s with
    | some b => .good [b] 2
    | none => .bad (text "invalid octal escape: expected 3 octal digits") [0x5C, esc] 0
  else if esc = 0x75 then readRuneEscape 4 (text "\\u") s
  else if esc = 0x55 then readRuneEscape 8 (text "\\U") s
  else .bad (text "unknown escape sequence \\" ++ encodeRune esc.toNat) [0x5C, esc] 0

/-- The loop of `LexString` past the opening quote. `at_` is how many bytes of the token were
read, `skip` how many of those left belong to an escape already read, `sb` the text so far. -/
def scanStringBody (tolerant : Bool) (skip at_ : Nat) (sb : Bytes) (reports : List (Nat × Bytes)) :
    Bytes → Scan
  | [] =>
    .unfinished tolerant (text "unterminated string") at_
      { kind := .string, value := sb, width := at_, reports }
  | c :: rest =>
    match skip with
    | skip + 1 => scanStringBody tolerant skip (at_ + 1) sb reports rest
    | 0 =>
      if c = 0x22 then { kind := .string, value := sb, width := at_ + 1, reports }
      else if c = 0x5C then
        match rest with
        | [] =>
          .unfinished tolerant (text "unterminated escape sequence") (at_ + 1)
            { kind := .string, value := sb, width := at_ + 1, reports }
        | esc :: after =>
          match readEscape esc after with
          | .good bytes width =>
            scanStringBody tolerant (1 + width) (at_ + 1) (sb ++ bytes) reports rest
          | .bad message kept width =>
            if tolerant then
              scanStringBody tolerant (1 + width) (at_ + 1) (sb ++ kept)
                (reports ++ [(at_ + 1, message)]) rest
            else .illegal message (at_ + 2 + width)
      else if c = 0x0A then
        if tolerant then
          { kind := .string, value := sb, width := at_,
            reports := reports ++ [(0, text "unterminated string: ended at newline")] }
        else
          .illegal
            (text "newline in string literal: write it as \\n, or use a \"\"\"triple-quoted\"\"\" string")
            at_
      else scanStringBody tolerant 0 (at_ + 1) (sb ++ [c]) reports rest

def scanString (tolerant : Bool) (s : Bytes) : Scan := scanStringBody tolerant 0 1 [] [] (s.drop 1)

def scanTripleString (tolerant : Bool) (s : Bytes) : Scan :=
  match indexOf (text "\"\"\"") (s.drop 3) with
  | some index =>
    { kind := .string, value := dedent ((s.drop 3).take index), width := 3 + index + 3 }
  | none =>
    -- The search stops two bytes short of the end.
    .unfinished tolerant (text "unterminated triple-quoted string") (max 3 (s.length - 2))
      { kind := .string, value := dedent (s.drop 3), width := s.length }

/-- The loop of `LexBytes` past the opening quote. `count` characters of `body`, which opens the
literal, were read. The limit is judged from that count before anything is decoded. -/
def scanBytesBody (tolerant : Bool) (limit : Nat) (body : Bytes) (count : Nat) : Bytes → Scan
  | [] =>
    .unfinished tolerant (text "unterminated bytes literal") (2 + count)
      { kind := .bytes, value := body.take count, width := 2 + count }
  | c :: rest =>
    if 0 < limit ∧ limit < count / 4 * 3 then
      .illegal (text "bytes literal decodes to more than MaxBytesLiteralLength=" ++
        decimal limit ++ text " bytes") (2 + count)
    else if c = 0x22 then
      let raw := body.take count
      -- A tolerant lexer leaves the decoding to the parser.
      if !tolerant && (base64DecodeLenient raw).toOption.isNone then
        .illegal (text "invalid base64 in bytes literal") (2 + count + 1)
      else { kind := .bytes, value := raw, width := 2 + count + 1 }
    else if c = 0x0A then
      if tolerant then
        { kind := .bytes, value := body.take count, width := 2 + count,
          reports := [(0, text "unterminated bytes literal: ended at newline")] }
      else .illegal (text "unterminated bytes literal") (2 + count)
    else scanBytesBody tolerant limit body (count + 1) rest

def scanBytes (tolerant : Bool) (limit : Nat) (s : Bytes) : Scan :=
  scanBytesBody tolerant limit (s.drop 2) 0 (s.drop 2)

def scanDirective (s : Bytes) : Scan :=
  let name := (s.drop 1).takeWhile isIdentPart
  let width := 1 + name.length
  if name.isEmpty then .illegal (text "\"@\" must be followed by a directive name") width
  else if name = text "type" then { kind := .atType, value := text "@type", width }
  else if name = text "dataset" then { kind := .atDataset, value := text "@dataset", width }
  else if name = text "proto" then { kind := .atProto, value := text "@proto", width }
  else { kind := .atDirective, value := name, width }

def lexPrecision (s : Bytes) : Bytes :=
  if peek s 0 = 0x70 ∧ isDigit (peek s 1) then (s.drop 1).takeWhile isDigit else []

def scanNumberToken (kind : TokenKind) (s : Bytes) (width : Nat) : Scan :=
  let prec := lexPrecision (s.drop width)
  { kind, value := s.take width, prec,
    width := if prec.isEmpty then width else width + 1 + prec.length }

def pastDigits (s : Bytes) (at_ : Nat) : Nat := at_ + spanLength isDigit (s.drop at_)

def pastPoint (s : Bytes) (at_ : Nat) : Nat :=
  if peek s at_ = 0x2E then pastDigits s (at_ + 1) else at_

def pastExponent (s : Bytes) (at_ : Nat) : Nat :=
  if peek s at_ = 0x65 ∨ peek s at_ = 0x45 then
    pastDigits s (if peek s (at_ + 1) = 0x2B ∨ peek s (at_ + 1) = 0x2D then at_ + 2 else at_ + 1)
  else at_

def scanFloat (s : Bytes) (at_ : Nat) : Scan :=
  scanNumberToken .float s (pastExponent s (pastPoint s at_))

def endsRun (c : UInt8) : Bool :=
  c = 0x20 || c = 0x0A || c = 0x09 || c = 0x0D || c = 0x2C || c = 0x5D || c = 0x7D || c = 0x29 ||
    c = 0x23

def timestampRun : Bytes → Nat
  | [] => 0
  | c :: rest =>
    if endsRun c then 0
    else if c = 0x2F ∧ (peek rest 0 = 0x2F ∨ peek rest 0 = 0x2A) then 0
    else timestampRun rest + 1

def scanTimestamp (s : Bytes) (at_ : Nat) : Scan :=
  let width := at_ + timestampRun (s.drop at_)
  if (parseRFC3339 (s.take width)).isNone then
    .illegal (text "invalid timestamp: " ++ s.take width) width
  else .verbatim .timestamp s width

def durationRun : Bytes → Nat
  | [] => 0
  | [c] => if isDigit c || isLowerAlpha c then 1 else 0
  | c :: d :: rest =>
    if isDigit c || isLowerAlpha c then durationRun (d :: rest) + 1
    else if c = 0x2E && isDigit d then durationRun (d :: rest) + 1
    else if c = 0xC2 && d = 0xB5 then durationRun rest + 2
    else 0

def scanDuration (s : Bytes) (at_ : Nat) : Scan :=
  let width := at_ + durationRun (s.drop at_)
  if (parseDuration (s.take width)).isNone then
    .illegal (text "invalid duration: " ++ s.take width) width
  else .verbatim .duration s width

def atDurationUnit (s : Bytes) : Bool :=
  isDurationUnit (peek s 0) || (peek s 0 = 0xC2 && peek s 1 = 0xB5)

def hasFraction (s : Bytes) (at_ : Nat) : Bool := peek s at_ = 0x2E && isDigit (peek s (at_ + 1))

def pastFraction (s : Bytes) (at_ : Nat) : Nat :=
  if hasFraction s at_ then pastDigits s (at_ + 1) else at_

def scanMagnitude (neg : Bool) (s : Bytes) (digitStart : Nat) : Scan :=
  let past := pastDigits s digitStart
  if !neg && past - digitStart = 4 && peek s past = 0x2D then scanTimestamp s past
  else
    let at_ := pastFraction s past
    if atDurationUnit (s.drop at_) then scanDuration s at_
    else if hasFraction s past || peek s at_ = 0x2E || peek s at_ = 0x65 || peek s at_ = 0x45 then
      scanFloat s at_
    else scanNumberToken .int s at_

def scanNumber (s : Bytes) : Scan :=
  let sign := peek s 0
  if sign = 0x2D ∨ sign = 0x2B then
    if opensWith (text "inf") (s.drop 1) ∧ ¬isIdentPart (peek s 4) then .verbatim .float s 4
    else if sign = 0x2B then .illegal (text "\"+\" is valid only in \"+inf\"") 1
    else if ¬isDigit (peek s 1) then
      .illegal (text "\"-\" must be followed by a digit or \"inf\"") 1
    else scanMagnitude true s 1
  else scanMagnitude false s 0

def scanIdent (s : Bytes) : Scan :=
  let width := spanLength isIdentPart s
  let v := s.take width
  if v = text "true" ∨ v = text "false" then .verbatim .bool s width
  else if v = text "null" then .verbatim .null s width
  else .verbatim .ident s width

def punctuation (c : UInt8) : Option TokenKind :=
  if c = 0x7B then some .lBrace
  else if c = 0x7D then some .rBrace
  else if c = 0x5B then some .lBracket
  else if c = 0x5D then some .rBracket
  else if c = 0x28 then some .lParen
  else if c = 0x29 then some .rParen
  else if c = 0x3D then some .equals
  else if c = 0x3A then some .colon
  else if c = 0x2C then some .comma
  else none

inductive Lead where
  | newline
  | lineComment
  | blockComment
  | tripleString
  | string
  | bytes
  | punctuation (kind : TokenKind)
  | directive
  | number
  | ident
  | other
deriving DecidableEq, Repr

def leadOf (s : Bytes) : Lead :=
  let c := peek s 0
  if c = 0x0A then .newline
  else if c = 0x23 then .lineComment
  else if c = 0x2F ∧ peek s 1 = 0x2F then .lineComment
  else if c = 0x2F ∧ peek s 1 = 0x2A then .blockComment
  else if c = 0x22 then
    if peek s 1 = 0x22 ∧ peek s 2 = 0x22 then .tripleString else .string
  else if c = 0x62 ∧ peek s 1 = 0x22 then .bytes
  else
    match punctuation c with
    | some kind => .punctuation kind
    | none =>
      if c = 0x40 then .directive
      else if c = 0x2D ∨ c = 0x2B ∨ isDigit c then .number
      else if isIdentStart c then .ident
      else .other

def scan (tolerant : Bool) (limit : Nat) (s : Bytes) : Scan :=
  match leadOf s with
  | .newline => { kind := .newline, width := 1 }
  | .lineComment => scanLineComment s
  | .blockComment => scanBlockComment tolerant s
  | .tripleString => scanTripleString tolerant s
  | .string => scanString tolerant s
  | .bytes => scanBytes tolerant limit s
  | .punctuation kind => .verbatim kind s 1
  | .directive => scanDirective s
  | .number => scanNumber s
  | .ident => scanIdent s
  | .other => .illegal (goIllegalRune s).1 (goIllegalRune s).2

structure Lexer where
  input : Bytes
  pos : Nat := 0
  line : Nat := 1
  column : Nat := 1
  start : Position := {}
  maxBytesLiteral : Nat := maxBytesLiteralLength
  tolerant : Bool := false
deriving DecidableEq, Repr

namespace Lexer

def ofPiece (input : Bytes) (start : Position) (maxBytesLiteral : Nat) : Lexer :=
  { input, line := start.line, column := start.column, start, maxBytesLiteral }

def rest (l : Lexer) : Bytes := l.input.drop l.pos

def currentPos (l : Lexer) : Position := ⟨l.line, l.column, l.start.offset + l.pos⟩

def advance (l : Lexer) (n : Nat) : Lexer :=
  let read := l.rest.take n
  let here := l.currentPos.after read
  { l with pos := l.pos + read.length, line := here.line, column := here.column }

def skipSpaces (l : Lexer) : Lexer := l.advance (spanLength isSpace l.rest)

/-- The next token, the lexer after it, and what a tolerant lexer reports on the way. -/
def next (l : Lexer) : Token × Lexer × List Error :=
  let l := l.skipSpaces
  let pos := l.currentPos
  if l.rest.isEmpty then ({ kind := .eof, pos }, l, [])
  else
    let found := scan l.tolerant l.maxBytesLiteral l.rest
    ({ kind := found.kind, value := found.value, pos, prec := found.prec },
      l.advance found.width,
      found.reports.map fun (offset, msg) => ⟨pos.after (l.rest.take offset), msg⟩)

def repositionTo (l : Lexer) (target : Nat) : Lexer :=
  let from_ := if target < l.pos then
      { l with pos := 0, line := l.start.line, column := l.start.column }
    else l
  from_.advance (target - from_.pos)

end Lexer

end Protowire.Pxf
