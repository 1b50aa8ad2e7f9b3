import Protowire.Pxf.DocumentCore
import Protowire.Pxf.MessageCore

/-!
What a token says where a field of a given type stands: the scalars, and the literals of
well-known messages. Nothing here reads a token.
-/

namespace Protowire.Pxf

open Support

structure UnmarshalOptions where
  resolver : Option (Bytes → Option Nat) := none
  discardUnknown : Bool := false
  skipValidate : Bool := false
  maxMessageSize : Int := 0
  maxNestingDepth : Int := 0
  maxNumericLiteralDigits : Int := 0
  maxBytesLiteralLength : Int := 0
  maxRepeatedCount : Int := 0
  maxBigFloatExponent : Int := 0

structure Limits where
  maxMessageSize : Nat
  maxDepth : Nat
  maxDigits : Nat
  maxBytesLiteral : Nat
  maxRepeated : Nat
  maxBigFloatExponent : Nat

def resolveLimits (o : UnmarshalOptions) : Limits where
  maxMessageSize := selected o.maxMessageSize maxMessageSize
  maxDepth := selected o.maxNestingDepth maxNestingDepth
  maxDigits := selected o.maxNumericLiteralDigits maxNumericLiteralDigits
  maxBytesLiteral := selected o.maxBytesLiteralLength maxBytesLiteralLength
  maxRepeated := selected o.maxRepeatedCount maxRepeatedCount
  maxBigFloatExponent := selected o.maxBigFloatExponent Pxf.maxBigFloatExponent

/-- What the decoder calls outside itself: `strtof` and `strtod` on a text they have to read to
its end, the reading of a `pxf.BigFloat` literal, and the binary encoding an `Any` holds. -/
structure Host where
  strtof : Bytes → Option UInt32
  strtod : Bytes → Option UInt64
  bigFloat : Bytes → Bytes → Nat → Nat → Except Bytes BigFloatFields
  serialize : Nat → Message → Bytes

structure Context where
  pool : Pool
  host : Host
  resolver : Option (Bytes → Option Nat)
  discardUnknown : Bool
  limits : Limits

def isNaN32 (bits : UInt32) : Bool := 0x7F800000 < bits &&& 0x7FFFFFFF

def isNaN64 (bits : UInt64) : Bool := 0x7FF0000000000000 < bits &&& 0x7FFFFFFFFFFFFFFF

def isInf32 (bits : UInt32) : Bool := bits &&& 0x7FFFFFFF = 0x7F800000

def isInf64 (bits : UInt64) : Bool := bits &&& 0x7FFFFFFFFFFFFFFF = 0x7FF0000000000000

def writesInf (s : Bytes) : Bool := s = text "inf" || s = text "+inf" || s = text "-inf"

def parseFinite32 (host : Host) (s : Bytes) : Option UInt32 := do
  let bits ← host.strtof s
  let out := if isNaN32 bits then 0x7FC00000 else bits
  if isInf32 out && !writesInf s then none else some out

def parseFinite64 (host : Host) (s : Bytes) : Option UInt64 := do
  let bits ← host.strtod s
  let out := if isNaN64 bits then 0x7FF8000000000000 else bits
  if isInf64 out && !writesInf s then none else some out

/-- `std::from_chars` of all of `s` into an integer from `low` to `high`. An unsigned type takes
no sign. -/
def parseInteger (low high : Int) (s : Bytes) : Option Int :=
  let minus := peek s 0 = 0x2D && low < 0
  let digits := if minus then s.drop 1 else s
  if digits.isEmpty || !digits.all isDigit then none
  else
    let magnitude := (digitsValue 0 digits : Int)
    let value := if minus then -magnitude else magnitude
    if low ≤ value ∧ value ≤ high then some value else none

def parseInt32 (s : Bytes) : Option Int := parseInteger (-2 ^ 31) (2 ^ 31 - 1) s

def parseInt64 (s : Bytes) : Option Int := parseInteger (-2 ^ 63) (2 ^ 63 - 1) s

def parseUInt32 (s : Bytes) : Option Int := parseInteger 0 (2 ^ 32 - 1) s

def parseUInt64 (s : Bytes) : Option Int := parseInteger 0 (2 ^ 64 - 1) s

def expected (what : String) (named : FieldDescriptor) : Bytes :=
  text "expected " ++ text what ++ text " for field " ++ goQuote named.name

def invalid (what : String) (value : Bytes) : Bytes :=
  text "invalid " ++ text what ++ text ": " ++ value

def checkNoPrecision (fd : FieldDescriptor) (t : Token) : Except Bytes Unit :=
  if t.prec.isEmpty then .ok ()
  else
    .error (text "precision suffix p" ++ clip t.prec ++
      text " is allowed only on a pxf.BigFloat, not on field \"" ++ fd.name ++ text "\"")

def integerOf (what : String) (parse : Bytes → Option Int) (named : FieldDescriptor) (t : Token) :
    Except Bytes Scalar :=
  if t.kind ≠ .int then .error (expected "integer" named)
  else
    match parse t.value with
    | none => .error (invalid what t.value)
    | some value => .ok (.int value)

def Token.isNumber (t : Token) : Bool :=
  t.kind = .float || t.kind = .int ||
    (t.kind = .ident && (t.value = text "inf" || t.value = text "nan"))

def numberOf (what : String) (parse : Bytes → Option Scalar) (named : FieldDescriptor)
    (t : Token) : Except Bytes Scalar :=
  if !t.isNumber then .error (expected "number" named)
  else
    match parse t.value with
    | none => .error (invalid what t.value)
    | some value => .ok value

def enumOf (type : EnumDescriptor) (named : FieldDescriptor) (t : Token) : Except Bytes Scalar :=
  match t.kind with
  | .ident =>
    match type.values.find? (·.1 = t.value) with
    | none =>
      .error (text "unknown enum value " ++ goQuote t.value ++ text " for " ++ type.fullName)
    | some (_, number) => .ok (.int number)
  | .int =>
    match parseInt32 t.value with
    | none => .error (text "invalid enum number: " ++ t.value)
    | some number => .ok (.int number)
  | _ => .error (expected "enum name or number" named)

def stringOf (named : FieldDescriptor) (t : Token) : Except Bytes Scalar :=
  if t.kind ≠ .string then .error (expected "string" named)
  else if !isValidUTF8 t.value then
    .error (text "invalid UTF-8 in string field \"" ++ named.name ++
      text "\" (use b\"…\" for raw bytes)")
  else .ok (.bytes t.value)

def bytesOf (base64 : Bytes → Except Nat Bytes) (named : FieldDescriptor) (t : Token) :
    Except Bytes Scalar :=
  if t.kind ≠ .bytes then .error (expected "bytes" named)
  else
    match base64 t.value with
    | .error offset =>
      .error (text "invalid base64 for field " ++ goQuote named.name ++
        text ": illegal base64 data at input byte " ++ decimal offset)
    | .ok decoded => .ok (.bytes decoded)

/-- What `ConsumeScalar` reads for the field `fd`. Errors name `named`, which differs from `fd`
for a wrapper's shorthand. -/
def scalarOf (host : Host) (base64 : Bytes → Except Nat Bytes) (fd named : FieldDescriptor)
    (t : Token) : Except Bytes Scalar :=
  match checkNoPrecision named t with
  | .error msg => .error msg
  | .ok _ =>
    match fd.cppType with
    | .string => if fd.type = .bytes then bytesOf base64 named t else stringOf named t
    | .bool =>
      if t.kind ≠ .bool then .error (expected "bool" named)
      else .ok (.bool (t.value = text "true"))
    | .int32 => integerOf "int32" parseInt32 named t
    | .int64 => integerOf "int64" parseInt64 named t
    | .uint32 => integerOf "uint32" parseUInt32 named t
    | .uint64 => integerOf "uint64" parseUInt64 named t
    | .float => numberOf "float" (fun s => .float <$> parseFinite32 host s) named t
    | .double => numberOf "double" (fun s => .double <$> parseFinite64 host s) named t
    | .enum type => enumOf type named t
    | .message _ => .error (text "unsupported scalar kind")

/-- The digits of a literal that count against the limit: leading zeros do not, nor does what
follows an exponent or a precision suffix. -/
def countLiteralDigitsFrom (leading : Bool) : Bytes → Nat
  | [] => 0
  | c :: rest =>
    if c = 0x65 ∨ c = 0x45 ∨ c = 0x70 then 0
    else if !isDigit c || (leading && c = 0x30) then countLiteralDigitsFrom leading rest
    else countLiteralDigitsFrom false rest + 1

def countLiteralDigits (literal : Bytes) : Nat := countLiteralDigitsFrom true literal

/-- What a run does that the message it builds does not show: the big numbers its literals
stand for, and the places where it passes over text without reading it. -/
inductive Event where
  | bigInt (literal : Bytes) (value : Pb.BigInt)
  | decimal (literal : Bytes) (value : Pb.Decimal)
  | passedValue (lex : Lexer) (current : Token) (room : Nat)
  | passedProto (lex : Lexer) (current : Token) (close : Nat)
  | passedTypeName (current : Token)
deriving DecidableEq, Repr

def bigNumberOf (limits : Limits) (d : Descriptor) (sub : Message) (t : Token) :
    Except Bytes (Message × List Event) :=
  let digits := countLiteralDigits t.value
  if limits.maxDigits < digits then
    .error (text "numeric literal has " ++ decimal digits ++
      text " digits; MaxNumericLiteralDigits=" ++ decimal limits.maxDigits)
  else if d.isBigInt then
    match Pb.parseBigInt t.value with
    | none => .error (text "invalid pxf.BigInt: " ++ t.value)
    | some n => .ok (sub.setBigInt d n, [.bigInt t.value n])
  else
    match decimalLiteral t.value with
    | none => .error (text "invalid pxf.Decimal: " ++ t.value)
    | some n => .ok (sub.setDecimal d n, [.decimal t.value n])

/-- What `DecodeLiteral` makes of a token where a message of type `d` stands: the message with
the literal in it, or nothing where the token is no literal of that type. -/
def literalOf (host : Host) (limits : Limits) (base64 : Bytes → Except Nat Bytes) (d : Descriptor)
    (fd : FieldDescriptor) (sub : Message) (t : Token) :
    Except Bytes (Option (Message × List Event)) :=
  if d.isTimestamp && t.kind = .timestamp then
    match parseRFC3339 t.value with
    | none => .error (text "invalid timestamp")
    | some at_ => .ok (some (sub.setSeconds d at_.seconds at_.nanos, []))
  else if d.isDuration && t.kind = .duration then
    match parseDuration t.value with
    | none => .error (text "invalid duration")
    | some span => .ok (some (sub.setSeconds d span.seconds span.nanos, []))
  else if d.isBigFloat && (t.kind = .int || t.kind = .float) then
    match host.bigFloat t.value t.prec limits.maxDigits limits.maxBigFloatExponent with
    | .error msg => .error msg
    | .ok fields => .ok (some (sub.setBigFloat d fields, []))
  else
    match checkNoPrecision fd t with
    | .error msg => .error msg
    | .ok _ =>
      -- Wrapper sugar takes any token but a block; a Secret takes a string.
      if (d.isWrapper && t.kind ≠ .lBrace) || (d.isSecret && t.kind = .string) then
        match d.findFieldByName (text "value") with
        | none => .ok none
        | some inner =>
          match scalarOf host base64 inner fd t with
          | .error msg => .error msg
          | .ok value => .ok (some (sub.setScalar inner value, []))
      else if (d.isBigInt && t.kind = .int) ||
          (d.isDecimal && (t.kind = .int || t.kind = .float)) then
        some <$> bigNumberOf limits d sub t
      else .ok none

end Protowire.Pxf
