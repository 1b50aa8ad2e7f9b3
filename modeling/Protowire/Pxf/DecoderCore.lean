import Protowire.Pxf.LiteralCore

/-!
The fused decoder: one pass that reads a token, decides which field it belongs to and writes
the field, with no document in between. A function that stands for one level takes the ones a
level deeper, which are missing at the depth limit.
-/

namespace Protowire.Pxf

open Support

structure Decoder where
  lex : Lexer
  current : Token := {}
  trace : List Event := []

abbrev DecoderM := EStateM Status Decoder

def Key.written (key : Key) : Bytes :=
  if key.prec.isEmpty then key.value else key.value ++ text "p" ++ key.prec

namespace Decoder

def remaining (d : Decoder) : Nat := d.lex.rest.length + if d.current.kind = .eof then 0 else 1

def advanced (d : Decoder) : Decoder :=
  let read := significant d.lex
  { d with current := read.token, lex := read.lex }

def peekKind (d : Decoder) : TokenKind := d.advanced.current.kind

def tokenErrMsg (d : Decoder) : Bytes :=
  if d.current.kind = .illegal then d.current.value
  else tokenKindName d.current.kind ++ text " (" ++ goQuote d.current.value ++ text ")"

def advance : DecoderM Unit := modify advanced

def advanceWhen (condition : Bool) : DecoderM Unit := if condition then advance else pure ()

def fail {α : Type} (pos : Position) (msg : Bytes) : DecoderM α :=
  throw ⟨pos.line, pos.column, msg⟩

def orFail {α : Type} (pos : Position) : Except Bytes α → DecoderM α
  | .ok result => pure result
  | .error msg => fail pos msg

def record (events : List Event) : DecoderM Unit :=
  modify fun d => { d with trace := d.trace ++ events }

def checkLegal : DecoderM Unit := do
  let d ← get
  if d.current.kind = .illegal then fail d.current.pos d.current.value else pure ()

def walkTurn (opener closer : TokenKind) (s : Nat × Decoder) :
    Turn (Nat × Decoder) (Option Nat × Decoder) :=
  if s.2.current.kind = .eof then .done (none, s.2)
  else if s.2.current.kind = opener then .next (s.1 + 1, s.2.advanced)
  else if s.2.current.kind = closer then
    if s.1 ≤ 1 then .done (some s.2.current.pos.offset, s.2.advanced)
    else .next (s.1 - 1, s.2.advanced)
  else .next (s.1, s.2.advanced)

def walk (opener closer : TokenKind) (depth : Nat) (d : Decoder) : Option Nat × Decoder :=
  loop (fun s => s.2.remaining) (walkTurn opener closer) (fun s => (none, s.2)) (depth, d)

/-- `SkipValue`. -/
def skipped (d : Decoder) : Decoder :=
  match d.current.kind with
  | .lBrace => (walk .lBrace .rBrace 1 d.advanced).2
  | .lBracket => (walk .lBracket .rBracket 1 d.advanced).2
  | _ => d.advanced

def skipValue (room : Nat) : DecoderM Unit := do
  let d ← get
  record [.passedValue d.lex d.current room]
  modify skipped

structure KeyedElem where
  field : Bytes
  type : Nat
  key : FieldDescriptor
  entryName : Option Bytes

/-- A message body being decoded: the message so far, the fields and map keys it has bound, and
the member that set each oneof. -/
structure BodyState where
  message : Message
  bound : List Nat := []
  keys : List (Nat × Bytes) := []
  oneofs : List (Bytes × Bytes) := []

def checkOneof (fd : FieldDescriptor) (s : BodyState) : Except Bytes BodyState :=
  match fd.oneof with
  | none => .ok s
  | some name =>
    match s.oneofs.find? (·.1 = name) with
    | some (_, other) =>
      .error (text "oneof " ++ goQuote name ++ text ": field \"" ++ fd.name ++
        text "\" conflicts with already-set field \"" ++ other ++ text "\"")
    | none => .ok { s with oneofs := s.oneofs ++ [(name, fd.name)] }

def checkBindOnce (fd : FieldDescriptor) (s : BodyState) : Except Bytes BodyState :=
  if fd.repeated then .ok s
  else if s.bound.contains fd.index then
    .error (text "field \"" ++ fd.name ++ text "\" is already set")
  else .ok { s with bound := s.bound ++ [fd.index] }

def checkKeyBinding (ke : Option KeyedElem) (fd : FieldDescriptor) (isNull : Bool) :
    Except Bytes Unit :=
  match ke with
  | none => .ok ()
  | some ke =>
    match ke.entryName with
    | none => .ok ()
    | some name =>
      if fd = ke.key then
        if !isNull then .ok ()
        else
          .error (text "null on key field \"" ++ ke.key.name ++
            text "\" conflicts with entry name " ++ goQuote name ++ text " in keyed field \"" ++
            ke.field ++ text "\"")
      else
        match fd.oneof with
        | none => .ok ()
        | some oneof =>
          if ke.key.oneof ≠ some oneof then .ok ()
          else
            .error (text "field \"" ++ fd.name ++ text "\" shares oneof \"" ++ oneof ++
              text "\" with key field \"" ++ ke.key.name ++ text "\", which entry name " ++
              goQuote name ++ text " already set in keyed field \"" ++ ke.field ++ text "\"")

def admitField (ke : Option KeyedElem) (fd : FieldDescriptor) (isNull : Bool) (s : BodyState) :
    Except Bytes BodyState := do
  checkKeyBinding ke fd isNull
  let s ← checkOneof fd s
  checkBindOnce fd s

def wrapperStem (fd : FieldDescriptor) : Bytes :=
  match fd.cppType with
  | .bool => text "Bool"
  | .string => if fd.type = .bytes then text "Bytes" else text "String"
  | .float => text "Float"
  | .double => text "Double"
  | .int64 => text "Int64"
  | .uint32 => text "UInt32"
  | .uint64 => text "UInt64"
  | _ => text "Int32"

/-- `null` leaves a field unset, so it binds only where unset is a state the field has. -/
def checkNullable (fd : FieldDescriptor) : Except Bytes Unit :=
  let refused (what why : Bytes) : Except Bytes Unit :=
    .error (text "null is not allowed on " ++ what ++ text " field " ++ goQuote fd.name ++ why)
  if fd.isMap then refused (text "map") []
  else if fd.repeated then refused (text "repeated") []
  else if fd.isRequired then
    match fd.cppType with
    | .message _ => refused (text "required") (text ": it must be set")
    | _ => refused (text "scalar") (text ": the field is required, so it must be set")
  else if fd.pxfRequired then refused (text "required") (text ": a required field holds a value")
  else if !fd.hasPresence then
    refused (text "scalar") (text ": declare it optional, or as a wrapper type (google.protobuf." ++
      wrapperStem fd ++ text "Value or similar), to make it nullable")
  else .ok ()

/-- An explicit assignment to the key field of a keyed element: the empty string is no key, and a
named entry's must agree with its name. -/
def checkExplicitKey (ke : Option KeyedElem) (type : Nat) (fd : FieldDescriptor) (t : Token) :
    Except Bytes Unit :=
  match ke with
  | none => .ok ()
  | some ke =>
    if type = ke.type ∧ fd = ke.key ∧ t.kind = .string then
      if t.value.isEmpty then
        .error (text "explicit empty-string assignment to key field \"" ++ ke.key.name ++
          text "\" of keyed field \"" ++ ke.field ++
          text "\": the empty string is not a valid key")
      else
        match ke.entryName with
        | none => .ok ()
        | some name =>
          if t.value = name then .ok ()
          else
            .error (text "key field \"" ++ ke.key.name ++ text "\" = " ++ goQuote t.value ++
              text " conflicts with entry name " ++ goQuote name ++
              text " in keyed field \"" ++ ke.field ++ text "\"")
    else .ok ()

def checkRepeatedCount (limits : Limits) (msg : Message) (fd : FieldDescriptor) :
    Except Bytes Unit :=
  if limits.maxRepeated ≤ (msg.slot fd).length then
    .error ((if fd.isMap then text "map" else text "repeated") ++ text " field \"" ++ fd.name ++
      text "\" exceeds MaxRepeatedCount=" ++ decimal limits.maxRepeated)
  else .ok ()

def quotedNameUnkeyed (name : Bytes) : Bytes :=
  text "quoted entry name " ++ goQuote name ++
    text " is only valid inside a keyed repeated field's block (draft -01 §3.13)"

def msgValueForms (d : Descriptor) : Bytes :=
  if d.isTimestamp then text "a timestamp literal or '\x7b'"
  else if d.isDuration then text "a duration literal or '\x7b'"
  else if d.isBigInt then text "an integer literal or '\x7b'"
  else if d.isDecimal || d.isBigFloat then text "a numeric literal or '\x7b'"
  else if d.isSecret then text "a string literal or '\x7b'"
  else text "'\x7b'"

structure Deeper where
  room : Nat
  body : Nat → Option KeyedElem → Message → DecoderM Message
  element : FieldDescriptor → Message → DecoderM Message
  mapEntry : FieldDescriptor → BodyState → DecoderM BodyState
  keyedEntry : FieldDescriptor → Nat → FieldDescriptor → List Bytes × Message →
    DecoderM (List Bytes × Message)

def roomOf : Option Deeper → Nat
  | none => 0
  | some deeper => deeper.room + 1

def descend (ctx : Context) (inner : Option Deeper) : DecoderM Deeper := do
  let d ← get
  match inner with
  | none => fail d.current.pos (depthExceeded ctx.limits.maxDepth)
  | some deeper => pure deeper

def consumeScalar (ctx : Context) (fd named : FieldDescriptor) (repeated : Bool) (msg : Message) :
    DecoderM Message := do
  let d ← get
  let value ← orFail d.current.pos (scalarOf ctx.host base64DecodeLenient fd named d.current)
  advance
  pure (msg.write fd repeated value)

def takeLiteral : Option (Message × List Event) → DecoderM (Option Message)
  | none => pure none
  | some (sub, events) => do
    record events
    advance
    pure (some sub)

def decodeLiteral (ctx : Context) (type : Nat) (fd : FieldDescriptor) (sub : Message) :
    DecoderM (Option Message) := do
  let d ← get
  let found ← orFail d.current.pos
    (literalOf ctx.host ctx.limits base64DecodeLenient (ctx.pool.message type) fd sub d.current)
  takeLiteral found

def decodeBody (ctx : Context) (inner : Option Deeper) (type : Nat) (ke : Option KeyedElem)
    (sub : Message) : DecoderM Message := do
  let deeper ← descend ctx inner
  deeper.body type ke sub

def packAny (ctx : Context) (anyType type : Nat) (url : Bytes) (sub packed : Message) : Message :=
  let d := ctx.pool.message anyType
  (sub.setNamed d "type_url" (.bytes url)).setNamed d "value"
    (.bytes (ctx.host.serialize type packed))

def decodeAnyBody (ctx : Context) (inner : Option Deeper) (anyType : Nat) (ke : Option KeyedElem)
    (sub : Message) (url : Bytes) (pos : Position) : DecoderM Message := do
  match ctx.resolver with
  | none =>
    fail pos (text "cannot resolve Any type " ++ goQuote url ++
      text ": no TypeResolver (UnmarshalOptions::type_resolver)")
  | some resolve =>
    match resolve url with
    | none => fail pos (text "cannot resolve Any type " ++ goQuote url)
    | some type => do
      let packed ← decodeBody ctx inner type ke (ctx.pool.message type).empty
      pure (packAny ctx anyType type url sub packed)

def decodeAnyUrl (ctx : Context) (inner : Option Deeper) (anyType : Nat) (ke : Option KeyedElem)
    (sub : Message) : DecoderM Message := do
  let d ← get
  if d.current.kind ≠ .string then
    fail d.current.pos (text "expected a string type URL after @type =, got " ++ d.tokenErrMsg)
  else do
    advance
    decodeAnyBody ctx inner anyType ke sub d.current.value d.current.pos

def decodeAnyInner (ctx : Context) (inner : Option Deeper) (anyType : Nat) (ke : Option KeyedElem)
    (sub : Message) : DecoderM Message := do
  advance
  let d ← get
  if d.current.kind ≠ .equals then
    fail d.current.pos (text "expected '=' after @type, got " ++ d.tokenErrMsg)
  else do
    advance
    decodeAnyUrl ctx inner anyType ke sub

/-- A block where a message of the given type stands, its `\x7b` consumed. A block bound to an
`Any` that opens with a type entry is a body of the type it names. -/
def decodeBlock (ctx : Context) (inner : Option Deeper) (type : Nat) (ke : Option KeyedElem)
    (sub : Message) : DecoderM Message := do
  let d ← get
  if d.current.kind = .atType && (ctx.pool.message type).isAny then
    decodeAnyInner ctx inner type ke sub
  else decodeBody ctx inner type ke sub

def decodeMessage (ctx : Context) (inner : Option Deeper) (type : Nat) (fd : FieldDescriptor)
    (place : Bytes) (ke : Option KeyedElem) (sub : Message) : DecoderM Message := do
  let found ← decodeLiteral ctx type fd sub
  match found with
  | some sub => pure sub
  | none => do
    let d ← get
    if d.current.kind ≠ .lBrace then
      fail d.current.pos (text "expected " ++ msgValueForms (ctx.pool.message type) ++
        text " for " ++ place ++ text ", got " ++ d.tokenErrMsg)
    else do
      advance
      decodeBlock ctx inner type ke sub

def listedElem (ctx : Context) (type : Nat) (fd : FieldDescriptor) : Option KeyedElem :=
  (ctx.pool.keyField fd).map fun key => ⟨fd.name, type, key, none⟩

def decodeElement (ctx : Context) (inner : Option Deeper) (fd : FieldDescriptor) (msg : Message) :
    DecoderM Message := do
  match fd.cppType with
  | .message type => do
    let sub ← decodeMessage ctx inner type fd (text "repeated message element")
      (listedElem ctx type fd) (ctx.pool.message type).empty
    pure (msg.add fd (.message sub))
  | _ => consumeScalar ctx fd fd true msg

def checkElement (ctx : Context) (fd : FieldDescriptor) (msg : Message) : DecoderM Unit := do
  checkLegal
  let d ← get
  orFail d.current.pos (checkRepeatedCount ctx.limits msg fd)
  if d.current.kind = .null then
    fail d.current.pos (text "null is not allowed in repeated field \"" ++ fd.name ++ text "\"")
  else pure ()

def listTurn (ctx : Context) (deeper : Deeper) (fd : FieldDescriptor) (msg : Message) :
    DecoderM (Turn Message Message) := do
  let d ← get
  if d.current.kind = .rBracket || d.current.kind = .eof then pure (.done msg)
  else do
    checkElement ctx fd msg
    let msg ← deeper.element fd msg
    let d ← get
    advanceWhen (d.current.kind = .comma)
    pure (.next msg)

def closeWith (closer : TokenKind) (msg : Bytes) : DecoderM Unit := do
  let d ← get
  if d.current.kind ≠ closer then fail d.current.pos (msg ++ tokenKindName d.current.kind)
  else advance

def listElements (ctx : Context) (deeper : Deeper) (fd : FieldDescriptor) (msg : Message) :
    DecoderM Message := do
  let msg ← repeatWhile remaining (listTurn ctx deeper fd) msg
  closeWith .rBracket (text "expected ']', got ")
  pure msg

def decodeListInline (ctx : Context) (inner : Option Deeper) (fd : FieldDescriptor)
    (msg : Message) : DecoderM Message := do
  let d ← get
  if d.current.kind ≠ .lBracket then
    fail d.current.pos (text "expected '[' for repeated field \"" ++ fd.name ++ text "\"")
  else do
    let deeper ← descend ctx inner
    advance
    listElements ctx deeper fd msg

def mapKeyText : Scalar → Bytes
  | .int value => signedDecimal value
  | .bool value => if value then text "true" else text "false"
  | .bytes value => goQuote value
  | _ => []

def integerKey (what : String) (parse : Bytes → Option Int) (key : Bytes) : Except Bytes Scalar :=
  match parse key with
  | none => .error (text "invalid " ++ text what ++ text " map key: " ++ key)
  | some value => .ok (.int value)

def boolKey (key : Bytes) (kind : TokenKind) : Option Bool :=
  match kind with
  | .bool => some (key = text "true")
  | .string =>
    if key = text "true" then some true else if key = text "false" then some false else none
  | .int => if key = text "1" then some true else if key = text "0" then some false else none
  | _ => none

/-- `SetMapKey`: the key as a value of the map's key type. -/
def mapKeyOf (mapFd keyFd : FieldDescriptor) (key : Bytes) (kind : TokenKind) :
    Except Bytes Scalar :=
  match keyFd.cppType with
  | .string =>
    if kind = .bool then
      .error (text "invalid string map key " ++ key ++ text " for field \"" ++ mapFd.name ++
        text "\": the keyword " ++ key ++ text " is a bool key; write " ++ goQuote key ++
        text " for the string")
    else if !isValidUTF8 key then .error (text "invalid UTF-8 in string map key")
    else .ok (.bytes key)
  | .int32 => integerKey "int32" parseInt32 key
  | .int64 => integerKey "int64" parseInt64 key
  | .uint32 => integerKey "uint32" parseUInt32 key
  | .uint64 => integerKey "uint64" parseUInt64 key
  | .bool =>
    match boolKey key kind with
    | some value => .ok (.bool value)
    | none =>
      .error (text "invalid bool map key " ++ (if kind = .string then goQuote key else key) ++
        text " for field \"" ++ mapFd.name ++
        text "\": a bool key is true, false, 0, 1, \"true\" or \"false\"")
  | _ => .error (text "unsupported map key kind")

def bindKey (fd : FieldDescriptor) (key : Scalar) (s : BodyState) : Except Bytes BodyState :=
  if s.keys.contains (fd.index, mapKeyText key) then
    .error (text "map field \"" ++ fd.name ++ text "\": key " ++ mapKeyText key ++
      text " is already set")
  else .ok { s with keys := s.keys ++ [(fd.index, mapKeyText key)] }

def decodeMapKey (fd keyFd : FieldDescriptor) (s : BodyState) : DecoderM (Scalar × BodyState) := do
  let d ← get
  if !d.current.kind.startsKey then
    fail d.current.pos (text "expected map key, got " ++ d.tokenErrMsg)
  else if !d.current.prec.isEmpty then
    fail d.current.pos (text "map field \"" ++ fd.name ++
      text "\": a key cannot carry a precision suffix (p" ++ clip d.current.prec ++ text ")")
  else do
    advance
    let e ← get
    if e.current.kind = .colon then do
      advance
      let key ← orFail d.current.pos (mapKeyOf fd keyFd d.current.value d.current.kind)
      let s ← orFail d.current.pos (bindKey fd key s)
      pure (key, s)
    else if e.current.kind = .equals then
      fail e.current.pos (text "unexpected '=' in map, use ':' for map entries")
    else fail e.current.pos (text "expected ':' after map key, got " ++ tokenKindName e.current.kind)

def decodeMapValue (ctx : Context) (inner : Option Deeper) (fd valueFd : FieldDescriptor)
    (entry : Message) : DecoderM Message := do
  let d ← get
  if d.current.kind = .null then
    fail d.current.pos (text "null is not allowed as map value in field \"" ++ fd.name ++ text "\"")
  else do
    checkLegal
    match valueFd.cppType with
    | .message type => do
      let sub ← decodeMessage ctx inner type fd (text "map message value") none
        (ctx.pool.message type).empty
      pure (entry.put valueFd sub)
    | _ => consumeScalar ctx valueFd valueFd false entry

def decodeMapPair (ctx : Context) (inner : Option Deeper) (fd keyFd valueFd : FieldDescriptor)
    (fresh : Message) (s : BodyState) : DecoderM BodyState := do
  checkLegal
  let d ← get
  orFail d.current.pos (checkRepeatedCount ctx.limits s.message fd)
  let read ← decodeMapKey fd keyFd s
  let entry ← decodeMapValue ctx inner fd valueFd (fresh.setScalar keyFd read.1)
  pure { read.2 with message := read.2.message.add fd (.message entry) }

def mapParts (ctx : Context) (fd : FieldDescriptor) :
    Option (FieldDescriptor × FieldDescriptor × Message) :=
  match fd.cppType with
  | .message type =>
    match (ctx.pool.message type).mapKey, (ctx.pool.message type).mapValue with
    | some keyFd, some valueFd => some (keyFd, valueFd, (ctx.pool.message type).empty)
    | _, _ => none
  | _ => none

def decodeMapEntry (ctx : Context) (inner : Option Deeper) (fd : FieldDescriptor)
    (s : BodyState) : DecoderM BodyState :=
  match mapParts ctx fd with
  | some (keyFd, valueFd, fresh) => decodeMapPair ctx inner fd keyFd valueFd fresh s
  | none => throw default

def mapTurn (deeper : Deeper) (fd : FieldDescriptor) (s : BodyState) :
    DecoderM (Turn BodyState BodyState) := do
  let d ← get
  if d.current.kind = .rBrace || d.current.kind = .eof then pure (.done s)
  else .next <$> deeper.mapEntry fd s

def mapEntries (deeper : Deeper) (fd : FieldDescriptor) (s : BodyState) : DecoderM BodyState := do
  let s ← repeatWhile remaining (mapTurn deeper fd) s
  closeWith .rBrace (text "expected '\x7d', got ")
  pure s

def decodeMapInline (ctx : Context) (inner : Option Deeper) (fd : FieldDescriptor)
    (s : BodyState) : DecoderM BodyState := do
  let d ← get
  if d.current.kind ≠ .lBrace then
    fail d.current.pos (text "expected '\x7b' for map field \"" ++ fd.name ++ text "\"")
  else do
    let deeper ← descend ctx inner
    advance
    mapEntries deeper fd s

def checkEntryName (fd : FieldDescriptor) (seen : List Bytes) (name : Bytes) :
    Except Bytes Unit :=
  if name.isEmpty then
    .error (text "empty entry name in keyed field \"" ++ fd.name ++
      text "\": the empty string is not a valid key")
  else if !isValidUTF8 name then
    .error (text "invalid UTF-8 in entry name for keyed field \"" ++ fd.name ++ text "\"")
  else if seen.contains name then
    .error (text "duplicate key " ++ goQuote name ++ text " in keyed field \"" ++ fd.name ++
      text "\"")
  else .ok ()

def openKeyedEntry (fd : FieldDescriptor) (name : Bytes) : DecoderM Unit := do
  let d ← get
  if d.current.kind = .lBrace then advance
  else if d.current.kind = .equals then do
    advance
    let e ← get
    if e.current.kind ≠ .lBrace then
      fail e.current.pos (text "keyed entry " ++ goQuote name ++ text " of field \"" ++ fd.name ++
        text "\" must have a block value ('\x7b ... \x7d'): the element type is a message")
    else advance
  else
    fail d.current.pos (text "expected '\x7b' or '=' after entry name " ++ goQuote name ++
      text " in keyed field \"" ++ fd.name ++ text "\", got " ++ tokenKindName d.current.kind)

def decodeKeyedEntry (ctx : Context) (inner : Option Deeper) (fd : FieldDescriptor) (type : Nat)
    (key : FieldDescriptor) (read : List Bytes × Message) : DecoderM (List Bytes × Message) := do
  let d ← get
  if d.current.kind ≠ .ident && d.current.kind ≠ .string then
    fail d.current.pos (text "expected entry name (identifier or string) in keyed field \"" ++
      fd.name ++ text "\", got " ++ tokenKindName d.current.kind)
  else do
    orFail d.current.pos (checkEntryName fd read.1 d.current.value)
    advance
    openKeyedEntry fd d.current.value
    let e ← get
    orFail e.current.pos (checkRepeatedCount ctx.limits read.2 fd)
    let sub ← decodeBody ctx inner type (some ⟨fd.name, type, key, some d.current.value⟩)
      ((ctx.pool.message type).empty.setScalar key (.bytes d.current.value))
    pure (read.1 ++ [d.current.value], read.2.add fd (.message sub))

def keyedTurn (deeper : Deeper) (fd : FieldDescriptor) (type : Nat) (key : FieldDescriptor)
    (read : List Bytes × Message) : DecoderM (Turn (List Bytes × Message) Message) := do
  checkLegal
  let d ← get
  if d.current.kind = .rBrace then pure (.done read.2)
  else if d.current.kind = .eof then
    fail d.current.pos (text "expected '\x7d' to close keyed field \"" ++ fd.name ++
      text "\", got EOF")
  else .next <$> deeper.keyedEntry fd type key read

def keyedEntries (deeper : Deeper) (fd : FieldDescriptor) (type : Nat) (key : FieldDescriptor)
    (msg : Message) : DecoderM Message := do
  let msg ← repeatWhile remaining (keyedTurn deeper fd type key) ([], msg)
  advance
  pure msg

def decodeKeyedBlockBody (ctx : Context) (inner : Option Deeper) (fd : FieldDescriptor)
    (type : Nat) (key : FieldDescriptor) (msg : Message) : DecoderM Message := do
  let deeper ← descend ctx inner
  keyedEntries deeper fd type key msg

def decodeRepeated (ctx : Context) (inner : Option Deeper) (fd : FieldDescriptor)
    (msg : Message) : DecoderM Message := do
  let d ← get
  if d.current.kind = .lBrace then
    match fd.cppType, ctx.pool.keyField fd with
    | .message type, some key => do
      advance
      decodeKeyedBlockBody ctx inner fd type key msg
    | _, _ => decodeListInline ctx inner fd msg
  else decodeListInline ctx inner fd msg

def decodeSingular (ctx : Context) (inner : Option Deeper) (fd : FieldDescriptor)
    (msg : Message) : DecoderM Message :=
  match fd.cppType with
  | .message type => do
    let sub ← decodeMessage ctx inner type fd (text "message field \"" ++ fd.name ++ text "\"")
      none (msg.mutable fd (ctx.pool.message type).empty)
    pure (msg.put fd sub)
  | _ => consumeScalar ctx fd fd false msg

def BodyState.withMessage (s : BodyState) (message : Message) : BodyState := { s with message }

def decodeFieldValue (ctx : Context) (inner : Option Deeper) (fd : FieldDescriptor)
    (s : BodyState) : DecoderM BodyState := do
  checkLegal
  if fd.isMap then decodeMapInline ctx inner fd s
  else if fd.repeated then s.withMessage <$> decodeRepeated ctx inner fd s.message
  else s.withMessage <$> decodeSingular ctx inner fd s.message

def unknownField (d : Descriptor) (key : Bytes) : Bytes :=
  text "unknown field " ++ goQuote key ++ text " in " ++ d.fullName

def decodeBinding (ctx : Context) (inner : Option Deeper) (type : Nat) (ke : Option KeyedElem)
    (fd : FieldDescriptor) (s : BodyState) : DecoderM BodyState := do
  let d ← get
  if d.current.kind = .null then do
    orFail d.current.pos (checkNullable fd)
    advance
    pure s
  else do
    orFail d.current.pos (checkExplicitKey ke type fd d.current)
    decodeFieldValue ctx inner fd s

def decodeAssignment (ctx : Context) (inner : Option Deeper) (type : Nat) (ke : Option KeyedElem)
    (key : Key) (s : BodyState) : DecoderM BodyState := do
  if key.mapOnly then
    fail key.pos (text "field assignment with '=' requires an identifier or string key, got " ++
      tokenKindName key.kind ++ text " (" ++ goQuote key.written ++
      text "); use ':' for map entries")
  else do
    advance
    if key.quoted then fail key.pos (quotedNameUnkeyed key.value)
    else
      match (ctx.pool.message type).findFieldByName key.value with
      | none =>
        if ctx.discardUnknown then do
          skipValue (roomOf inner)
          pure s
        else fail key.pos (unknownField (ctx.pool.message type) key.value)
      | some fd => do
        let d ← get
        let s ← orFail key.pos (admitField ke fd (d.current.kind = .null) s)
        decodeBinding ctx inner type ke fd s

def decodeFieldBlock (ctx : Context) (inner : Option Deeper) (ke : Option KeyedElem) (key : Key)
    (fd : FieldDescriptor) (s : BodyState) : DecoderM BodyState :=
  match fd.cppType with
  | .message sub =>
    if fd.isMap then
      fail key.pos (text "map field " ++ goQuote key.value ++
        text " must use assignment syntax: " ++ key.value ++ text " = \x7b ... \x7d")
    else if fd.repeated then
      match ctx.pool.keyField fd with
      | some keyFd =>
        s.withMessage <$> decodeKeyedBlockBody ctx inner fd sub keyFd s.message
      | none => do
        let d ← get
        if d.current.kind = .string then
          fail d.current.pos (quotedNameUnkeyed d.current.value)
        else
          fail key.pos (text "repeated field " ++ goQuote key.value ++
            text " must use list syntax: " ++ key.value ++ text " = [...]")
    else do
      let s ← orFail key.pos (admitField ke fd false s)
      let found ← decodeBlock ctx inner sub none
        (s.message.mutable fd (ctx.pool.message sub).empty)
      pure (s.withMessage (s.message.put fd found))
  | _ =>
    fail key.pos (text "field " ++ goQuote key.value ++
      text " is not a message type, cannot use block syntax")

def decodeBlockTail (ctx : Context) (inner : Option Deeper) (type : Nat) (ke : Option KeyedElem)
    (key : Key) (s : BodyState) : DecoderM BodyState := do
  if key.mapOnly then
    fail key.pos (text "submessage block requires an identifier or string key, got " ++
      tokenKindName key.kind ++ text " (" ++ goQuote key.written ++ text ")")
  else if key.quoted then do
    advance
    fail key.pos (quotedNameUnkeyed key.value)
  else
    match (ctx.pool.message type).findFieldByName key.value with
    | none =>
      if ctx.discardUnknown then do
        -- `SkipBraced` from past the brace is `SkipValue` from the brace.
        skipValue (roomOf inner)
        pure s
      else do
        advance
        fail key.pos (unknownField (ctx.pool.message type) key.value)
    | some fd => do
      advance
      decodeFieldBlock ctx inner ke key fd s

def decodeTail (ctx : Context) (inner : Option Deeper) (type : Nat) (inBlock : Bool)
    (ke : Option KeyedElem) (key : Key) (s : BodyState) : DecoderM BodyState := do
  let d ← get
  match d.current.kind with
  | .equals => decodeAssignment ctx inner type ke key s
  | .lBrace => decodeBlockTail ctx inner type ke key s
  | .colon =>
    if !inBlock then
      fail key.pos (text "map entry (':' form) is only allowed inside a '\x7b … \x7d' block; " ++
        text "use '=' for top-level field assignments")
    else
      fail key.pos (text "unexpected ':' in message context, use '=' for field assignments")
  | kind =>
    fail d.current.pos (text "expected '=', ':', or '\x7b' after " ++ goQuote key.value ++
      text ", got " ++ tokenKindName kind)

def decodeEntry (ctx : Context) (inner : Option Deeper) (type : Nat) (inBlock : Bool)
    (ke : Option KeyedElem) (s : BodyState) : DecoderM BodyState := do
  let d ← get
  if d.current.kind = .atType then fail d.current.pos typeEntryMisplaced
  else if !d.current.kind.startsKey then
    fail d.current.pos (text "expected identifier, string, integer, or bool, got " ++ d.tokenErrMsg)
  else do
    advance
    decodeTail ctx inner type inBlock ke
      ⟨d.current.pos, d.current.kind, d.current.value, d.current.prec, []⟩ s

def fieldTurn (ctx : Context) (inner : Option Deeper) (type : Nat) (inBlock : Bool)
    (ke : Option KeyedElem) (s : BodyState) : DecoderM (Turn BodyState Message) := do
  let d ← get
  if (inBlock && d.current.kind = .rBrace) || d.current.kind = .eof then pure (.done s.message)
  else .next <$> decodeEntry ctx inner type inBlock ke s

def closeBlock : DecoderM Unit := do
  let d ← get
  if d.current.kind = .eof then fail d.current.pos (text "expected '\x7d', got EOF")
  else advance

/-- `DecodeFieldsBody` of a block, its `\x7b` consumed. -/
def decodeBlockBody (ctx : Context) (inner : Option Deeper) (type : Nat) (ke : Option KeyedElem)
    (msg : Message) : DecoderM Message := do
  let msg ← repeatWhile remaining (fieldTurn ctx inner type true ke) { message := msg }
  closeBlock
  pure msg

/-- `DecodeFieldsBody` of the root. -/
def decodeRoot (ctx : Context) (inner : Option Deeper) (type : Nat) (msg : Message) :
    DecoderM Message :=
  repeatWhile remaining (fieldTurn ctx inner type false none) { message := msg }

def decodeNested (ctx : Context) : Nat → Option Deeper
  | 0 => none
  | room + 1 =>
    let inner := decodeNested ctx room
    some ⟨room, decodeBlockBody ctx inner, decodeElement ctx inner, decodeMapEntry ctx inner,
      decodeKeyedEntry ctx inner⟩

end Decoder

end Protowire.Pxf
