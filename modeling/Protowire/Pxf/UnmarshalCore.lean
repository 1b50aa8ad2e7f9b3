import Protowire.Pxf.DecoderCore

/-!
Directives as the decoder reads them, and `Unmarshal`.
-/

namespace Protowire.Pxf

open Support

namespace Decoder

structure Head where
  sawType : Bool := false
  firstTable : Option Position := none
  directives : List Directive := []
  datasets : List DatasetDirective := []
  protos : List ProtoDirective := []

def datasetBesideType : Bytes :=
  text "@dataset directive cannot coexist with @type (draft §3.4.4)"

def consumeTypeName : DecoderM Unit := do
  let d ← get
  if d.current.kind = .ident then advance
  else if d.current.kind = .string then do
    record [.passedTypeName d.current]
    advance
  else fail d.current.pos (text "expected type name after @type, got " ++ d.tokenErrMsg)

def consumeType (head : Head) : DecoderM Head := do
  let d ← get
  if head.firstTable.isSome then fail d.current.pos datasetBesideType
  else do
    advance
    consumeTypeName
    pure { head with sawType := true }

def prefixTurn (read : List Bytes) : DecoderM (Turn (List Bytes) (List Bytes)) := do
  let d ← get
  if d.current.kind = .ident ∧ ¬(d.peekKind = .equals ∨ d.peekKind = .colon) then do
    advance
    pure (.next (read ++ [d.current.value]))
  else pure (.done read)

def consumeBlock (room : Nat) (dir : Directive) : DecoderM Directive := fun d =>
  if d.current.kind = .lBrace then
    match walk .lBrace .rBrace 1 d.advanced with
    | (some close, after) =>
      .ok { dir with
          body := betweenBraces d.lex.input d.current.pos.offset close, hasBody := true }
        { after with trace := after.trace ++ [.passedValue d.lex d.current room] }
    | (none, after) =>
      .error ⟨after.current.pos.line, after.current.pos.column,
        text "unmatched '\x7b' in directive block"⟩ after
  else .ok dir d

def consumeDirective (room : Nat) (head : Head) : DecoderM Head := do
  let d ← get
  if isFutureReservedDirective d.current.value then
    fail d.current.pos (text "@" ++ d.current.value ++
      text " is a spec-reserved directive name with no v1 semantics (draft §3.4.6)")
  else do
    advance
    let prefixes ← repeatWhile remaining prefixTurn []
    let dir ← consumeBlock room
      ⟨d.current.pos, d.current.value, prefixes, directiveType prefixes, [], false, []⟩
    pure { head with directives := head.directives ++ [dir] }

def parseDatasetAt (maxDepth : Nat) : DecoderM DatasetDirective := fun d =>
  match parseTableDirective (parseNested maxDepth)
      { lex := d.lex, current := d.current, maxDepth, forDecoder := true } with
  | .ok read p => .ok read.1 { d with lex := p.lex, current := p.current }
  | .error failure p => .error failure { d with lex := p.lex, current := p.current }

def consumeDataset (maxDepth : Nat) (head : Head) : DecoderM Head := do
  let d ← get
  if head.sawType then fail d.current.pos datasetBesideType
  else do
    let table ← parseDatasetAt maxDepth
    pure { head with
      firstTable := some (head.firstTable.getD d.current.pos)
      datasets := head.datasets ++ [table] }

def captureBraces (pos : Position) (label : Bytes) : DecoderM Bytes := fun d =>
  match walk .lBrace .rBrace 1 d.advanced with
  | (some close, after) =>
    .ok (betweenBraces d.lex.input d.current.pos.offset close)
      { after with trace := after.trace ++ [.passedProto d.lex d.current close] }
  | (none, after) => .error ⟨pos.line, pos.column, label ++ text ": unmatched '\x7b'"⟩ after

def consumeProtoNamed (pos : Position) (name : Bytes) : DecoderM ProtoDirective := do
  let d ← get
  if d.current.kind ≠ .lBrace then
    fail d.current.pos (text "expected '\x7b' after @proto " ++ name ++ text ", got " ++
      d.tokenErrMsg)
  else do
    let body ← captureBraces pos (text "@proto " ++ name)
    pure ⟨pos, .named, name, body, []⟩

def consumeProtoBody (pos : Position) : DecoderM ProtoDirective := do
  let d ← get
  match d.current.kind with
  | .lBrace => do
    let body ← captureBraces pos (text "@proto (anonymous form)")
    pure ⟨pos, .anonymous, [], body, []⟩
  | .ident => do
    advance
    consumeProtoNamed pos d.current.value
  | .string => do
    advance
    pure ⟨pos, .source, [], d.current.value, []⟩
  | .bytes =>
    match base64DecodeProto d.current.value with
    | .error offset =>
      fail d.current.pos
        (text "@proto descriptor body: invalid base64: illegal base64 data at input byte " ++
          decimal offset)
    | .ok decoded => do
      advance
      pure ⟨pos, .descriptor, [], decoded, []⟩
  | _ =>
    fail d.current.pos
      (text "expected '\x7b', dotted identifier, triple-quoted string, or b\"...\" after @proto, got "
        ++ d.tokenErrMsg)

def consumeProto (head : Head) : DecoderM Head := do
  let d ← get
  advance
  let proto ← consumeProtoBody d.current.pos
  pure { head with protos := head.protos ++ [proto] }

def directiveTurn (maxDepth : Nat) (head : Head) : DecoderM (Turn Head Head) := do
  let d ← get
  match d.current.kind with
  | .atType => .next <$> consumeType head
  | .atDirective => .next <$> consumeDirective maxDepth head
  | .atDataset => .next <$> consumeDataset maxDepth head
  | .atProto => .next <$> consumeProto head
  | _ => pure (.done head)

def checkStandalone (head : Head) : DecoderM Unit := do
  let d ← get
  match head.firstTable with
  | none => pure ()
  | some pos =>
    if d.current.kind = .eof then pure ()
    else
      fail pos (text "@dataset directive cannot coexist with top-level field entries " ++
        text "(draft §3.4.4)")

def consumeDirectives (maxDepth : Nat) : DecoderM Head := do
  let head ← repeatWhile remaining (directiveTurn maxDepth) {}
  checkStandalone head
  pure head

def decodeDocument (ctx : Context) (type : Nat) : DecoderM (Head × Message) := do
  let head ← consumeDirectives ctx.limits.maxDepth
  let msg ← decodeRoot ctx (decodeNested ctx ctx.limits.maxDepth) type (ctx.pool.message type).empty
  pure (head, msg)

def start (input : Bytes) (maxBytesLiteral : Nat) : Decoder :=
  advanced { lex := .ofPiece input {} maxBytesLiteral }

end Decoder

def contextOf (pool : Pool) (host : Host) (opts : UnmarshalOptions) : Context where
  pool := pool
  host := host
  resolver := opts.resolver
  discardUnknown := opts.discardUnknown
  limits := resolveLimits opts

/-- `Run`: the decoder over a whole input, into a new message of the given type. -/
def runDecoder (pool : Pool) (host : Host) (opts : UnmarshalOptions) (type : Nat) (input : Bytes) :
    EStateM.Result Status Decoder (Decoder.Head × Message) :=
  let ctx := contextOf pool host opts
  if ctx.limits.maxMessageSize < input.length then
    .error ⟨1, 1, tooLarge input.length ctx.limits.maxMessageSize⟩ { lex := { input } }
  else Decoder.decodeDocument ctx type (Decoder.start input ctx.limits.maxBytesLiteral)

def checkSchema (pool : Pool) (opts : UnmarshalOptions) (type : Nat) : Option Status :=
  if opts.skipValidate then none else (pool.schemaProblem type).map fun msg => ⟨0, 0, msg⟩

/-- `Unmarshal`, with what the decoder noted on the way. -/
def unmarshalTraced (pool : Pool) (host : Host) (opts : UnmarshalOptions) (type : Nat)
    (input : Bytes) : Except Status (Message × List Event) :=
  match checkSchema pool opts type with
  | some problem => .error problem
  | none =>
    match runDecoder pool host opts type input with
    | .ok read d => .ok (read.2, d.trace)
    | .error failure _ => .error failure

def unmarshal (pool : Pool) (host : Host) (opts : UnmarshalOptions) (type : Nat) (input : Bytes) :
    Except Status Message :=
  (unmarshalTraced pool host opts type input).map (·.1)

def unmarshalEvents (pool : Pool) (host : Host) (opts : UnmarshalOptions) (type : Nat)
    (input : Bytes) : List Event :=
  match unmarshalTraced pool host opts type input with
  | .ok read => read.2
  | .error _ => []

end Protowire.Pxf
