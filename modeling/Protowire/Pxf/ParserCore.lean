import Protowire.Pxf.Ast
import Protowire.Pxf.LexerCore
import Protowire.Support.Stateful

/-!
The recursive descent over entries and values. One parser serves both modes: strictly it
stops at the first error, tolerantly it records the error and recovers at the nearest entry
or block boundary.
-/

namespace Protowire.Pxf

open Support

def typeEntryMisplaced : Bytes :=
  text "@type is allowed only as the first entry of a block bound to google.protobuf.Any " ++
    text "(draft -01 \"Any Blocks\")"

def clip (s : Bytes) : Bytes := if s.length ≤ 24 then s else s.take 24 ++ text "…"

def writtenKey (key prec : Bytes) : Bytes :=
  if prec.isEmpty then key else key ++ text "p" ++ clip prec

structure Significant where
  token : Token
  lex : Lexer
  comments : List Comment
  errors : List Error

def significantTurn (read : Significant) : Turn Significant Significant :=
  let (token, lex, errors) := read.lex.next
  let read := { read with token, lex, errors := read.errors ++ errors }
  if token.kind = .newline then .next read
  else if token.kind = .comment then
    .next { read with comments := read.comments ++ [⟨token.pos, token.value⟩] }
  else .done read

def significant (lex : Lexer) : Significant :=
  loop (fun read : Significant => read.lex.rest.length) significantTurn id ⟨{}, lex, [], []⟩

/-- The tokens an entry's key may be. Integers and bools are keys of map entries only, which the
entry's tail tells. -/
def TokenKind.startsKey : TokenKind → Bool
  | .ident | .string | .int | .bool => true
  | _ => false

structure Parser where
  lex : Lexer
  current : Token := {}
  comments : List Comment := []
  maxDepth : Nat := maxNestingDepth
  forDecoder : Bool := false
  tolerant : Bool := false
  errs : List Error := []
  errPos : Position := {}
  prevEnd : Position := {}

abbrev ParserM := EStateM Status Parser

namespace Parser

def remaining (p : Parser) : Nat := p.lex.rest.length + if p.current.kind = .eof then 0 else 1

def advanced (p : Parser) : Parser :=
  let read := significant p.lex
  { p with
    prevEnd := p.lex.currentPos, current := read.token, lex := read.lex,
    comments := p.comments ++ read.comments, errs := p.errs ++ read.errors }

def peekKind (p : Parser) : TokenKind := p.advanced.current.kind

def tokenEnd (p : Parser) : Position := p.lex.currentPos

def tokenErrMsg (p : Parser) : Bytes :=
  if p.current.kind = .illegal then p.current.value
  else tokenKindName p.current.kind ++ text " (" ++ goQuote p.current.value ++ text ")"

def datasetTokenMsg (p : Parser) : Bytes :=
  if p.forDecoder then p.tokenErrMsg else tokenKindName p.current.kind

def currentStartsEntry (p : Parser) : Bool :=
  p.current.kind.startsKey &&
    (p.peekKind = .equals || p.peekKind = .colon || p.peekKind = .lBrace)

/-- A `)` is in no value, so a tolerant parser reads one inside a list or block as the end of
the dataset row around it. -/
def tolerantRowClose (p : Parser) : Bool := p.tolerant && p.current.kind = .rParen

end Parser

def advance : ParserM Unit := modify Parser.advanced

def flushComments : ParserM (List Comment) := fun p => .ok p.comments { p with comments := [] }

def restoreComments (comments : List Comment) : ParserM Unit :=
  modify fun p => { p with comments := comments ++ p.comments }

def takeTrailingComment (stop : Position) : ParserM Bytes := fun p =>
  match p.comments with
  | [] => .ok [] p
  | first :: later =>
    if first.pos.line ≠ stop.line ∨ first.pos.offset < stop.offset then .ok [] p
    else .ok first.text { p with comments := later }

def err {α : Type} (pos : Position) (msg : Bytes) : ParserM α := fun p =>
  .error ⟨pos.line, pos.column, msg⟩ { p with errPos := pos }

def report (pos : Position) (msg : Bytes) : ParserM Unit :=
  modify fun p => { p with errs := p.errs ++ [⟨pos, msg⟩] }

def soft (pos : Position) (msg : Bytes) : ParserM Unit := do
  if (← get).tolerant then report pos msg else err pos msg

def softWhen (condition : Bool) (pos : Position) (msg : Bytes) : ParserM Unit :=
  if condition then soft pos msg else pure ()

def advanceWhen (condition : Bool) : ParserM Unit := if condition then advance else pure ()

def skipTurn (opener closer : TokenKind) (depth : Nat) : ParserM (Turn Nat Position) := do
  let p ← get
  if p.current.kind = opener then do
    advance
    pure (.next (depth + 1))
  else if p.current.kind = closer then
    if depth ≤ 1 then do
      advance
      pure (.done p.tokenEnd)
    else do
      advance
      pure (.next (depth - 1))
  else if p.current.kind = .eof then pure (.done p.current.pos)
  else do
    advance
    pure (.next depth)

def skipBalanced (opener closer : TokenKind) : ParserM Position :=
  repeatWhile Parser.remaining (skipTurn opener closer) 0

def literal (build : Span → Value) : ParserM Value := do
  let p ← get
  advance
  pure (build ⟨p.current.pos, p.tokenEnd⟩)

def depthExceeded (maxDepth : Nat) : Bytes :=
  text "nesting depth exceeds MaxNestingDepth=" ++ decimal maxDepth

structure Body where
  entries : List Entry
  stop : Position
  trailing : List Comment

structure Nested where
  value : ParserM Value
  body : ParserM Body

def keepElement (elements : List Value) (before : Nat) (element : Value) :
    ParserM (Turn (List Value) (List Value)) := do
  let q ← get
  -- Nothing was consumed: the list is left for the enclosing construct to resynchronize.
  if q.tolerant && q.current.pos.offset = before && element.isBad then pure (.done elements)
  else do
    advanceWhen (q.current.kind = .comma)
    pure (.next (elements ++ [element]))

def listTurn (value : ParserM Value) (elements : List Value) :
    ParserM (Turn (List Value) (List Value)) := do
  let p ← get
  if p.current.kind = .rBracket || p.current.kind = .eof || p.tolerantRowClose then
    pure (.done elements)
  else do
    let element ← value
    keepElement elements p.current.pos.offset element

def closeList (pos : Position) (elements : List Value) : ParserM Value := do
  let q ← get
  if q.current.kind ≠ .rBracket then do
    soft q.current.pos (text "expected ']', got " ++ tokenKindName q.current.kind)
    pure (.list ⟨pos, q.current.pos⟩ elements)
  else do
    advance
    pure (.list ⟨pos, q.tokenEnd⟩ elements)

def parseList (inner : Option Nested) : ParserM Value := do
  let p ← get
  match inner with
  | none => do
    soft p.current.pos (depthExceeded p.maxDepth)
    let stop ← skipBalanced .lBracket .rBracket
    pure (.list ⟨p.current.pos, stop⟩ [])
  | some nested => do
    advance
    let elements ← repeatWhile Parser.remaining (listTurn nested.value) []
    closeList p.current.pos elements

def parseBlockVal (inner : Option Nested) : ParserM Value := do
  let p ← get
  match inner with
  | none => do
    soft p.current.pos (depthExceeded p.maxDepth)
    let stop ← skipBalanced .lBrace .rBrace
    pure (.block ⟨p.current.pos, stop⟩ [] [])
  | some nested => do
    advance
    let body ← nested.body
    pure (.block ⟨p.current.pos, body.stop⟩ body.entries body.trailing)

def parseBytesVal : ParserM Value := do
  let p ← get
  match base64DecodeLenient p.current.value with
  | .ok decoded => literal (.bytes · decoded)
  | .error offset => do
    soft p.current.pos
      (text "invalid base64: illegal base64 data at input byte " ++ decimal offset)
    advance
    pure (.bad p.current.pos)

def Parser.valueErrMsg (p : Parser) : Bytes :=
  if p.current.kind = .illegal then p.current.value
  else text "expected value, got " ++ p.tokenErrMsg

def parseNoValue : ParserM Value := do
  let p ← get
  if !p.tolerant then err p.current.pos p.valueErrMsg
  else do
    report p.current.pos p.valueErrMsg
    match p.current.kind with
    -- Closers are the enclosing construct's.
    | .eof | .rBrace | .rBracket | .rParen => pure (.bad p.current.pos)
    | _ => do
      advance
      pure (.bad p.current.pos)

def parseValue (inner : Option Nested) : ParserM Value := do
  let p ← get
  if p.tolerant && p.currentStartsEntry then do
    -- The current token is the next entry's key, so the value is missing.
    report p.prevEnd (text "missing value")
    pure (.bad p.prevEnd)
  else
    match p.current.kind with
    | .string => literal (.string · p.current.value)
    | .int => literal (.int · p.current.value p.current.prec)
    | .float => literal (.float · p.current.value p.current.prec)
    | .bool => literal (.bool · (p.current.value = text "true"))
    | .bytes => parseBytesVal
    | .timestamp =>
      let t := (parseRFC3339 p.current.value).getD ⟨0, 0⟩
      literal (.timestamp · t.seconds t.nanos p.current.value)
    | .duration =>
      let d := (parseDuration p.current.value).getD ⟨0, 0⟩
      literal (.duration · d.seconds d.nanos p.current.value)
    | .null => literal .null
    | .ident => literal (.ident · p.current.value)
    | .lBracket => parseList inner
    | .lBrace => parseBlockVal inner
    | _ => parseNoValue

def skipTypeEntry : List TokenKind → ParserM Unit
  | [] => pure ()
  | kind :: kinds => do
    advanceWhen ((← get).current.kind = kind)
    skipTypeEntry kinds

def typeEntryFail (leading : List Comment) (pos : Position) (msg : Bytes) :
    ParserM (Option Entry) := do
  if !(← get).tolerant then err pos msg
  else do
    report pos msg
    restoreComments leading
    skipTypeEntry [.atType, .equals, .string]
    pure none

def parseTypeUrl (leading : List Comment) (pos : Position) : ParserM (Option Entry) := do
  let r ← get
  if r.current.kind ≠ .string then
    typeEntryFail leading r.current.pos
      (text "expected a string type URL after @type =, got " ++ r.tokenErrMsg)
  else do
    advance
    let trailing ← takeTrailingComment r.tokenEnd
    pure (some (.typeEntry ⟨pos, r.tokenEnd⟩ r.current.value leading trailing))

def parseTypeEntry (first : Bool) : ParserM (Option Entry) := do
  let leading ← flushComments
  let p ← get
  if !first then typeEntryFail leading p.current.pos typeEntryMisplaced
  else do
    advance
    let q ← get
    if q.current.kind ≠ .equals then
      typeEntryFail leading q.current.pos (text "expected '=' after @type, got " ++ q.tokenErrMsg)
    else do
      advance
      parseTypeUrl leading p.current.pos

structure Key where
  pos : Position
  kind : TokenKind
  value : Bytes
  prec : Bytes
  leading : List Comment

def Key.quoted (key : Key) : Bool := key.kind = .string

def Key.mapOnly (key : Key) : Bool := key.kind = .int || key.kind = .bool

def Key.shown (key : Key) : Bytes :=
  tokenKindName key.kind ++ text " (" ++ goQuote (writtenKey key.value key.prec) ++ text ")"

def parseAssignment (inner : Option Nested) (key : Key) : ParserM Entry := do
  softWhen key.mapOnly key.pos
    (text "field assignment with '=' requires an identifier or string key, got " ++ key.shown ++
      text "; use ':' for map entries")
  advance
  let value ← parseValue inner
  let trailing ← takeTrailingComment value.span.stop
  pure (.assignment ⟨key.pos, value.span.stop⟩ key.value key.quoted value key.leading trailing)

def parseMapEntry (inner : Option Nested) (allowMapEntry : Bool) (key : Key) : ParserM Entry := do
  softWhen (!allowMapEntry) key.pos
    (text "map entry (':' form) is only allowed inside a '\x7b … \x7d' block; " ++
      text "use '=' for top-level field assignments")
  softWhen (!key.prec.isEmpty) key.pos
    (text "map key " ++ key.value ++ text ": a key cannot carry a precision suffix (p" ++
      clip key.prec ++ text ")")
  advance
  let value ← parseValue inner
  let trailing ← takeTrailingComment value.span.stop
  pure (.mapEntry ⟨key.pos, value.span.stop⟩ key.value key.quoted value key.leading trailing)

def parseBlock (inner : Option Nested) (key : Key) : ParserM Entry := do
  softWhen key.mapOnly key.pos
    (text "submessage block requires an identifier or string key, got " ++ key.shown)
  let p ← get
  match inner with
  | none => do
    soft p.current.pos (depthExceeded p.maxDepth)
    let stop ← skipBalanced .lBrace .rBrace
    pure (.block ⟨key.pos, stop⟩ key.value key.quoted [] key.leading [])
  | some nested => do
    advance
    let body ← nested.body
    pure (.block ⟨key.pos, body.stop⟩ key.value key.quoted body.entries key.leading body.trailing)

def parseDangling (key : Key) : ParserM Entry := do
  let p ← get
  soft p.current.pos (text "expected '=', ':', or '\x7b' after " ++ goQuote key.value ++
    text ", got " ++ tokenKindName p.current.kind)
  pure (.assignment ⟨key.pos, p.prevEnd⟩ key.value false (.bad p.prevEnd) key.leading [])

def Parser.entryErrMsg (p : Parser) : Bytes :=
  text "expected identifier, string, integer, or bool, got " ++ p.tokenErrMsg

def parseNoEntry (leading : List Comment) : ParserM (Option Entry) := do
  let p ← get
  if !p.tolerant then err p.current.pos p.entryErrMsg
  else do
    report p.current.pos p.entryErrMsg
    restoreComments leading
    advance
    pure none

def parseTail (inner : Option Nested) (allowMapEntry : Bool) (key : Key) :
    ParserM (Option Entry) := do
  match (← get).current.kind with
  | .equals => some <$> parseAssignment inner key
  | .colon => some <$> parseMapEntry inner allowMapEntry key
  | .lBrace => some <$> parseBlock inner key
  | _ => some <$> parseDangling key

def parseEntry (inner : Option Nested) (allowMapEntry : Bool) : ParserM (Option Entry) := do
  let leading ← flushComments
  let p ← get
  if p.current.kind.startsKey then do
    advance
    parseTail inner allowMapEntry
      ⟨p.current.pos, p.current.kind, p.current.value, p.current.prec, leading⟩
  else parseNoEntry leading

def parseBodyEntry (inner : Option Nested) (first : Bool) : ParserM (Option Entry) := do
  if (← get).current.kind = .atType then parseTypeEntry first else parseEntry inner true

def bodyTurn (inner : Option Nested) (entries : List Entry) :
    ParserM (Turn (List Entry) (List Entry)) := do
  let p ← get
  if p.current.kind = .rBrace || p.current.kind = .eof || p.tolerantRowClose then
    pure (.done entries)
  else do
    let entry ← parseBodyEntry inner entries.isEmpty
    pure (.next (entries ++ entry.toList))

def closeBody (entries : List Entry) : ParserM Body := do
  let trailing ← flushComments
  let p ← get
  if p.current.kind ≠ .rBrace then
    if !p.tolerant then
      err p.current.pos (text "expected '\x7d', got " ++ tokenKindName p.current.kind)
    else do
      report p.current.pos (if p.current.kind = .rParen
        then text "unclosed block: expected '\x7d' before ')'"
        else text "unclosed block: expected '\x7d' before end of input")
      pure ⟨entries, p.current.pos, trailing⟩
  else do
    advance
    pure ⟨entries, p.tokenEnd, trailing⟩

def parseBody (inner : Option Nested) : ParserM Body := do
  let entries ← repeatWhile Parser.remaining (bodyTurn inner) []
  closeBody entries

def parseNested : Nat → Option Nested
  | 0 => none
  | room + 1 => some ⟨parseValue (parseNested room), parseBody (parseNested room)⟩

end Protowire.Pxf
