import Mathlib.Data.List.Sort
import Protowire.Pxf.BraceMatchCore
import Protowire.Pxf.ParserCore

/-!
Directives, datasets and whole documents: `Parse` and `ParseTolerant`.
-/

namespace Protowire.Pxf

open Support

def datasetBesideEntries : Bytes :=
  text "@dataset directive cannot coexist with top-level field entries; the document's payload is " ++
    text "the @dataset rows (draft §3.4.4)"

def isFutureReservedDirective (name : Bytes) : Bool :=
  name = text "table" || name = text "datasource" || name = text "view" ||
    name = text "procedure" || name = text "function" || name = text "permissions"

def hasEmptySegment (column : Bytes) : Bool :=
  !column.isEmpty &&
    (peek column 0 = 0x2E || column.getLast? = some 0x2E || (indexOf (text "..") column).isSome)

def isPathPrefix (lead path : Bytes) : Bool :=
  decide (lead.length < path.length) && peek path lead.length = 0x2E && path.take lead.length = lead

def columnClash (c earlier : Bytes) : Option Bytes :=
  if earlier = c then
    some (text "@dataset column " ++ goQuote c ++ text " appears twice (draft §3.4.4)")
  else if isPathPrefix earlier c || isPathPrefix c earlier then
    some (text "@dataset column " ++ goQuote c ++ text " overlaps column " ++ goQuote earlier ++
      text ": a field and a path inside it cannot both be columns (draft §3.4.4)")
  else none

/-- The header rules that need no schema: the message for the first column that breaks one, and
that column's index. `before` holds the columns already checked. -/
def columnPathErrorFrom (before : List Bytes) : List Bytes → Option (Nat × Bytes)
  | [] => none
  | c :: rest =>
    if hasEmptySegment c then
      some (before.length, text "@dataset column " ++ goQuote c ++
        text ": a column path has an empty segment (draft §3.4.4)")
    else
      match before.findSome? (columnClash c) with
      | some msg => some (before.length, msg)
      | none => columnPathErrorFrom (before ++ [c]) rest

def columnPathError (columns : List Bytes) : Option (Nat × Bytes) := columnPathErrorFrom [] columns

def syncTopLevel : ParserM Unit :=
  repeatWhile Parser.remaining (fun _ => do
    match (← get).current.kind with
    | .eof | .atType | .atDirective | .atDataset | .atProto | .ident | .string | .int =>
      pure (.done ())
    | _ => do
      advance
      pure (.next ())) ()

/-- One prefix identifier of a directive, and the offset past it. An identifier that `=` or `:`
follows is the first body entry's key. -/
def prefixTurn (read : List Bytes × Nat) : ParserM (Turn (List Bytes × Nat) (List Bytes × Nat)) := do
  let p ← get
  if p.current.kind = .ident ∧ ¬(p.peekKind = .equals ∨ p.peekKind = .colon) then do
    advance
    pure (.next (read.1 ++ [p.current.value], p.current.pos.offset + p.current.value.length))
  else pure (.done read)

/-- The prefix identifiers after the directive name it stands on, and the offset past the last
of them. -/
def parsePrefixes : ParserM (List Bytes × Nat) := do
  let p ← get
  advance
  repeatWhile Parser.remaining prefixTurn ([], p.current.pos.offset + 1 + p.current.value.length)

def betweenBraces (input : Bytes) (open_ close : Nat) : Bytes :=
  (input.drop (open_ + 1)).take (close - (open_ + 1))

def directiveType : List Bytes → Bytes
  | [only] => only
  | _ => []

def parseDirectiveBody (inner : Option Nested) (pos : Position) (name : Bytes)
    (leading : List Comment) (read : List Bytes × Nat) : ParserM (Directive × Nat) := do
  let q ← get
  if q.current.kind = .lBrace then do
    -- The block is parsed to check it; the body is the raw bytes between its braces.
    let _ ← parseBlockVal inner
    match findMatchingBrace q.lex.input q.current.pos.offset with
    | none => err pos (text "directive @" ++ name ++ text ": unmatched '\x7b'")
    | some close =>
      pure (⟨pos, name, read.1, directiveType read.1,
        betweenBraces q.lex.input q.current.pos.offset close, true, leading⟩, close + 1)
  else pure (⟨pos, name, read.1, directiveType read.1, [], false, leading⟩, read.2)

def parseDirective (inner : Option Nested) : ParserM (Directive × Nat) := do
  let leading ← flushComments
  let p ← get
  softWhen (isFutureReservedDirective p.current.value) p.current.pos (text "@" ++
    p.current.value ++ text " is a spec-reserved directive name with no v1 semantics (draft §3.4.6)")
  let read ← parsePrefixes
  parseDirectiveBody inner p.current.pos p.current.value leading read

/-- One cell of a row; an empty one is `none`. Comments before the cell belong to no entry of
it. -/
def parseRowCell (inner : Option Nested) : ParserM (Option Value) := do
  let p ← get
  if p.current.kind = .comma ∨ p.current.kind = .rParen then pure none
  else do
    let pending ← flushComments
    match ← attempt (parseValue inner) with
    | .ok value => do
      restoreComments pending
      pure (some value)
    | .error failure => do
      restoreComments pending
      throw failure

def cellTurn (inner : Option Nested) (cells : List (Option Value)) :
    ParserM (Turn (List (Option Value)) (List (Option Value))) := do
  if (← get).current.kind = .comma then do
    advance
    let cell ← parseRowCell inner
    pure (.next (cells ++ [cell]))
  else pure (.done cells)

/-- The `)` of a row that started at `pos`, which has to have `expected` cells, and the offset
past it. The `)` is consumed only when `readPast`. -/
def closeRow (pos : Position) (leading : List Comment) (expected : Nat) (readPast : Bool)
    (cells : List (Option Value)) : ParserM (DatasetRow × Nat) := do
  let p ← get
  if p.current.kind ≠ .rParen then
    err p.current.pos (text "expected ',' or ')' in @dataset row, got " ++ p.datasetTokenMsg)
  else do
    -- Taken before the `)` is consumed: the comments after it belong to what follows the row.
    let inside ← flushComments
    advanceWhen readPast
    if cells.length ≠ expected then
      err pos (text "@dataset row has " ++ decimal cells.length ++ text " cells, expected " ++
        decimal expected ++ text " (column count)")
    else pure (⟨pos, cells, leading ++ inside⟩, p.current.pos.offset + 1)

def parseTableRow (inner : Option Nested) (expected : Nat) (readPast : Bool) :
    ParserM (DatasetRow × Nat) := do
  let p ← get
  let leading ← flushComments
  advance
  let first ← parseRowCell inner
  let cells ← repeatWhile Parser.remaining (cellTurn inner) [first]
  closeRow p.current.pos leading expected readPast cells

def columnTurn (columns : List (Bytes × Position)) :
    ParserM (Turn (List (Bytes × Position)) (List (Bytes × Position))) := do
  let p ← get
  if p.current.kind ≠ .ident then
    err p.current.pos (text "expected column field name, got " ++ p.datasetTokenMsg)
  else do
    advance
    let columns := columns ++ [(p.current.value, p.current.pos)]
    let q ← get
    if q.current.kind = .comma then do
      advance
      pure (.next columns)
    else if q.current.kind = .rParen then pure (.done columns)
    else
      err q.current.pos (text "expected ',' or ')' in @dataset column list, got " ++ q.datasetTokenMsg)

def parseColumns : ParserM (List Bytes) := do
  let p ← get
  if p.current.kind ≠ .ident then
    err p.current.pos
      (text "@dataset column list must contain at least one field name, got " ++ p.datasetTokenMsg)
  else do
    let columns ← repeatWhile Parser.remaining columnTurn []
    match columnPathError (columns.map (·.1)) with
    | some (index, msg) => err ((columns.map (·.2)).getD index {}) msg
    | none => pure (columns.map (·.1))

def rowTurn (inner : Option Nested) (expected : Nat) (read : List DatasetRow × Nat) :
    ParserM (Turn (List DatasetRow × Nat) (List DatasetRow × Nat)) := do
  if (← get).current.kind = .lParen then do
    let found ← parseTableRow inner expected true
    pure (.next (read.1 ++ [found.1], found.2))
  else pure (.done read)

def parseRowType : ParserM Bytes := do
  let p ← get
  if p.current.kind = .ident then do
    advance
    pure p.current.value
  else pure []

def parseColumnList : ParserM (List Bytes) := do
  let p ← get
  if p.current.kind ≠ .lParen then
    err p.current.pos (text "expected '(' to start @dataset column list, got " ++ p.datasetTokenMsg)
  else do
    advance
    parseColumns

def parseTableHeader : ParserM (Bytes × List Bytes) := do
  let type ← parseRowType
  let columns ← parseColumnList
  pure (type, columns)

def parseTableRows (inner : Option Nested) (expected : Nat) : ParserM (List DatasetRow × Nat) := do
  let p ← get
  advance
  repeatWhile Parser.remaining (rowTurn inner expected) ([], p.current.pos.offset + 1)

def parseTableDirective (inner : Option Nested) : ParserM (DatasetDirective × Nat) := do
  let leading ← flushComments
  let p ← get
  advance
  let header ← parseTableHeader
  let read ← parseTableRows inner header.2.length
  pure (⟨p.current.pos, header.1, header.2, read.1, leading⟩, read.2)

def captureBraceBody (label : Bytes) : ParserM (Bytes × Nat) := do
  let p ← get
  match findMatchingBrace p.lex.input p.current.pos.offset with
  | none => err p.current.pos (label ++ text ": unmatched '\x7b'")
  | some close => do
    modify fun p => { p with lex := p.lex.repositionTo (close + 1) }
    advance
    pure (betweenBraces p.lex.input p.current.pos.offset close, close + 1)

def parseProtoNamed (pos : Position) (leading : List Comment) (name : Bytes) :
    ParserM (ProtoDirective × Nat) := do
  let q ← get
  if q.current.kind ≠ .lBrace then
    err q.current.pos (text "expected '\x7b' after @proto " ++ name ++ text ", got " ++
      tokenKindName q.current.kind)
  else do
    let captured ← captureBraceBody (text "@proto " ++ name)
    pure (⟨pos, .named, name, captured.1, leading⟩, captured.2)

def parseProtoBody (pos : Position) (leading : List Comment) :
    ParserM (ProtoDirective × Nat) := do
  let p ← get
  match p.current.kind with
  | .lBrace => do
    let captured ← captureBraceBody (text "@proto (anonymous form)")
    pure (⟨pos, .anonymous, [], captured.1, leading⟩, captured.2)
  | .ident => do
    advance
    parseProtoNamed pos leading p.current.value
  | .string => do
    advance
    pure (⟨pos, .source, [], p.current.value, leading⟩, p.tokenEnd.offset)
  | .bytes =>
    match base64DecodeProto p.current.value with
    | .error offset =>
      err p.current.pos
        (text "@proto descriptor body: invalid base64: illegal base64 data at input byte " ++
          decimal offset)
    | .ok decoded => do
      advance
      pure (⟨pos, .descriptor, [], decoded, leading⟩, p.tokenEnd.offset)
  | _ =>
    err p.current.pos
      (text "expected '\x7b', dotted identifier, triple-quoted string, or b\"...\" after @proto, got "
        ++ tokenKindName p.current.kind)

def parseProtoDirective : ParserM (ProtoDirective × Nat) := do
  let leading ← flushComments
  let p ← get
  advance
  parseProtoBody p.current.pos leading

/-- A directive's failure. Strictly it is the document's; tolerantly it is recorded and the
directive skipped. -/
def recover (failure : Status) (skip : Document) : ParserM Document := do
  let p ← get
  if !p.tolerant then throw failure
  else do
    report p.errPos failure.message
    syncTopLevel
    pure skip

def recovering {α : Type} (directive : ParserM α) (keep : α → Document) (skip : Document) :
    ParserM Document := do
  match ← attempt directive with
  | .ok found => pure (keep found)
  | .error failure => recover failure skip

def parseTypeName (doc : Document) : ParserM Document := do
  let p ← get
  -- Tolerantly, a dangling `@type` with the body right after it names no type.
  if p.current.kind ≠ .ident || (p.tolerant && p.currentStartsEntry) then do
    soft p.current.pos (text "expected type name after @type, got " ++ tokenKindName p.current.kind)
    syncTopLevel
    pure doc
  else do
    advance
    pure { doc with
      typeUrl := p.current.value, bodyOffset := p.current.pos.offset + p.current.value.length }

def parseTypeDirective (doc : Document) : ParserM Document := do
  advance
  parseTypeName doc

def directiveTurn (inner : Option Nested) (doc : Document) : ParserM (Turn Document Document) := do
  match (← get).current.kind with
  | .atType => .next <$> parseTypeDirective doc
  | .atDirective =>
    .next <$> recovering (parseDirective inner)
      (fun found => { doc with directives := doc.directives ++ [found.1], bodyOffset := found.2 })
      doc
  | .atDataset =>
    .next <$> recovering (parseTableDirective inner)
      (fun found => { doc with datasets := doc.datasets ++ [found.1], bodyOffset := found.2 }) doc
  | .atProto =>
    .next <$> recovering parseProtoDirective
      (fun found => { doc with protos := doc.protos ++ [found.1], bodyOffset := found.2 }) doc
  | _ => pure (.done doc)

def checkStandalone (doc : Document) : ParserM Unit :=
  match doc.datasets with
  | [] => pure ()
  | first :: _ => do
    softWhen (!doc.typeUrl.isEmpty) first.pos
      (text "@dataset directive cannot coexist with @type; the @dataset header " ++
        text "declares the document's type (draft §3.4.4)")
    let p ← get
    softWhen (p.current.kind ≠ .eof) p.current.pos datasetBesideEntries

def entryTurn (inner : Option Nested) (entries : List Entry) :
    ParserM (Turn (List Entry) (List Entry)) := do
  if (← get).current.kind = .eof then pure (.done entries)
  else do
    let entry ← parseEntry inner false
    pure (.next (entries ++ entry.toList))

def parseEntries (inner : Option Nested) (doc : Document) : ParserM Document := do
  checkStandalone doc
  let entries ← repeatWhile Parser.remaining (entryTurn inner) []
  let trailingComments ← flushComments
  pure { doc with entries, trailingComments }

def parseDocument : ParserM Document := do
  let leadingComments ← flushComments
  let p ← get
  let doc ← repeatWhile Parser.remaining (directiveTurn (parseNested p.maxDepth)) { leadingComments }
  parseEntries (parseNested p.maxDepth) doc

structure ParseOptions where
  maxMessageSize : Int := 0
  maxNestingDepth : Int := 0
  maxBytesLiteralLength : Int := 0

def selected (limit : Int) (fallback : Nat) : Nat := if 0 < limit then limit.toNat else fallback

def Parser.start (input : Bytes) (maxDepth maxBytesLiteral : Nat) (start : Position) : Parser :=
  Parser.advanced { lex := .ofPiece input start maxBytesLiteral, maxDepth }

def Parser.startTolerant (input : Bytes) (maxDepth maxBytesLiteral : Nat) : Parser :=
  Parser.advanced
    { lex := { input, maxBytesLiteral, tolerant := true }, maxDepth, tolerant := true }

def tooLarge (size limit : Nat) : Bytes :=
  text "input of " ++ decimal size ++ text " bytes exceeds MaxMessageSize=" ++ decimal limit

def strictResult : EStateM.Result Status Parser Document → Except Status Document
  | .ok doc _ => .ok doc
  | .error failure _ => .error failure

def parse (input : Bytes) (opts : ParseOptions) : Except Status Document :=
  let maxSize := selected opts.maxMessageSize maxMessageSize
  if maxSize < input.length then .error ⟨1, 1, tooLarge input.length maxSize⟩
  else
    strictResult (parseDocument (Parser.start input (selected opts.maxNestingDepth maxNestingDepth)
      (selected opts.maxBytesLiteralLength maxBytesLiteralLength) {}))

structure TolerantResult where
  document : Document
  errors : List Error

def takeErrors (errs : List Error) : List Error :=
  errs.insertionSort fun a b => a.pos.offset ≤ b.pos.offset

def tolerantResult : EStateM.Result Status Parser Document → TolerantResult
  | .ok doc p => ⟨doc, takeErrors p.errs⟩
  | .error failure p => ⟨{}, takeErrors (p.errs ++ [⟨p.errPos, failure.message⟩])⟩

def parseTolerant (input : Bytes) (opts : ParseOptions) : TolerantResult :=
  let maxSize := selected opts.maxMessageSize maxMessageSize
  if maxSize < input.length then ⟨{}, [⟨{}, tooLarge input.length maxSize⟩]⟩
  else
    tolerantResult (parseDocument (Parser.startTolerant input
      (selected opts.maxNestingDepth maxNestingDepth)
      (selected opts.maxBytesLiteralLength maxBytesLiteralLength)))

end Protowire.Pxf
