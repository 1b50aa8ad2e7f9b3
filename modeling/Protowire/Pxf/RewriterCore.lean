import Protowire.Pxf.DocumentCore
import Protowire.Pxf.FormatCore
import Protowire.Support.Splicing

/-!
`Rewriter`: edits of a document that leave every byte outside the edited spans as it is. An editor
works out spans of the source and the text for them against the document as it was parsed, and
stages them; `Bytes` applies all that is staged and parses the result.
-/

namespace Protowire.Pxf

open Support

abbrev SpanEdit := Edit Bytes UInt8

/-- `EntrySpan`. -/
def Entry.span : Entry → Span
  | .assignment span _ _ _ _ _ | .mapEntry span _ _ _ _ _ | .block span _ _ _ _ _
  | .typeEntry span _ _ _ => span

/-- `EntryKey`: the key or name an entry is addressed by. -/
def Entry.key : Entry → Bytes
  | .assignment _ key _ _ _ _ | .mapEntry _ key _ _ _ _ => key
  | .block _ name _ _ _ _ => name
  | .typeEntry _ _ _ _ => []

/-- `EntryValue`: the value of an entry that is no block. -/
def Entry.value : Entry → Option Value
  | .assignment _ _ _ value _ _ | .mapEntry _ _ _ value _ _ => some value
  | .block _ _ _ _ _ _ | .typeEntry _ _ _ _ => none

def findEntry (entries : List Entry) (key : Bytes) : Option Entry := entries.find? (·.key = key)

def Entry.kids : Entry → Option (List Entry)
  | .block _ _ _ entries _ _ => some entries
  | .assignment _ _ _ (.block _ entries _) _ _ | .mapEntry _ _ _ (.block _ entries _) _ _ =>
    some entries
  | .assignment _ _ _ _ _ _ | .mapEntry _ _ _ _ _ _ | .typeEntry _ _ _ _ => none

mutual

def containsBadVal : Value → Bool
  | .bad _ => true
  | .list _ elements => anyBadVal elements
  | .block _ entries _ => anyEntryBadVal entries
  | .string _ _ | .int _ _ _ | .float _ _ _ | .bool _ _ | .bytes _ _ | .null _ | .ident _ _
  | .timestamp _ _ _ _ | .duration _ _ _ _ => false

def anyBadVal : List Value → Bool
  | [] => false
  | value :: values => containsBadVal value || anyBadVal values

def entryContainsBadVal : Entry → Bool
  | .assignment _ _ _ value _ _ | .mapEntry _ _ _ value _ _ => containsBadVal value
  | .block _ _ _ entries _ _ => anyEntryBadVal entries
  | .typeEntry _ _ _ _ => false

def anyEntryBadVal : List Entry → Bool
  | [] => false
  | entry :: entries => entryContainsBadVal entry || anyEntryBadVal entries

end

def hasMapEntry (entries : List Entry) : Bool :=
  entries.any fun
    | .mapEntry _ _ _ _ _ _ => true
    | _ => false

def indentAt (base step : Bytes) (depth : Nat) : Bytes := base ++ (List.replicate depth step).flatten

def replaceNewlines (linePrefix s : Bytes) : Bytes :=
  s.flatMap fun c => if c = 0x0A then c :: linePrefix else [c]

def renderEntryLines (e : Entry) (baseIndent step : Bytes) : Bytes :=
  let out := appendEntryIndented e step
  let out := if out.getLast? = some 0x0A then out.dropLast else out
  if baseIndent.isEmpty then out else baseIndent ++ replaceNewlines baseIndent out

mutual

def writeEntryInline : Entry → Bytes
  | .assignment _ key keyQuoted value _ _ =>
    spelled keyQuoted key ++ text " = " ++ appendValue value
  | .mapEntry _ key keyQuoted value _ _ =>
    spelled (mapKeyQuoted key keyQuoted) key ++ text ": " ++ appendValue value
  | .typeEntry _ url _ _ => text "@type = " ++ goQuote url
  | .block _ name nameQuoted entries _ _ =>
    spelled nameQuoted name ++ text " \x7b" ++ writeEntriesInline entries ++ text " \x7d"

def writeEntriesInline : List Entry → Bytes
  | [] => []
  | entry :: entries => 0x20 :: writeEntryInline entry ++ writeEntriesInline entries

end

def lineStartOffset (src : Bytes) (off : Nat) : Nat :=
  off - spanLength (· ≠ 0x0A) (src.take off).reverse

def isPad (c : UInt8) : Bool := c = 0x20 || c = 0x09

def isBlankPad (s : Bytes) : Bool := s.all isPad

def needsQuoting (s : Bytes) : Bool := !isIdentifierSafe s

def hasNewline (s : Bytes) : Bool := s.contains 0x0A

def splitDots (path : Bytes) : List Bytes := path.splitOn 0x2E

def splitPathSegs (path : Bytes) : Option (List Bytes) :=
  if path.isEmpty then none
  else if (splitDots path).any (·.isEmpty) then none
  else some (splitDots path)

def joinPathSegs (segs : List Bytes) (n : Nat) : Bytes := [0x2E].intercalate (segs.take n)

def spaceRuneLen (s : Bytes) : Nat :=
  match s with
  | [] => 0
  | c :: _ => if c = 0x20 || (0x09 ≤ c && c ≤ 0x0D) then 1 else wideSpace s

def trimLeft (s : Bytes) : Bytes :=
  loop List.length (fun s => if spaceRuneLen s = 0 then .done s else .next (s.drop (spaceRuneLen s)))
    id s

def skipDirTriple : Nat → Bytes → Option Nat
  | at_, s@(_ :: rest) => if opensWith (text "\"\"\"") s then some (at_ + 3) else skipDirTriple (at_ + 1) rest
  | _, [] => none

def skipDirQuoted : Nat → Bool → Bytes → Option Nat
  | at_, true, _ :: rest => skipDirQuoted (at_ + 1) false rest
  | at_, false, c :: rest =>
    if c = 0x5C then skipDirQuoted (at_ + 1) true rest
    else if c = 0x22 then some (at_ + 1)
    else if c = 0x0A then none
    else skipDirQuoted (at_ + 1) false rest
  | _, _, [] => none

def skipDirString (input : Bytes) (i : Nat) : Option Nat :=
  if opensWith (text "\"\"\"") (input.drop i) then skipDirTriple (i + 3) (input.drop (i + 3))
  else skipDirQuoted (i + 1) false (input.drop (i + 1))

def nameTokenEnd (src : Bytes) (start : Nat) : Option Nat :=
  if src.length ≤ start then none
  else if peek src start = 0x22 then skipDirString src start
  else
    match spanLength isIdentPart (src.drop start) with
    | 0 => none
    | n + 1 => some (start + n + 1)

def unplaced : Span := ⟨{}, {}⟩

def newKeyedElementBlock (key : Bytes) (body : List Entry) : Entry :=
  .block unplaced key (!isIdentifierSafeEntryName key) body [] []

def newAnonElement (keyField key : Bytes) (body : List Entry) : Value :=
  .block unplaced (.assignment unplaced keyField false (.string unplaced key) [] [] :: body) []

def entryChain (v : Value) : List Bytes → List Entry
  | [] => []
  | [leaf] => [.assignment unplaced leaf false v [] []]
  | seg :: segs => [.block unplaced seg false (entryChain v segs) [] []]

def buildEntryChain (op subpath : Bytes) (v : Value) : Except Bytes (List Entry) :=
  match splitPathSegs subpath with
  | none =>
    .error (text "pxf: " ++ op ++ text ": invalid subpath " ++ goQuote subpath ++
      text ": empty segment")
  | some segs =>
    match segs.find? needsQuoting with
    | some seg =>
      .error (text "pxf: " ++ op ++ text ": segment " ++ goQuote seg ++
        text " is not a valid field name")
    | none => .ok (entryChain v segs)

def anonKeyAssignment (keyField : Bytes) : List Entry → Option Value
  | [] => none
  | .assignment _ key false value@(.string _ _) _ _ :: entries =>
    if key = keyField then some value else anonKeyAssignment keyField entries
  | _ :: entries => anonKeyAssignment keyField entries

structure Container where
  pos : Nat
  closeOff : Nat

structure Target where
  entry : Option Entry := none
  container : Option Container := none
  containerEntries : List Entry
  missing : List Bytes := []

def containerFor (e : Entry) : Container :=
  match e with
  | .block span _ _ _ _ _ => ⟨span.pos.offset, span.stop.offset - 1⟩
  | .assignment span _ _ value _ _ | .mapEntry span _ _ value _ _ =>
    ⟨span.pos.offset, value.span.stop.offset - 1⟩
  | .typeEntry span _ _ _ => ⟨span.pos.offset, span.stop.offset - 1⟩

def resolveSegs (path : Bytes) (entries : List Entry) (container : Option Container) :
    List Bytes → Except Bytes Target
  | [] => .error (text "pxf: invalid path " ++ goQuote path)
  | seg :: segs =>
    match findEntry entries seg with
    | none => .ok { container, containerEntries := entries, missing := seg :: segs }
    | some e =>
      if segs.isEmpty then .ok { entry := some e, container, containerEntries := entries }
      else
        match e.kids with
        | none =>
          .error (text "pxf: path " ++ goQuote path ++ text ": segment " ++ goQuote seg ++
            text " is a scalar field, not a block")
        | some kids => resolveSegs path kids (some (containerFor e)) segs

def resolveIn (entries : List Entry) (container : Option Container) (path : Bytes) :
    Except Bytes Target :=
  if (splitDots path).any (·.isEmpty) then
    .error (text "pxf: invalid path " ++ goQuote path ++ text ": empty segment")
  else resolveSegs path entries container (splitDots path)

/-- What edits are worked out against: the text, the document it was parsed to and the declared
key fields. -/
structure Source where
  src : Bytes
  doc : Document
  keyFields : List (Bytes × Bytes) := []

structure RemovalSpan where
  start : Nat
  stop : Nat
  wholeLines : Bool

structure ByteSpan where
  start : Nat
  stop : Nat

/-- Text to insert, and where a comma goes that belongs after the element before it but not next to
the text. -/
structure Insertion where
  at_ : Nat
  text : Bytes
  commaAt : Option Nat := none

structure TrailingCommentSpan where
  comment : Option ByteSpan
  lineEnd : Option Nat

namespace Source

def slice (s : Source) (start stop : Nat) : Bytes := (s.src.drop start).take (stop - start)

def trailingListPad (s : Source) (off : Nat) : Nat := spanLength isPad (s.src.drop off)

def closesOnLine (s : Source) (off : Nat) : Option Nat :=
  match indexOf (text "*/") (s.src.drop off) with
  | none => none
  | some n => if hasNewline ((s.src.drop off).take n) then none else some (off + n + 2)

def opensLineComment (s : Bytes) : Bool := peek s 0 = 0x23 || opensWith (text "//") s

def endOfLine (s : Source) (off : Nat) : Nat := off + spanLength (· ≠ 0x0A) (s.src.drop off)

def pastTrailing (s : Source) (stop : Nat) : Nat :=
  let le := stop + s.trailingListPad stop
  let rest := s.src.drop le
  if !rest.isEmpty && opensLineComment rest then s.endOfLine le
  else if opensWith (text "/*") rest then
    match s.closesOnLine le with
    | some through => through + s.trailingListPad through
    | none => le
  else le

def entryRemovalSpan (s : Source) (e : Entry) : RemovalSpan :=
  let start := e.span.pos.offset
  let stop := e.span.stop.offset
  let ls := lineStartOffset s.src start
  let le := s.pastTrailing stop
  if isBlankPad (s.slice ls start) && (decide (s.src.length ≤ le) || peek s.src le = 0x0A) then
    ⟨ls, if le < s.src.length then le + 1 else le, true⟩
  else ⟨start, stop + s.trailingListPad stop, false⟩

def lineIndentAt (s : Source) (off : Nat) : Bytes :=
  let ls := lineStartOffset s.src off
  if isBlankPad (s.slice ls off) then s.slice ls off else []

def lineLeadingIndent (s : Source) (off : Nat) : Bytes :=
  (s.slice (lineStartOffset s.src off) off).takeWhile isPad

mutual

def scanEntry (s : Source) : Entry → Bytes
  | .block span _ _ kids _ _ => s.scanKids span kids
  | .assignment span _ _ (.block _ kids _) _ _ | .mapEntry span _ _ (.block _ kids _) _ _ =>
    s.scanKids span kids
  | .assignment _ _ _ _ _ _ | .mapEntry _ _ _ _ _ _ | .typeEntry _ _ _ _ => []

def scanKids (s : Source) (span : Span) : List Entry → Bytes
  | [] => []
  | kid :: kids =>
    let base := s.lineLeadingIndent span.pos.offset
    let first := kid.span.pos.offset
    let ci := s.slice (lineStartOffset s.src first) first
    if isBlankPad ci && (base.length < ci.length && opensWith base ci) then ci.drop base.length
    else s.scanIndentStep (kid :: kids)

def scanIndentStep (s : Source) : List Entry → Bytes
  | [] => []
  | entry :: entries =>
    let step := s.scanEntry entry
    if step.isEmpty then s.scanIndentStep entries else step

end

def indentStep (s : Source) : Bytes :=
  let step := s.scanIndentStep s.doc.entries
  if step.isEmpty then text "  " else step

def stepFor (s : Source) (entries : List Entry) : Bytes :=
  let step := s.scanIndentStep entries
  if step.isEmpty then s.indentStep else step

def childIndent (s : Source) (entries : List Entry) (containerPos : Option Nat) : Bytes :=
  let fallback := match containerPos with
    | none => []
    | some pos => s.lineIndentAt pos ++ text "  "
  match entries with
  | [] => fallback
  | first :: _ =>
    let off := first.span.pos.offset
    let ls := lineStartOffset s.src off
    if isBlankPad (s.slice ls off) then s.slice ls off else fallback

def siblingIndent (s : Source) (t : Target) : Bytes :=
  s.childIndent t.containerEntries (t.container.map (·.pos))

def renderValue (_s : Source) (v : Value) (linePrefix step : Bytes) : Bytes :=
  let out := appendValueIndented v step
  if linePrefix.isEmpty then out else replaceNewlines linePrefix out

def renderChain (s : Source) (baseIndent step : Bytes) (v : Value) (mapForm isInline : Bool)
    (level : Nat) : List Bytes → Bytes
  | [] => []
  | [leaf] =>
    -- A block made on the way is a message, so only the scope that is there can be a map.
    let leafMap := mapForm && level = 0
    let indent := indentAt baseIndent step level
    (if isInline then [] else indent) ++ spelled (leafMap && needsQuoting leaf) leaf ++
      (if leafMap then text ": " else text " = ") ++ s.renderValue v indent step
  | seg :: segs =>
    let indent := indentAt baseIndent step level
    (if isInline then [] else indent) ++ seg ++ (if isInline then text " \x7b " else text " \x7b\n") ++
      s.renderChain baseIndent step v mapForm isInline (level + 1) segs ++
      (if isInline then text " \x7d" else 0x0A :: indent ++ [0x7D])

def aboveBrace (s : Source) (closeOff : Nat) : Nat × Bytes :=
  let ls := lineStartOffset s.src closeOff
  if isBlankPad (s.slice ls closeOff) then (ls, []) else (closeOff, [0x0A])

def padBefore (s : Source) (off : Nat) : Bytes :=
  if 0 < off ∧ ¬isPad (peek s.src (off - 1)) then [0x20] else []

/-- `StageInsert`. -/
def insertEdits (s : Source) (op pathKey : Bytes) (t : Target) (v : Value) :
    Except Bytes (List SpanEdit) :=
  match t.missing.dropLast.find? needsQuoting with
  | some seg =>
    .error (text "pxf: " ++ op ++ text ": segment " ++ goQuote seg ++
      text " is not a valid block name")
  | none =>
    let leaf := t.missing.getLastD []
    let mapForm := hasMapEntry t.containerEntries
    if needsQuoting leaf && !mapForm then
      .error (text "pxf: " ++ op ++ text ": key " ++ goQuote leaf ++
        text " needs a map (':') context")
    else
      let step := s.stepFor t.containerEntries
      match t.container with
      | none =>
        let chain := s.renderChain (s.siblingIndent t) step v mapForm false 0 t.missing
        let break_ := if !s.src.isEmpty && s.src.getLast? ≠ some 0x0A then [0x0A] else []
        .ok [⟨pathKey, s.src.length, s.src.length, break_ ++ chain ++ [0x0A]⟩]
      | some scope =>
        if s.src.length ≤ scope.closeOff || peek s.src scope.closeOff ≠ 0x7D then
          .error (text "pxf: " ++ op ++
            text ": internal error: container span does not end at '\x7d'")
        else if !hasNewline (s.slice scope.pos scope.closeOff) then
          let chain := s.renderChain [] step v mapForm true 0 t.missing
          .ok [⟨pathKey, scope.closeOff, scope.closeOff,
            s.padBefore scope.closeOff ++ chain ++ [0x20]⟩]
        else
          let chain := s.renderChain (s.siblingIndent t) step v mapForm false 0 t.missing
          let above := s.aboveBrace scope.closeOff
          .ok [⟨pathKey, above.1, above.1, above.2 ++ chain ++ [0x0A]⟩]

def setResolved (s : Source) (op pathKey : Bytes) (t : Target) (v : Value) :
    Except Bytes (List SpanEdit) :=
  match t.entry with
  | none => s.insertEdits op pathKey t v
  | some entry =>
    match entry.value with
    | none =>
      .error (text "pxf: " ++ op ++
        text ": path addresses a block; set its fields individually, or Remove it " ++
        text "and Set a BlockVal")
    | some old =>
      .ok [⟨pathKey, old.span.pos.offset, old.span.stop.offset,
        s.renderValue v (s.lineIndentAt entry.span.pos.offset) (s.stepFor t.containerEntries)⟩]

def setEdits (s : Source) (path : Bytes) (v : Value) : Except Bytes (List SpanEdit) :=
  if containsBadVal v then
    .error (text "pxf: Set " ++ path ++ text ": cannot write a BadVal placeholder")
  else do
    let t ← resolveIn s.doc.entries none path
    s.setResolved (text "Set " ++ path) path t v

def removalEdit (s : Source) (pathKey : Bytes) (e : Entry) : SpanEdit :=
  ⟨pathKey, (s.entryRemovalSpan e).start, (s.entryRemovalSpan e).stop, []⟩

def removeEdits (s : Source) (path : Bytes) : Except Bytes (List SpanEdit) := do
  let t ← resolveIn s.doc.entries none path
  match t.entry with
  | none => .error (text "pxf: Remove " ++ path ++ text ": no such entry")
  | some e => .ok [s.removalEdit path e]

def spanPath (start stop : Nat) : Bytes :=
  0x00 :: text "span:" ++ decimal start ++ text ":" ++ decimal stop

def setSpanEdits (s : Source) (start stop : Int) (replacement : Bytes) :
    Except Bytes (List SpanEdit) :=
  if start < 0 ∨ stop < start ∨ (s.src.length : Int) < stop then
    .error (text "pxf: SetSpan: span [" ++ signedDecimal start ++ text ":" ++ signedDecimal stop ++
      text ") out of range for source of length " ++ decimal s.src.length)
  else .ok [⟨spanPath start.toNat stop.toNat, start.toNat, stop.toNat, replacement⟩]

def replaceValueEdits (s : Source) (old with_ : Value) : Except Bytes (List SpanEdit) :=
  if containsBadVal with_ then
    .error (text "pxf: ReplaceValue: cannot write a BadVal placeholder")
  else if old.span.stop.offset ≤ old.span.pos.offset then
    .error (text "pxf: ReplaceValue: old value has no source span (not a parsed value, or a BadVal)")
  else
    s.setSpanEdits old.span.pos.offset old.span.stop.offset
      (s.renderValue with_ (s.lineLeadingIndent old.span.pos.offset) s.indentStep)

def renderAppendEntry (s : Source) (scopeStart closeOff : Nat) (siblings : List Entry) (e : Entry) :
    Insertion :=
  if !hasNewline (s.slice scopeStart closeOff) then
    { at_ := closeOff, text := s.padBefore closeOff ++ writeEntryInline e ++ [0x20] }
  else
    let step := s.stepFor siblings
    let indent := if siblings.isEmpty then s.lineLeadingIndent scopeStart ++ step
      else s.childIndent siblings (some scopeStart)
    let above := s.aboveBrace closeOff
    { at_ := above.1, text := above.2 ++ renderEntryLines e indent step ++ [0x0A] }

def appendEntryInsertion (s : Source) (span : Span) (name : Bytes) (entries : List Entry)
    (e : Entry) : Except Bytes Insertion :=
  if entryContainsBadVal e then .error (text "pxf: AppendEntry: cannot write a BadVal placeholder")
  else if span.stop.offset ≤ span.pos.offset ∨ s.src.length ≤ span.stop.offset - 1 ∨
      peek s.src (span.stop.offset - 1) ≠ 0x7D then
    .error (text "pxf: AppendEntry: block " ++ goQuote name ++
      text " has no source span (not a parsed block)")
  else .ok (s.renderAppendEntry span.pos.offset (span.stop.offset - 1) entries e)

def extendOverLeadingComments (s : Source) (start : Nat) : Nat :=
  loop id (fun start =>
    if start = 0 then .done start
    else
      let ls := lineStartOffset s.src (start - 1)
      if opensLineComment (trimLeft (s.slice ls (start - 1))) then .next ls else .done start)
    id start

end Source

structure ListVal where
  span : Span
  elements : List Value

inductive KeyedForm where
  | block (entries : List Entry)
  | anon (list : ListVal) (keyField : Bytes)

structure KeyedBinding where
  id : Nat
  scopeStart : Nat
  closeOff : Nat
  form : KeyedForm

structure BlockElem where
  b : KeyedBinding
  siblings : List Entry
  key : Bytes
  node : Entry
  body : List Entry

structure ListElem where
  b : KeyedBinding
  list : ListVal
  keyField : Bytes
  key : Bytes
  idx : Nat
  span : Span
  body : List Entry

inductive Rewriter.KeyedElem where
  | block (elem : BlockElem)
  | anon (elem : ListElem)

def Rewriter.KeyedElem.key : Rewriter.KeyedElem → Bytes
  | .block elem => elem.key
  | .anon elem => elem.key

def Rewriter.KeyedElem.body : Rewriter.KeyedElem → List Entry
  | .block elem => elem.body
  | .anon elem => elem.body

def Rewriter.KeyedElem.containerOf : Rewriter.KeyedElem → Container
  | .block elem => containerFor elem.node
  | .anon elem => ⟨elem.span.pos.offset, elem.span.stop.offset - 1⟩

def blockElemOf (b : KeyedBinding) (siblings : List Entry) : Entry → Option Rewriter.KeyedElem
  | node@(.block _ name _ body _ _) => some (.block ⟨b, siblings, name, node, body⟩)
  | node@(.assignment _ key _ (.block _ body _) _ _) => some (.block ⟨b, siblings, key, node, body⟩)
  | _ => none

def listElemOf (b : KeyedBinding) (list : ListVal) (keyField : Bytes) (idx : Nat) :
    Value → Option Rewriter.KeyedElem
  | .block span body _ =>
    match explicitKeyOf body keyField with
    | some key => if key.isEmpty then none else some (.anon ⟨b, list, keyField, key, idx, span, body⟩)
    | none => none
  | _ => none

/-- `Each`: the elements of a binding that can be addressed, in order. -/
def KeyedBinding.elems (b : KeyedBinding) : List Rewriter.KeyedElem :=
  match b.form with
  | .block entries => entries.filterMap (blockElemOf b entries)
  | .anon list keyField =>
    list.elements.zipIdx.filterMap fun element => listElemOf b list keyField element.2 element.1

def findKeyedElem (bs : List KeyedBinding) (key : Bytes) : Option Rewriter.KeyedElem :=
  (bs.flatMap KeyedBinding.elems).find? (·.key = key)

namespace Source

def keyedScopeEntries (s : Source) (fieldPath : Bytes) : Except Bytes (List Entry × Bytes) :=
  match splitPathSegs fieldPath with
  | none => .error (text "invalid path " ++ goQuote fieldPath)
  | some segs =>
    let key := segs.getLastD []
    if segs.length = 1 then .ok (s.doc.entries, key)
    else do
      let parent := joinPathSegs segs (segs.length - 1)
      let t ← resolveIn s.doc.entries none parent
      match t.entry with
      | none => .error (text "no entry at " ++ goQuote parent)
      | some e =>
        match e.kids with
        | some kids => .ok (kids, key)
        | none => .error (goQuote parent ++ text " is not a block")

def keyFieldOf (s : Source) (fieldPath : Bytes) : Bytes := (s.keyFields.lookup fieldPath).getD []

def bindingOf (key keyField : Bytes) (e : Entry) : Option (Nat → KeyedBinding) :=
  if e.key ≠ key then none
  else
    match e with
    | .block span _ _ entries _ _ =>
      some fun id => ⟨id, span.pos.offset, span.stop.offset - 1, .block entries⟩
    | .assignment span _ _ (.block body entries _) _ _ =>
      some fun id => ⟨id, span.pos.offset, body.stop.offset - 1, .block entries⟩
    | .assignment span _ _ (.list list elements) _ _ =>
      if keyField.isEmpty then none
      else some fun id =>
        ⟨id, span.pos.offset, list.stop.offset - 1, .anon ⟨list, elements⟩ keyField⟩
    | _ => none

def bindsList (key : Bytes) : Entry → Bool
  | .assignment _ name _ (.list _ _) _ _ => name = key
  | _ => false

def KeyedForm.close : KeyedForm → UInt8
  | .block _ => 0x7D
  | .anon _ _ => 0x5D

def hasSpan (s : Source) (b : KeyedBinding) : Bool :=
  decide (b.scopeStart ≤ b.closeOff) && decide (b.closeOff < s.src.length) &&
    peek s.src b.closeOff = KeyedForm.close b.form

def keyedBindings (s : Source) (op fieldPath : Bytes) : Except Bytes (List KeyedBinding) :=
  match s.keyedScopeEntries fieldPath with
  | .error problem => .error (text "pxf: " ++ op ++ text ": " ++ problem)
  | .ok (scope, key) =>
    let keyField := s.keyFieldOf fieldPath
    let bs := (scope.filterMap (bindingOf key keyField)).zipIdx.map fun b => b.1 b.2
    if bs.isEmpty then
      if keyField.isEmpty && scope.any (bindsList key) then
        .error (text "pxf: " ++ op ++ text ": " ++ goQuote fieldPath ++
          text " is written in the anonymous list form; declare its key field with " ++
          text "KeyedByField to edit it")
      else
        .error (text "pxf: " ++ op ++ text ": no keyed collection at " ++ goQuote fieldPath)
    else if bs.all s.hasSpan then .ok bs
    else
      .error (text "pxf: " ++ op ++ text ": binding at " ++ goQuote fieldPath ++
        text " has no source span")

def listMultiline (s : Source) (lv : ListVal) : Bool :=
  hasNewline (s.slice lv.span.pos.offset lv.span.stop.offset)

def listElementIndent (s : Source) (lv : ListVal) (scopeStart : Nat) : Bytes :=
  let fallback := s.lineLeadingIndent scopeStart ++ s.indentStep
  match lv.elements with
  | [] => fallback
  | first :: _ =>
    let p := first.span.pos.offset
    let ls := lineStartOffset s.src p
    if isBlankPad (s.slice ls p) then s.slice ls p else fallback

def listComma (s : Source) (from_ to_ : Nat) : Option Nat :=
  loop (fun i => to_ - i) (fun i =>
    let rest := s.slice i to_
    if to_ ≤ i then .done none
    else if peek rest 0 = 0x2C then .done (some i)
    else if opensLineComment rest then .next (i + spanLength (· ≠ 0x0A) rest)
    else if opensWith (text "/*") rest then
      match indexOf (text "*/") rest with
      | none => .done none
      | some n => .next (i + n + 2)
    else .next (i + 1)) (fun _ => none) from_

def elemSpan (lv : ListVal) (idx : Nat) : Span := (lv.elements.getD idx (.bad {})).span

def listElemComma (s : Source) (lv : ListVal) (idx : Nat) : Option Nat :=
  let limit := if idx + 1 < lv.elements.length then (elemSpan lv (idx + 1)).pos.offset
    else lv.span.stop.offset - 1
  s.listComma (elemSpan lv idx).stop.offset limit

def listElemTail (s : Source) (lv : ListVal) (idx : Nat) : Nat :=
  let stop := (elemSpan lv idx).stop.offset
  match s.listElemComma lv idx with
  | some comma => if hasNewline (s.slice stop comma) then stop else comma + 1
  | none => stop

def trailingComment (s : Source) (off : Nat) : TrailingCommentSpan :=
  let i := off + s.trailingListPad off
  let rest := s.src.drop i
  let found : Option ByteSpan × Nat :=
    if !rest.isEmpty && opensLineComment rest then (some ⟨i, s.endOfLine i⟩, s.endOfLine i)
    else if opensWith (text "/*") rest then
      match s.closesOnLine i with
      | some stop => (some ⟨i, stop⟩, stop + s.trailingListPad stop)
      | none => (none, i)
    else (none, i)
  if s.src.length ≤ found.2 ∨ peek s.src found.2 = 0x0A then ⟨found.1, some found.2⟩
  else ⟨none, none⟩

def gapHasComment (s : Source) (from_ to_ : Nat) : Bool :=
  (s.slice from_ to_).any fun c => !(c = 0x20 || c = 0x09 || c = 0x0A || c = 0x0D || c = 0x2C)

def padStart (s : Source) (ls start : Nat) : Nat :=
  start - spanLength isPad (s.slice ls start).reverse

def elementSpan (s : Source) (start tail : Nat) (lineEnd : Option Nat) : ByteSpan :=
  let ls := lineStartOffset s.src start
  match lineEnd with
  | none => ⟨start, tail + s.trailingListPad tail⟩
  | some lineEnd =>
    if !isBlankPad (s.slice ls start) then ⟨s.padStart ls start, lineEnd⟩
    else if lineEnd < s.src.length then ⟨ls, lineEnd + 1⟩
    else ⟨ls, lineEnd⟩

def apartComma (s : Source) (lv : ListVal) (idx : Nat) : List ByteSpan :=
  match s.listElemComma lv idx with
  | some comma =>
    if s.listElemTail lv idx ≤ comma then [⟨comma, comma + 1 + s.trailingListPad (comma + 1)⟩]
    else []
  | none =>
    if idx = 0 then []
    else
      match s.listComma (elemSpan lv (idx - 1)).stop.offset (elemSpan lv idx).pos.offset with
      | some prev => [⟨prev, prev + 1⟩]
      | none => []

def closesUp (s : Source) (lv : ListVal) (idx : Nat) : Bool :=
  (s.listElemComma lv idx).isNone && decide (0 < idx) &&
    (s.trailingComment (s.listElemTail lv idx)).comment.isNone &&
    (s.listComma (elemSpan lv (idx - 1)).stop.offset (elemSpan lv idx).pos.offset).isSome &&
    !s.gapHasComment (elemSpan lv (idx - 1)).stop.offset (elemSpan lv idx).pos.offset

def listElementRemovalSpans (s : Source) (lv : ListVal) (idx : Nat) (keepComment : Bool) :
    List ByteSpan :=
  let span := elemSpan lv idx
  let tail := s.listElemTail lv idx
  let tc := s.trailingComment tail
  if s.closesUp lv idx then
    [⟨(elemSpan lv (idx - 1)).stop.offset,
      span.stop.offset + s.trailingListPad span.stop.offset⟩]
  else
    s.apartComma lv idx ++
      [s.elementSpan span.pos.offset tail
        (if keepComment && tc.comment.isSome then none else tc.lineEnd)]

/-- `StageListRemoval`. -/
def listRemoval (pathKey : Bytes) (spans : List ByteSpan) : List SpanEdit :=
  spans.zipIdx.map fun span => ⟨pathKey ++ 0x00 :: decimal span.2, span.1.start, span.1.stop, []⟩

/-- `StageSplice`. -/
def spliceEdits (pathKey : Bytes) (ins : Insertion) : List SpanEdit :=
  ⟨pathKey, ins.at_, ins.at_, ins.text⟩ ::
    match ins.commaAt with
    | some comma => [⟨pathKey ++ 0x00 :: text "comma", comma, comma, [0x2C]⟩]
    | none => []

def renderListElement (s : Source) (b : KeyedBinding) (lv : ListVal) (v : Value) : Bytes :=
  s.renderValue v (s.listElementIndent lv b.scopeStart) s.indentStep

def spliceListElementAppend (s : Source) (b : KeyedBinding) (lv : ListVal)
    (elemText comment : Bytes) : Insertion :=
  let indent := s.listElementIndent lv b.scopeStart
  if lv.elements.isEmpty then
    { at_ := b.closeOff
      text := 0x0A :: indent ++ elemText ++ 0x0A :: s.lineLeadingIndent b.scopeStart }
  else
    let last := lv.elements.length - 1
    let lastEnd := (elemSpan lv last).stop.offset
    let comma := s.listElemComma lv last
    if !s.listMultiline lv then
      match comma with
      | some comma => { at_ := comma + 1, text := 0x20 :: elemText ++ [0x2C] }
      | none => { at_ := lastEnd, text := text ", " ++ elemText }
    else
      let after := match comma with
        | some comma => comma + 1
        | none => lastEnd
      let commentEnd := (s.trailingComment after).comment.map (·.stop)
      { at_ := commentEnd.getD after
        text := (if comma.isNone && commentEnd.isNone then [0x2C] else []) ++ 0x0A :: indent ++
          elemText ++ (if comma.isSome then [0x2C] else []) ++
          (if comment.isEmpty then [] else 0x20 :: comment)
        commaAt := if comma.isNone && commentEnd.isSome then some lastEnd else none }

def spliceListElementBefore (s : Source) (b : KeyedBinding) (lv : ListVal) (idx : Nat)
    (elemText comment : Bytes) : Insertion :=
  let target := (elemSpan lv idx).pos.offset
  let ls := lineStartOffset s.src target
  if s.listMultiline lv && isBlankPad (s.slice ls target) then
    { at_ := s.extendOverLeadingComments ls
      text := s.listElementIndent lv b.scopeStart ++ elemText ++ [0x2C] ++
        (if comment.isEmpty then [] else 0x20 :: comment) ++ [0x0A] }
  else { at_ := target, text := elemText ++ text ", " }

def keyedPath (editor : String) (parts : List Bytes) : Bytes :=
  0x00 :: text "keyed:" ++ text editor ++ text ":" ++ [0x00].intercalate parts

def renderAppendKeyedElement (s : Source) (b : KeyedBinding) (key : Bytes) (body : List Entry) :
    Insertion :=
  match b.form with
  | .anon lv keyField =>
    s.spliceListElementAppend b lv (s.renderListElement b lv (newAnonElement keyField key body)) []
  | .block entries =>
    s.renderAppendEntry b.scopeStart b.closeOff entries (newKeyedElementBlock key body)

def appendToLast (s : Source) (bs : List KeyedBinding) (key : Bytes) (body : List Entry) :
    Insertion :=
  match bs.getLast? with
  | some b => s.renderAppendKeyedElement b key body
  | none => { at_ := 0, text := [] }

def setKeyedEdits (s : Source) (fieldPath key subpath : Bytes) (v : Value) :
    Except Bytes (List SpanEdit) :=
  let op := text "SetKeyed " ++ fieldPath ++ text "[" ++ goQuote key ++ text "]." ++ subpath
  if containsBadVal v then
    .error (text "pxf: " ++ op ++ text ": cannot write a BadVal placeholder")
  else if key.isEmpty then .error (text "pxf: " ++ op ++ text ": empty key")
  else do
    let bs ← s.keyedBindings op fieldPath
    let pathKey := keyedPath "set" [fieldPath, key, subpath]
    match findKeyedElem bs key with
    | none => do
      let chain ← buildEntryChain op subpath v
      pure (spliceEdits pathKey (s.appendToLast bs key chain))
    | some elem => do
      let t ← resolveIn elem.body (some elem.containerOf) subpath
      s.setResolved op pathKey t v

def noElement (op key : Bytes) : Bytes := text "pxf: " ++ op ++ text ": no element " ++ goQuote key

def removeKeyedEdits (s : Source) (fieldPath key subpath : Bytes) :
    Except Bytes (List SpanEdit) := do
  let op := text "RemoveKeyed " ++ fieldPath ++ text "[" ++ goQuote key ++ text "]." ++ subpath
  let bs ← s.keyedBindings op fieldPath
  match findKeyedElem bs key with
  | none => .error (noElement op key)
  | some elem => do
    let t ← resolveIn elem.body (some elem.containerOf) subpath
    match t.entry with
    | none => .error (text "pxf: " ++ op ++ text ": no such entry")
    | some e => pure [s.removalEdit (keyedPath "rm" [fieldPath, key, subpath]) e]

def removeKeyedElementEdits (s : Source) (fieldPath key : Bytes) :
    Except Bytes (List SpanEdit) := do
  let op := text "RemoveKeyedElement " ++ fieldPath ++ text "[" ++ goQuote key ++ text "]"
  let bs ← s.keyedBindings op fieldPath
  let pathKey := keyedPath "rmel" [fieldPath, key]
  match findKeyedElem bs key with
  | none => .error (noElement op key)
  | some (.anon elem) =>
    pure (listRemoval pathKey (s.listElementRemovalSpans elem.list elem.idx false))
  | some (.block elem) => pure [s.removalEdit pathKey elem.node]

def renderInsertBlockElementBefore (s : Source) (siblings : List Entry) (anchor nb : Entry) :
    Insertion :=
  let start := anchor.span.pos.offset
  let ls := lineStartOffset s.src start
  if isBlankPad (s.slice ls start) then
    { at_ := s.extendOverLeadingComments ls
      text := renderEntryLines nb (s.slice ls start) (s.stepFor siblings) ++ [0x0A] }
  else { at_ := start, text := writeEntryInline nb ++ [0x20] }

def insertKeyedElementEdits (s : Source) (fieldPath key before : Bytes) (body : List Entry) :
    Except Bytes (List SpanEdit) :=
  let op := text "InsertKeyedElement " ++ fieldPath ++ text "[" ++ goQuote key ++ text "]"
  if key.isEmpty then .error (text "pxf: " ++ op ++ text ": empty key")
  else if anyEntryBadVal body then
    .error (text "pxf: " ++ op ++ text ": cannot write a BadVal placeholder")
  else do
    let bs ← s.keyedBindings op fieldPath
    if (findKeyedElem bs key).isSome then
      .error (text "pxf: " ++ op ++ text ": element " ++ goQuote key ++ text " already exists")
    else
      let pathKey := keyedPath "ins" [fieldPath, key]
      if before.isEmpty then pure (spliceEdits pathKey (s.appendToLast bs key body))
      else
        match findKeyedElem bs before with
        | none => .error (noElement op before ++ text " to insert before")
        | some (.anon anchor) =>
          let elemText := s.renderListElement anchor.b anchor.list
            (newAnonElement anchor.keyField key body)
          pure (spliceEdits pathKey
            (s.spliceListElementBefore anchor.b anchor.list anchor.idx elemText []))
        | some (.block anchor) =>
          pure (spliceEdits pathKey
            (s.renderInsertBlockElementBefore anchor.siblings anchor.node
              (newKeyedElementBlock key body)))

def renameKeyedElementEdits (s : Source) (fieldPath oldKey newKey : Bytes) :
    Except Bytes (List SpanEdit) :=
  let op := text "RenameKeyedElement " ++ fieldPath ++ text "[" ++ goQuote oldKey ++ text "]"
  if newKey.isEmpty then .error (text "pxf: " ++ op ++ text ": empty new key")
  else if newKey = oldKey then .ok []
  else do
    let bs ← s.keyedBindings op fieldPath
    match findKeyedElem bs oldKey with
    | none => .error (noElement op oldKey)
    | some elem =>
      if (findKeyedElem bs newKey).isSome then
        .error (text "pxf: " ++ op ++ text ": element " ++ goQuote newKey ++ text " already exists")
      else
        let pathKey := keyedPath "ren" [fieldPath, oldKey]
        match elem with
        | .anon elem =>
          match anonKeyAssignment elem.keyField elem.body with
          | none =>
            .error (text "pxf: " ++ op ++ text ": element has no " ++ goQuote elem.keyField ++
              text " assignment")
          | some value =>
            pure [⟨pathKey, value.span.pos.offset, value.span.stop.offset, goQuote newKey⟩]
        | .block elem =>
          let start := elem.node.span.pos.offset
          match nameTokenEnd s.src start with
          | none => .error (text "pxf: " ++ op ++ text ": element has no source span")
          | some stop =>
            pure [⟨pathKey, start, stop, spelled (!isIdentifierSafeEntryName newKey) newKey⟩]

def moveEdits (pathKey : Bytes) (start stop at_ : Nat) (moved : Bytes) : List SpanEdit :=
  [⟨pathKey, start, stop, []⟩, ⟨pathKey ++ 0x00 :: text "ins", at_, at_, moved⟩]

def endedWith (last : UInt8) (s : Bytes) : Bytes := if s.getLast? = some last then s else s ++ [last]

def moveBlockElementEdits (s : Source) (op fieldPath : Bytes) (elem : BlockElem)
    (anchor : Option BlockElem) : Except Bytes (List SpanEdit) :=
  let span := s.entryRemovalSpan elem.node
  let pathKey := keyedPath "mv" [fieldPath, elem.key]
  if span.wholeLines then
    let start := s.extendOverLeadingComments span.start
    let moved := endedWith 0x0A (s.slice start span.stop)
    match anchor with
    | some anchor =>
      let off := anchor.node.span.pos.offset
      let ls := lineStartOffset s.src off
      if isBlankPad (s.slice ls off) then
        .ok (moveEdits pathKey start span.stop (s.extendOverLeadingComments ls) moved)
      else .error (text "pxf: " ++ op ++ text ": anchor element does not start its own line")
    | none =>
      let above := s.aboveBrace elem.b.closeOff
      .ok (moveEdits pathKey start span.stop above.1 (above.2 ++ moved))
  else
    let moved := endedWith 0x20 (s.slice span.start span.stop)
    match anchor with
    | some anchor => .ok (moveEdits pathKey span.start span.stop anchor.node.span.pos.offset moved)
    | none =>
      .ok (moveEdits pathKey span.start span.stop elem.b.closeOff
        (s.padBefore elem.b.closeOff ++ moved))

def inPlace (elem : ListElem) : Option ListElem → Bool
  | none => elem.idx = elem.list.elements.length - 1
  | some anchor => anchor.b.id = elem.b.id && anchor.idx = elem.idx + 1

def onOwnLine (s : Source) (elem : ListElem) : Option ListElem → Bool
  | none => s.listMultiline elem.list
  | some anchor =>
    let p := (elemSpan anchor.list anchor.idx).pos.offset
    s.listMultiline anchor.list && isBlankPad (s.slice (lineStartOffset s.src p) p)

def moveListElementEdits (s : Source) (fieldPath : Bytes) (elem : ListElem)
    (anchor : Option ListElem) : List SpanEdit :=
  if inPlace elem anchor then []
  else
    let moved := s.slice elem.span.pos.offset elem.span.stop.offset
    let pathKey := keyedPath "mv" [fieldPath, elem.key]
    let own := s.onOwnLine elem anchor
    let comment :=
      if own then
        match (s.trailingComment (s.listElemTail elem.list elem.idx)).comment with
        | some c => s.slice c.start c.stop
        | none => []
      else []
    let ins := match anchor with
      | some anchor => s.spliceListElementBefore anchor.b anchor.list anchor.idx moved comment
      | none => s.spliceListElementAppend elem.b elem.list moved comment
    listRemoval pathKey (s.listElementRemovalSpans elem.list elem.idx (!own)) ++
      spliceEdits (pathKey ++ 0x00 :: text "ins") ins

def moveAnchor (op before : Bytes) (bs : List KeyedBinding) :
    Except Bytes (Option Rewriter.KeyedElem) :=
  if before.isEmpty then .ok none
  else
    match findKeyedElem bs before with
    | none => .error (noElement op before ++ text " to move before")
    | some anchor => .ok (some anchor)

def moveKeyedElementEdits (s : Source) (fieldPath key before : Bytes) :
    Except Bytes (List SpanEdit) :=
  let op := text "MoveKeyedElement " ++ fieldPath ++ text "[" ++ goQuote key ++ text "]"
  if before = key then
    .error (text "pxf: " ++ op ++ text ": cannot move an element before itself")
  else do
    let bs ← s.keyedBindings op fieldPath
    match findKeyedElem bs key with
    | none => .error (noElement op key)
    | some elem => do
      match elem, ← moveAnchor op before bs with
      | .anon elem, none => pure (s.moveListElementEdits fieldPath elem none)
      | .anon elem, some (.anon anchor) => pure (s.moveListElementEdits fieldPath elem (some anchor))
      | .block elem, none => s.moveBlockElementEdits op fieldPath elem none
      | .block elem, some (.block anchor) => s.moveBlockElementEdits op fieldPath elem (some anchor)
      | _, some _ =>
        .error (text "pxf: " ++ op ++ text ": element " ++ goQuote key ++ text " and anchor " ++
          goQuote before ++ text " are in different surface forms")

end Source

structure Rewriter extends Source where
  edits : List SpanEdit := []
  insertSeq : Nat := 0

namespace Rewriter

def new (src : Bytes) : Except Status Rewriter := do
  let doc ← parse src {}
  pure { src, doc }

def keyedByField (r : Rewriter) (fieldPath keyField : Bytes) : Rewriter :=
  { r with keyFields := (fieldPath, keyField) :: r.keyFields }

def stage (r : Rewriter) (edits : List SpanEdit) : Rewriter :=
  { r with edits := Edit.stageAll r.edits edits }

def set (r : Rewriter) (path : Bytes) (v : Value) : Except Bytes Rewriter :=
  r.stage <$> r.setEdits path v

def remove (r : Rewriter) (path : Bytes) : Except Bytes Rewriter := r.stage <$> r.removeEdits path

def replaceValue (r : Rewriter) (old with_ : Value) : Except Bytes Rewriter :=
  r.stage <$> r.replaceValueEdits old with_

def setSpan (r : Rewriter) (start stop : Int) (replacement : Bytes) : Except Bytes Rewriter :=
  r.stage <$> r.setSpanEdits start stop replacement

def setKeyed (r : Rewriter) (fieldPath key subpath : Bytes) (v : Value) : Except Bytes Rewriter :=
  r.stage <$> r.setKeyedEdits fieldPath key subpath v

def removeKeyed (r : Rewriter) (fieldPath key subpath : Bytes) : Except Bytes Rewriter :=
  r.stage <$> r.removeKeyedEdits fieldPath key subpath

def removeKeyedElement (r : Rewriter) (fieldPath key : Bytes) : Except Bytes Rewriter :=
  r.stage <$> r.removeKeyedElementEdits fieldPath key

def insertKeyedElement (r : Rewriter) (fieldPath key before : Bytes) (body : List Entry) :
    Except Bytes Rewriter :=
  r.stage <$> r.insertKeyedElementEdits fieldPath key before body

def renameKeyedElement (r : Rewriter) (fieldPath oldKey newKey : Bytes) : Except Bytes Rewriter :=
  r.stage <$> r.renameKeyedElementEdits fieldPath oldKey newKey

def moveKeyedElement (r : Rewriter) (fieldPath key before : Bytes) : Except Bytes Rewriter :=
  r.stage <$> r.moveKeyedElementEdits fieldPath key before

/-- `AppendEntry` into a block of the document. Every call has an identity of its own. -/
def appendEntry (r : Rewriter) (span : Span) (name : Bytes) (entries : List Entry) (e : Entry) :
    Except Bytes Rewriter := do
  let ins ← r.appendEntryInsertion span name entries e
  let seq := r.insertSeq + 1
  let path := 0x00 :: text "insert#" ++ decimal seq
  pure { r.stage [⟨path, ins.at_, ins.at_, ins.text⟩] with insertSeq := seq }

/-- `Status::ToString`. -/
def statusText (failure : Status) : Bytes :=
  if 0 < failure.line then
    decimal failure.line ++ text ":" ++ decimal failure.column ++ text ": " ++ failure.message
  else failure.message

/-- The last step of `Bytes`: the text has to parse. -/
def reparsed (out : Bytes) : Except Bytes Bytes :=
  match parse out {} with
  | .ok _ => .ok out
  | .error failure =>
    .error (text "pxf: rewrite produced an invalid document: " ++ statusText failure)

def bytes (r : Rewriter) : Except Bytes Bytes :=
  if r.edits.isEmpty then .ok r.src
  else
    let edits := Edit.sorted r.edits
    match Edit.firstClash edits with
    | some (a, b) =>
      .error (text "pxf: conflicting edits: " ++ a.path ++ text " overlaps " ++ b.path)
    | none => reparsed (Edit.splice r.src 0 edits)

end Rewriter

end Protowire.Pxf
