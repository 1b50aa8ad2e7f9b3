import Protowire.Pxf.DocumentCore
import Protowire.Pxf.Reading

/-!
What every function of the parser is composed of: reading a token, filing comments, recording an
error and going on from another place of the input. So an invariant is checked on these only.
-/

namespace Protowire.Pxf

open Support

variable {α : Type} {inner : Option Nested}

inductive ParserStep : (α : Type) → ParserM α → Prop
  | advance : ParserStep _ advance
  | flushComments : ParserStep _ flushComments
  | restoreComments (comments : List Comment) : ParserStep _ (restoreComments comments)
  | takeTrailingComment (stop : Position) : ParserStep _ (takeTrailingComment stop)
  | err {α : Type} (pos : Position) (msg : Bytes) : ParserStep α (err pos msg)
  | report (pos : Position) (msg : Bytes) : ParserStep _ (report pos msg)
  | reposition (target : Nat) :
      ParserStep _ (modify fun p => { p with lex := p.lex.repositionTo target })

abbrev Stepwise (program : ParserM α) : Prop := Composed ParserStep program

def NestedStepwise (inner : Option Nested) : Prop :=
  ∀ nested, inner = some nested → Stepwise nested.value ∧ Stepwise nested.body

structure ParserOrder (relation : Parser → Parser → Prop) : Prop where
  refl : ∀ p, relation p p
  trans : ∀ p q r, relation p q → relation q r → relation p r
  advanced : ∀ p, relation p p.advanced
  comments : ∀ p comments, relation p { p with comments }
  errs : ∀ p found, relation p { p with errs := p.errs ++ [found] }
  errPos : ∀ p errPos, relation p { p with errPos }
  reposition : ∀ p target, relation p { p with lex := p.lex.repositionTo target }

theorem ParserStep.keeps {relation : Parser → Parser → Prop} (order : ParserOrder relation)
    {program : ParserM α} (step : ParserStep α program) : Keeps relation program := by
  intro p
  cases step with
  | advance => exact order.advanced p
  | flushComments => exact order.comments p []
  | restoreComments comments => exact order.comments p _
  | takeTrailingComment stop =>
    unfold Pxf.takeTrailingComment
    split
    · exact order.refl p
    · split
      · exact order.refl p
      · exact order.comments p _
  | err pos msg => exact order.errPos p pos
  | report pos msg => exact order.errs p _
  | reposition target => exact order.reposition p target

theorem Stepwise.keeps {relation : Parser → Parser → Prop} (order : ParserOrder relation)
    {program : ParserM α} (stepwise : Stepwise program) : Keeps relation program :=
  Composed.keeps order.refl order.trans (ParserStep.keeps order) stepwise

theorem soft_stepwise (pos : Position) (msg : Bytes) : Stepwise (soft pos msg) := by
  refine .get fun p => ?_
  split
  · exact .step (.report pos msg)
  · exact .step (.err pos msg)

theorem softWhen_stepwise (condition : Bool) (pos : Position) (msg : Bytes) :
    Stepwise (softWhen condition pos msg) := by
  unfold softWhen
  split
  · exact soft_stepwise _ _
  · exact .pure _

theorem advanceWhen_stepwise (condition : Bool) : Stepwise (advanceWhen condition) := by
  unfold advanceWhen
  split
  · exact .step .advance
  · exact .pure _

theorem skipTurn_stepwise (opener closer : TokenKind) (depth : Nat) :
    Stepwise (skipTurn opener closer depth) := by
  have step : ∀ turn : Turn Nat Position, Stepwise (do advance; pure turn : ParserM _) :=
    fun turn => .bind (.step .advance) fun _ => .pure turn
  refine .get fun p => ?_
  split
  · exact step _
  · split
    · split <;> exact step _
    · split
      · exact .pure _
      · exact step _

theorem skipBalanced_stepwise (opener closer : TokenKind) : Stepwise (skipBalanced opener closer) :=
  .loop (skipTurn_stepwise opener closer) 0

theorem literal_stepwise (build : Span → Value) : Stepwise (literal build) :=
  .get fun _ => .bind (.step .advance) fun _ => .pure _

theorem keepElement_stepwise (elements : List Value) (before : Nat) (element : Value) :
    Stepwise (keepElement elements before element) := by
  refine .get fun q => ?_
  split
  · exact .pure _
  · exact .bind (advanceWhen_stepwise _) fun _ => .pure _

theorem listTurn_stepwise {value : ParserM Value} (kept : Stepwise value)
    (elements : List Value) : Stepwise (listTurn value elements) := by
  refine .get fun p => ?_
  split
  · exact .pure _
  · exact .bind kept fun _ => keepElement_stepwise _ _ _

theorem closeList_stepwise (pos : Position) (elements : List Value) :
    Stepwise (closeList pos elements) := by
  refine .get fun q => ?_
  split
  · exact .bind (soft_stepwise _ _) fun _ => .pure _
  · exact .bind (.step .advance) fun _ => .pure _

theorem tooDeep_stepwise (pos : Position) (msg : Bytes) (opener closer : TokenKind)
    (build : Position → α) :
    Stepwise (do soft pos msg; let stop ← skipBalanced opener closer; pure (build stop)) :=
  .bind (soft_stepwise pos msg) fun _ =>
    .bind (skipBalanced_stepwise opener closer) fun _ => .pure _

theorem parseList_stepwise (nested : NestedStepwise inner) : Stepwise (parseList inner) := by
  refine .get fun p => ?_
  split
  · exact tooDeep_stepwise _ _ _ _ _
  · rename_i deeper
    refine .bind (.step .advance) fun _ => ?_
    exact .bind (.loop (listTurn_stepwise (nested deeper rfl).1) [])
      fun elements => closeList_stepwise _ _

theorem parseBlockVal_stepwise (nested : NestedStepwise inner) :
    Stepwise (parseBlockVal inner) := by
  refine .get fun p => ?_
  split
  · exact tooDeep_stepwise _ _ _ _ _
  · rename_i deeper
    exact .bind (.step .advance) fun _ => .bind (nested deeper rfl).2 fun _ => .pure _

theorem parseBytesVal_stepwise : Stepwise parseBytesVal := by
  refine .get fun p => ?_
  split
  · exact literal_stepwise _
  · exact .bind (soft_stepwise _ _) fun _ => .bind (.step .advance) fun _ => .pure _

theorem parseNoValue_stepwise : Stepwise parseNoValue := by
  refine .get fun p => ?_
  split
  · exact .step (.err _ _)
  · refine .bind (.step (.report _ _)) fun _ => ?_
    split
    case h_5 => exact .bind (.step .advance) fun _ => .pure _
    all_goals exact .pure _

theorem parseValue_stepwise (nested : NestedStepwise inner) : Stepwise (parseValue inner) := by
  refine .get fun p => ?_
  split
  · exact .bind (.step (.report _ _)) fun _ => .pure _
  · split
    all_goals first
      | exact literal_stepwise _
      | exact parseBytesVal_stepwise
      | exact parseList_stepwise nested
      | exact parseBlockVal_stepwise nested
      | exact parseNoValue_stepwise

theorem skipTypeEntry_stepwise (kinds : List TokenKind) : Stepwise (skipTypeEntry kinds) := by
  induction kinds with
  | nil => exact .pure _
  | cons kind kinds ih =>
    exact .get fun p => .bind (advanceWhen_stepwise _) fun _ => ih

theorem typeEntryFail_stepwise (leading : List Comment) (pos : Position) (msg : Bytes) :
    Stepwise (typeEntryFail leading pos msg) := by
  refine .get fun p => ?_
  split
  · exact .step (.err _ _)
  · exact .bind (.step (.report _ _)) fun _ => .bind (.step (.restoreComments _)) fun _ =>
        .bind (skipTypeEntry_stepwise _) fun _ => .pure _

theorem parseTypeUrl_stepwise (leading : List Comment) (pos : Position) :
    Stepwise (parseTypeUrl leading pos) := by
  refine .get fun r => ?_
  split
  · exact typeEntryFail_stepwise _ _ _
  · exact .bind (.step .advance) fun _ => .bind (.step (.takeTrailingComment _)) fun _ => .pure _

theorem parseTypeEntry_stepwise (first : Bool) : Stepwise (parseTypeEntry first) := by
  refine .bind (.step .flushComments) fun leading => .get fun p => ?_
  split
  · exact typeEntryFail_stepwise _ _ _
  · refine .bind (.step .advance) fun _ => .get fun q => ?_
    split
    · exact typeEntryFail_stepwise _ _ _
    · exact .bind (.step .advance) fun _ => parseTypeUrl_stepwise _ _

theorem valueEntry_stepwise (nested : NestedStepwise inner) (build : Value → Bytes → Entry) :
    Stepwise (do
      advance
      let value ← parseValue inner
      let trailing ← takeTrailingComment value.span.stop
      pure (build value trailing)) :=
  .bind (.step .advance) fun _ => .bind (parseValue_stepwise nested) fun _ =>
    .bind (.step (.takeTrailingComment _)) fun _ => .pure _

theorem parseAssignment_stepwise (nested : NestedStepwise inner) (key : Key) :
    Stepwise (parseAssignment inner key) :=
  .bind (softWhen_stepwise _ _ _) fun _ => valueEntry_stepwise nested _

theorem parseMapEntry_stepwise (nested : NestedStepwise inner) (allowMapEntry : Bool) (key : Key) :
    Stepwise (parseMapEntry inner allowMapEntry key) :=
  .bind (softWhen_stepwise _ _ _) fun _ => .bind (softWhen_stepwise _ _ _) fun _ =>
    valueEntry_stepwise nested _

theorem parseBlock_stepwise (nested : NestedStepwise inner) (key : Key) :
    Stepwise (parseBlock inner key) := by
  refine .bind (softWhen_stepwise _ _ _) fun _ => .get fun p => ?_
  split
  · exact tooDeep_stepwise _ _ _ _ _
  · rename_i deeper
    exact .bind (.step .advance) fun _ => .bind (nested deeper rfl).2 fun _ => .pure _

theorem parseDangling_stepwise (key : Key) : Stepwise (parseDangling key) :=
  .get fun _ => .bind (soft_stepwise _ _) fun _ => .pure _

theorem parseNoEntry_stepwise (leading : List Comment) : Stepwise (parseNoEntry leading) := by
  refine .get fun p => ?_
  split
  · exact .step (.err _ _)
  · exact .bind (.step (.report _ _)) fun _ => .bind (.step (.restoreComments _)) fun _ =>
        .bind (.step .advance) fun _ => .pure _

theorem parseTail_stepwise (nested : NestedStepwise inner) (allowMapEntry : Bool) (key : Key) :
    Stepwise (parseTail inner allowMapEntry key) := by
  refine .get fun q => ?_
  split
  · exact .map (parseAssignment_stepwise nested key)
  · exact .map (parseMapEntry_stepwise nested allowMapEntry key)
  · exact .map (parseBlock_stepwise nested key)
  · exact .map (parseDangling_stepwise key)

theorem parseEntry_stepwise (nested : NestedStepwise inner) (allowMapEntry : Bool) :
    Stepwise (parseEntry inner allowMapEntry) := by
  refine .bind (.step .flushComments) fun leading => .get fun p => ?_
  split
  · exact .bind (.step .advance) fun _ => parseTail_stepwise nested _ _
  · exact parseNoEntry_stepwise leading

theorem parseBodyEntry_stepwise (nested : NestedStepwise inner) (first : Bool) :
    Stepwise (parseBodyEntry inner first) := by
  refine .get fun p => ?_
  split
  · exact parseTypeEntry_stepwise first
  · exact parseEntry_stepwise nested true

theorem bodyTurn_stepwise (nested : NestedStepwise inner) (entries : List Entry) :
    Stepwise (bodyTurn inner entries) := by
  refine .get fun p => ?_
  split
  · exact .pure _
  · exact .bind (parseBodyEntry_stepwise nested _) fun _ => .pure _

theorem closeBody_stepwise (entries : List Entry) : Stepwise (closeBody entries) := by
  refine .bind (.step .flushComments) fun trailing => .get fun p => ?_
  split
  · split
    · exact .step (.err _ _)
    · exact .bind (.step (.report _ _)) fun _ => .pure _
  · exact .bind (.step .advance) fun _ => .pure _

theorem parseBody_stepwise (nested : NestedStepwise inner) : Stepwise (parseBody inner) :=
  .bind (.loop (bodyTurn_stepwise nested) []) fun _ => closeBody_stepwise _

theorem parseNested_stepwise (room : Nat) : NestedStepwise (parseNested room) := by
  induction room with
  | zero => intro nested found; cases found
  | succ room ih =>
    intro nested found
    cases found
    exact ⟨parseValue_stepwise ih, parseBody_stepwise ih⟩

theorem syncTopLevel_stepwise : Stepwise syncTopLevel := by
  refine .loop (fun _ => .get fun p => ?_) ()
  split
  case h_9 => exact .bind (.step .advance) fun _ => .pure _
  all_goals exact .pure _

theorem prefixTurn_stepwise (read : List Bytes × Nat) : Stepwise (prefixTurn read) := by
  refine .get fun p => ?_
  split
  · exact .bind (.step .advance) fun _ => .pure _
  · exact .pure _

theorem parsePrefixes_stepwise : Stepwise parsePrefixes :=
  .get fun _ => .bind (.step .advance) fun _ => .loop (prefixTurn_stepwise) _

theorem parseDirectiveBody_stepwise (nested : NestedStepwise inner) (pos : Position)
    (name : Bytes) (leading : List Comment) (read : List Bytes × Nat) :
    Stepwise (parseDirectiveBody inner pos name leading read) := by
  refine .get fun q => ?_
  split
  · refine .bind (parseBlockVal_stepwise nested) fun _ => ?_
    split
    · exact .step (.err _ _)
    · exact .pure _
  · exact .pure _

theorem parseDirective_stepwise (nested : NestedStepwise inner) : Stepwise (parseDirective inner) :=
  .bind (.step .flushComments) fun _ => .get fun _ => .bind (softWhen_stepwise _ _ _) fun _ =>
      .bind (parsePrefixes_stepwise) fun _ => parseDirectiveBody_stepwise nested _ _ _ _

theorem parseRowCell_stepwise (nested : NestedStepwise inner) : Stepwise (parseRowCell inner) := by
  refine .get fun p => ?_
  split
  · exact .pure _
  · refine .bind (.step .flushComments) fun pending => ?_
    refine .bind (.attempt (parseValue_stepwise nested)) fun outcome => ?_
    split
    · exact .bind (.step (.restoreComments _)) fun _ => .pure _
    · exact .bind (.step (.restoreComments _)) fun _ => .throw _

theorem cellTurn_stepwise (nested : NestedStepwise inner) (cells : List (Option Value)) :
    Stepwise (cellTurn inner cells) := by
  refine .get fun p => ?_
  split
  · exact .bind (.step .advance) fun _ => .bind (parseRowCell_stepwise nested) fun _ => .pure _
  · exact .pure _

theorem closeRow_stepwise (pos : Position) (leading : List Comment) (expected : Nat)
    (readPast : Bool) (cells : List (Option Value)) :
    Stepwise (closeRow pos leading expected readPast cells) := by
  refine .get fun p => ?_
  split
  · exact .step (.err _ _)
  · refine .bind (.step .flushComments) fun inside => ?_
    refine .bind (advanceWhen_stepwise _) fun _ => ?_
    split
    · exact .step (.err _ _)
    · exact .pure _

theorem parseTableRow_stepwise (nested : NestedStepwise inner) (expected : Nat) (readPast : Bool) :
    Stepwise (parseTableRow inner expected readPast) :=
  .get fun _ => .bind (.step .flushComments) fun _ => .bind (.step .advance) fun _ =>
      .bind (parseRowCell_stepwise nested) fun _ =>
        .bind (.loop (cellTurn_stepwise nested) _) fun _ => closeRow_stepwise _ _ _ _ _

theorem columnTurn_stepwise (columns : List (Bytes × Position)) :
    Stepwise (columnTurn columns) := by
  refine .get fun p => ?_
  split
  · exact .step (.err _ _)
  · refine .bind (.step .advance) fun _ => .get fun q => ?_
    split
    · exact .bind (.step .advance) fun _ => .pure _
    · split
      · exact .pure _
      · exact .step (.err _ _)

theorem parseColumns_stepwise : Stepwise parseColumns := by
  refine .get fun p => ?_
  split
  · exact .step (.err _ _)
  · refine .bind (.loop (columnTurn_stepwise) []) fun columns => ?_
    split
    · exact .step (.err _ _)
    · exact .pure _

theorem rowTurn_stepwise (nested : NestedStepwise inner) (expected : Nat)
    (read : List DatasetRow × Nat) : Stepwise (rowTurn inner expected read) := by
  refine .get fun p => ?_
  split
  · exact .bind (parseTableRow_stepwise nested _ _) fun _ => .pure _
  · exact .pure _

theorem parseRowType_stepwise : Stepwise parseRowType := by
  refine .get fun p => ?_
  split
  · exact .bind (.step .advance) fun _ => .pure _
  · exact .pure _

theorem parseColumnList_stepwise : Stepwise parseColumnList := by
  refine .get fun q => ?_
  split
  · exact .step (.err _ _)
  · exact .bind (.step .advance) fun _ => parseColumns_stepwise

theorem parseTableHeader_stepwise : Stepwise parseTableHeader :=
  .bind (parseRowType_stepwise) fun _ => .bind (parseColumnList_stepwise) fun _ => .pure _

theorem parseTableRows_stepwise (nested : NestedStepwise inner) (expected : Nat) :
    Stepwise (parseTableRows inner expected) :=
  .get fun _ => .bind (.step .advance) fun _ => .loop (rowTurn_stepwise nested _) _

theorem parseTableDirective_stepwise (nested : NestedStepwise inner) :
    Stepwise (parseTableDirective inner) :=
  .bind (.step .flushComments) fun _ => .get fun _ => .bind (.step .advance) fun _ =>
      .bind (parseTableHeader_stepwise) fun _ =>
        .bind (parseTableRows_stepwise nested _) fun _ => .pure _

theorem parseTypeName_stepwise (doc : Document) : Stepwise (parseTypeName doc) := by
  refine .get fun p => ?_
  split
  · exact .bind (soft_stepwise _ _) fun _ => .bind (syncTopLevel_stepwise) fun _ => .pure _
  · exact .bind (.step .advance) fun _ => .pure _

theorem parseTypeDirective_stepwise (doc : Document) : Stepwise (parseTypeDirective doc) :=
  .bind (.step .advance) fun _ => parseTypeName_stepwise doc

theorem recover_stepwise (failure : Status) (skip : Document) :
    Stepwise (recover failure skip) := by
  refine .get fun p => ?_
  split
  · exact .throw _
  · exact .bind (.step (.report _ _)) fun _ => .bind (syncTopLevel_stepwise) fun _ => .pure _

theorem recovering_stepwise {directive : ParserM α} (kept : Stepwise directive)
    (keep : α → Document) (skip : Document) : Stepwise (recovering directive keep skip) := by
  refine .bind (.attempt kept) fun outcome => ?_
  split
  · exact .pure _
  · exact recover_stepwise _ _

theorem checkStandalone_stepwise (doc : Document) : Stepwise (checkStandalone doc) := by
  unfold checkStandalone
  split
  · exact .pure _
  · exact .bind (softWhen_stepwise _ _ _) fun _ => .get fun _ => softWhen_stepwise _ _ _

theorem entryTurn_stepwise (nested : NestedStepwise inner) (entries : List Entry) :
    Stepwise (entryTurn inner entries) := by
  refine .get fun p => ?_
  split
  · exact .pure _
  · exact .bind (parseEntry_stepwise nested false) fun _ => .pure _

theorem captureBraceBody_stepwise (label : Bytes) : Stepwise (captureBraceBody label) := by
  refine .get fun p => ?_
  split
  · exact .step (.err _ _)
  · exact .bind (.step (.reposition _)) fun _ => .bind (.step .advance) fun _ => .pure _

theorem parseProtoNamed_stepwise (pos : Position) (leading : List Comment) (name : Bytes) :
    Stepwise (parseProtoNamed pos leading name) := by
  refine .get fun q => ?_
  split
  · exact .step (.err _ _)
  · exact .bind (captureBraceBody_stepwise _) fun _ => .pure _

theorem parseProtoBody_stepwise (pos : Position) (leading : List Comment) :
    Stepwise (parseProtoBody pos leading) := by
  refine .get fun p => ?_
  split
  · exact .bind (captureBraceBody_stepwise _) fun _ => .pure _
  · exact .bind (.step .advance) fun _ => parseProtoNamed_stepwise _ _ _
  · exact .bind (.step .advance) fun _ => .pure _
  · split
    · exact .step (.err _ _)
    · exact .bind (.step .advance) fun _ => .pure _
  · exact .step (.err _ _)

theorem parseProtoDirective_stepwise : Stepwise parseProtoDirective :=
  .bind (.step .flushComments) fun _ => .get fun _ =>
    .bind (.step .advance) fun _ => parseProtoBody_stepwise _ _

theorem directiveTurn_stepwise (nested : NestedStepwise inner) (doc : Document) :
    Stepwise (directiveTurn inner doc) := by
  refine .get fun p => ?_
  split
  · exact .map (parseTypeDirective_stepwise doc)
  · exact .map (recovering_stepwise (parseDirective_stepwise nested) _ _)
  · exact .map (recovering_stepwise (parseTableDirective_stepwise nested) _ _)
  · exact .map (recovering_stepwise (parseProtoDirective_stepwise) _ _)
  · exact .pure _

end Protowire.Pxf
