import Protowire.Pxf.Reading
import Protowire.Pxf.UnmarshalCore

/-!
Relations every decode keeps. As for the parser, a preorder that the primitives move along is
one every function of the decoder moves along.
-/

namespace Protowire.Pxf

open Support

variable {α : Type} {deeper : Deeper}

def Event.isLiteral : Event → Bool
  | .bigInt _ _ | .decimal _ _ => true
  | _ => false

namespace Decoder

inductive DecoderStep (ctx : Context) : (α : Type) → DecoderM α → Prop
  | advance : DecoderStep ctx _ advance
  | skipValue (room : Nat) : DecoderStep ctx _ (skipValue room)
  | passTypeName (t : Token) : DecoderStep ctx _ (record [.passedTypeName t])
  | decodeLiteral (type : Nat) (fd : FieldDescriptor) (sub : Message) :
      DecoderStep ctx _ (decodeLiteral ctx type fd sub)
  | consumeBlock (room : Nat) (dir : Directive) : DecoderStep ctx _ (consumeBlock room dir)
  | parseDatasetAt (maxDepth : Nat) : DecoderStep ctx _ (parseDatasetAt maxDepth)
  | captureBraces (pos : Position) (label : Bytes) : DecoderStep ctx _ (captureBraces pos label)

abbrev Stepwise (ctx : Context) (program : DecoderM α) : Prop :=
  Composed (DecoderStep ctx) program

structure DeeperStepwise (ctx : Context) (deeper : Deeper) : Prop where
  body : ∀ type ke msg, Stepwise ctx (deeper.body type ke msg)
  element : ∀ fd msg, Stepwise ctx (deeper.element fd msg)
  mapEntry : ∀ fd s, Stepwise ctx (deeper.mapEntry fd s)
  keyedEntry : ∀ fd type key read, Stepwise ctx (deeper.keyedEntry fd type key read)

def InnerStepwise (ctx : Context) (inner : Option Deeper) : Prop :=
  ∀ deeper, inner = some deeper → DeeperStepwise ctx deeper

structure DecoderOrder (ctx : Context) (relation : Decoder → Decoder → Prop) : Prop where
  refl : ∀ d, relation d d
  trans : ∀ d e f, relation d e → relation e f → relation d f
  moved : ∀ d lex current, relation d { d with lex, current }
  literal : ∀ d (type : Nat) fd sub found events,
    literalOf ctx.host ctx.limits base64DecodeLenient (ctx.pool.message type) fd sub d.current =
      .ok (some (found, events)) → relation d { d with trace := d.trace ++ events }
  passed : ∀ d event, event.isLiteral = false →
    relation d { d with trace := d.trace ++ [event] }

theorem walk_trace (opener closer : TokenKind) (depth : Nat) (d : Decoder) :
    (walk opener closer depth d).2.trace = d.trace := by
  refine iterate_induct (fun (s : Nat × Decoder) (r : Option Nat × Decoder) =>
    r.2.trace = s.2.trace) (fun _ => rfl) ?_ ?_ _ (depth, d)
  · intro s following result turned kept
    rw [kept]
    simp only [walkTurn] at turned
    split_ifs at turned <;> cases turned <;> rfl
  · intro s result turned
    simp only [walkTurn] at turned
    split_ifs at turned <;> cases turned <;> rfl

theorem skipped_trace (d : Decoder) : (skipped d).trace = d.trace := by
  unfold skipped
  split
  · exact walk_trace _ _ _ _
  · exact walk_trace _ _ _ _
  · rfl

section

variable {ctx : Context} {relation : Decoder → Decoder → Prop} (order : DecoderOrder ctx relation)

include order

theorem moved_keeps {d e : Decoder} (same : e.trace = d.trace) : relation d e := by
  have moved := order.moved d e.lex e.current
  rwa [← same] at moved

theorem decodeLiteral_keeps (type : Nat) (fd : FieldDescriptor) (sub : Message) :
    Keeps relation (decodeLiteral ctx type fd sub) := by
  intro d
  rw [decodeLiteral, run_get]
  cases read : literalOf ctx.host ctx.limits base64DecodeLenient (ctx.pool.message type) fd sub
      d.current with
  | error msg => exact order.refl d
  | ok found =>
    cases found with
    | none => exact order.refl d
    | some found =>
      obtain ⟨sub', events⟩ := found
      have recorded := order.literal d type fd sub sub' events read
      exact order.trans _ _ _ recorded (order.moved _ _ _)

theorem walked_keeps (d : Decoder) {found : Option Nat} {after : Decoder}
    (walked : walk .lBrace .rBrace 1 d.advanced = (found, after)) : relation d after := by
  refine moved_keeps order ?_
  have kept := walk_trace .lBrace .rBrace 1 d.advanced
  rw [walked] at kept
  exact kept

theorem consumeBlock_keeps (room : Nat) (dir : Directive) :
    Keeps relation (consumeBlock room dir) := by
  intro d
  rw [consumeBlock]
  split
  · split
    · rename_i close after walked
      exact order.trans _ _ _ (walked_keeps order d walked) (order.passed _ _ rfl)
    · rename_i after walked
      exact walked_keeps order d walked
  · exact order.refl d

theorem captureBraces_keeps (pos : Position) (label : Bytes) :
    Keeps relation (captureBraces pos label) := by
  intro d
  rw [captureBraces]
  split
  · rename_i close after walked
    exact order.trans _ _ _ (walked_keeps order d walked) (order.passed _ _ rfl)
  · rename_i after walked
    exact walked_keeps order d walked

theorem DecoderStep.keeps {program : DecoderM α} (step : DecoderStep ctx α program) :
    Keeps relation program := by
  intro d
  cases step with
  | advance => exact order.moved d _ _
  | skipValue room =>
    have passed := order.passed d (.passedValue d.lex d.current room) rfl
    exact order.trans _ _ _ passed (moved_keeps order (skipped_trace _))
  | passTypeName t => exact order.passed d _ rfl
  | decodeLiteral type fd sub => exact decodeLiteral_keeps order type fd sub d
  | consumeBlock room dir => exact consumeBlock_keeps order room dir d
  | parseDatasetAt maxDepth =>
    unfold Decoder.parseDatasetAt
    split <;> exact order.moved _ _ _
  | captureBraces pos label => exact captureBraces_keeps order pos label d

theorem Stepwise.keeps {program : DecoderM α} (stepwise : Stepwise ctx program) :
    Keeps relation program :=
  Composed.keeps order.refl order.trans (DecoderStep.keeps order) stepwise

end

section

variable {ctx : Context}

theorem advanceWhen_stepwise (condition : Bool) : Stepwise ctx (advanceWhen condition) := by
  unfold advanceWhen
  split
  · exact .step .advance
  · exact .pure _

theorem orFail_stepwise (pos : Position) (outcome : Except Bytes α) :
    Stepwise ctx (orFail pos outcome) := by
  cases outcome with
  | ok result => exact .pure result
  | error msg => exact .throw _

theorem checkLegal_stepwise : Stepwise ctx checkLegal := by
  refine .get fun d => ?_
  split
  · exact .throw _
  · exact .pure _

theorem consumeScalar_stepwise (fd named : FieldDescriptor) (repeated : Bool) (msg : Message) :
    Stepwise ctx (consumeScalar ctx fd named repeated msg) :=
  .get fun _ => .bind (orFail_stepwise _ _) fun _ => .bind (.step .advance) fun _ => .pure _

theorem descend_then {inner : Option Deeper} {next : Deeper → DecoderM α}
    (kept : InnerStepwise ctx inner)
    (second : ∀ deeper, DeeperStepwise ctx deeper → Stepwise ctx (next deeper)) :
    Stepwise ctx (descend ctx inner >>= next) := by
  cases inner with
  | none =>
    change Stepwise ctx (do let d ← get; fail d.current.pos (depthExceeded ctx.limits.maxDepth))
    exact .get fun _ => .throw _
  | some deeper =>
    change Stepwise ctx (do let _ ← get; next deeper)
    exact .get fun _ => second deeper (kept deeper rfl)

section

variable {inner : Option Deeper} (kept : InnerStepwise ctx inner)

include kept

theorem decodeBody_stepwise (type : Nat) (ke : Option KeyedElem) (sub : Message) :
    Stepwise ctx (decodeBody ctx inner type ke sub) :=
  descend_then kept fun _ deeper => deeper.body type ke sub

theorem decodeAnyBody_stepwise (anyType : Nat) (ke : Option KeyedElem) (sub : Message) (url : Bytes)
    (pos : Position) : Stepwise ctx (decodeAnyBody ctx inner anyType ke sub url pos) := by
  unfold decodeAnyBody
  split
  · exact .throw _
  · split
    · exact .throw _
    · exact .bind (decodeBody_stepwise kept _ _ _) fun _ => .pure _

theorem decodeAnyInner_stepwise (anyType : Nat) (ke : Option KeyedElem) (sub : Message) :
    Stepwise ctx (decodeAnyInner ctx inner anyType ke sub) := by
  refine .bind (.step .advance) fun _ => .get fun d => ?_
  split
  · exact .throw _
  · refine .bind (.step .advance) fun _ => .get fun e => ?_
    split
    · exact .throw _
    · exact .bind (.step .advance) fun _ => decodeAnyBody_stepwise kept _ _ _ _ _

theorem decodeBlock_stepwise (type : Nat) (ke : Option KeyedElem) (sub : Message) :
    Stepwise ctx (decodeBlock ctx inner type ke sub) := by
  refine .get fun d => ?_
  split
  · exact decodeAnyInner_stepwise kept _ _ _
  · exact decodeBody_stepwise kept _ _ _

theorem decodeMessage_stepwise (type : Nat) (fd : FieldDescriptor) (place : Bytes)
    (ke : Option KeyedElem) (sub : Message) :
    Stepwise ctx (decodeMessage ctx inner type fd place ke sub) := by
  refine .bind (.step (.decodeLiteral _ _ _)) fun found => ?_
  cases found with
  | some sub => exact .pure sub
  | none =>
    refine .get fun d => ?_
    split
    · exact .throw _
    · exact .bind (.step .advance) fun _ => decodeBlock_stepwise kept _ _ _

theorem decodeElement_stepwise (fd : FieldDescriptor) (msg : Message) :
    Stepwise ctx (decodeElement ctx inner fd msg) := by
  unfold decodeElement
  split
  · exact .bind (decodeMessage_stepwise kept _ _ _ _ _) fun _ => .pure _
  · exact consumeScalar_stepwise _ _ _ _

omit kept in
theorem checkElement_stepwise (fd : FieldDescriptor) (msg : Message) :
    Stepwise ctx (checkElement ctx fd msg) := by
  refine .bind (checkLegal_stepwise) fun _ => .get fun d => ?_
  refine .bind (orFail_stepwise _ _) fun _ => ?_
  split
  · exact .throw _
  · exact .pure _

omit kept in
theorem listTurn_stepwise (below : DeeperStepwise ctx deeper) (fd : FieldDescriptor) (msg : Message) :
    Stepwise ctx (listTurn ctx deeper fd msg) := by
  refine .get fun d => ?_
  split
  · exact .pure _
  · refine .bind (checkElement_stepwise _ _) fun _ => ?_
    refine .bind (below.element _ _) fun _ => .get fun e => ?_
    exact .bind (advanceWhen_stepwise _) fun _ => .pure _

omit kept in
theorem closeWith_stepwise (closer : TokenKind) (msg : Bytes) :
    Stepwise ctx (closeWith closer msg) := by
  refine .get fun d => ?_
  split
  · exact .throw _
  · exact .step .advance

omit kept in
theorem listElements_stepwise (below : DeeperStepwise ctx deeper) (fd : FieldDescriptor)
    (msg : Message) : Stepwise ctx (listElements ctx deeper fd msg) :=
  .bind (.loop (listTurn_stepwise below fd) msg) fun _ =>
    .bind (closeWith_stepwise _ _) fun _ => .pure _

theorem decodeListInline_stepwise (fd : FieldDescriptor) (msg : Message) :
    Stepwise ctx (decodeListInline ctx inner fd msg) := by
  refine .get fun d => ?_
  split
  · exact .throw _
  · refine descend_then kept fun deeper below => ?_
    refine .bind (.step .advance) fun _ => ?_
    exact listElements_stepwise below fd msg

omit kept in
theorem decodeMapKey_stepwise (fd keyFd : FieldDescriptor) (s : BodyState) :
    Stepwise ctx (decodeMapKey fd keyFd s) := by
  refine .get fun d => ?_
  split
  · exact .throw _
  split
  · exact .throw _
  refine .bind (.step .advance) fun _ => .get fun e => ?_
  split
  · refine .bind (.step .advance) fun _ => ?_
    refine .bind (orFail_stepwise _ _) fun _ => ?_
    exact .bind (orFail_stepwise _ _) fun _ => .pure _
  split
  · exact .throw _
  · exact .throw _

theorem decodeMapValue_stepwise (fd valueFd : FieldDescriptor) (entry : Message) :
    Stepwise ctx (decodeMapValue ctx inner fd valueFd entry) := by
  refine .get fun d => ?_
  split
  · exact .throw _
  · refine .bind (checkLegal_stepwise) fun _ => ?_
    split
    · exact .bind (decodeMessage_stepwise kept _ _ _ _ _) fun _ => .pure _
    · exact consumeScalar_stepwise _ _ _ _

theorem decodeMapEntry_stepwise (fd : FieldDescriptor) (s : BodyState) :
    Stepwise ctx (decodeMapEntry ctx inner fd s) := by
  unfold decodeMapEntry
  split
  · refine .bind (checkLegal_stepwise) fun _ => .get fun d => ?_
    refine .bind (orFail_stepwise _ _) fun _ => ?_
    refine .bind (decodeMapKey_stepwise _ _ _) fun _ => ?_
    exact .bind (decodeMapValue_stepwise kept _ _ _) fun _ => .pure _
  · exact .throw _

omit kept in
theorem mapTurn_stepwise (below : DeeperStepwise ctx deeper) (fd : FieldDescriptor) (s : BodyState) :
    Stepwise ctx (mapTurn deeper fd s) := by
  refine .get fun d => ?_
  split
  · exact .pure _
  · exact .map (below.mapEntry _ _)

omit kept in
theorem mapEntries_stepwise (below : DeeperStepwise ctx deeper) (fd : FieldDescriptor)
    (s : BodyState) : Stepwise ctx (mapEntries deeper fd s) :=
  .bind (.loop (mapTurn_stepwise below fd) s) fun _ =>
    .bind (closeWith_stepwise _ _) fun _ => .pure _

theorem decodeMapInline_stepwise (fd : FieldDescriptor) (s : BodyState) :
    Stepwise ctx (decodeMapInline ctx inner fd s) := by
  refine .get fun d => ?_
  split
  · exact .throw _
  · refine descend_then kept fun deeper below => ?_
    refine .bind (.step .advance) fun _ => ?_
    exact mapEntries_stepwise below fd s

omit kept in
theorem openKeyedEntry_stepwise (fd : FieldDescriptor) (name : Bytes) :
    Stepwise ctx (openKeyedEntry fd name) := by
  refine .get fun d => ?_
  split
  · exact .step .advance
  split
  · refine .bind (.step .advance) fun _ => .get fun e => ?_
    split
    · exact .throw _
    · exact .step .advance
  · exact .throw _

theorem decodeKeyedEntry_stepwise (fd : FieldDescriptor) (type : Nat) (key : FieldDescriptor)
    (read : List Bytes × Message) : Stepwise ctx (decodeKeyedEntry ctx inner fd type key read) := by
  refine .get fun d => ?_
  split
  · exact .throw _
  · refine .bind (orFail_stepwise _ _) fun _ => ?_
    refine .bind (.step .advance) fun _ => ?_
    refine .bind (openKeyedEntry_stepwise _ _) fun _ => .get fun e => ?_
    refine .bind (orFail_stepwise _ _) fun _ => ?_
    exact .bind (decodeBody_stepwise kept _ _ _) fun _ => .pure _

omit kept in
theorem keyedTurn_stepwise (below : DeeperStepwise ctx deeper) (fd : FieldDescriptor) (type : Nat)
    (key : FieldDescriptor) (read : List Bytes × Message) :
    Stepwise ctx (keyedTurn deeper fd type key read) := by
  refine .bind (checkLegal_stepwise) fun _ => .get fun d => ?_
  split
  · exact .pure _
  split
  · exact .throw _
  · exact .map (below.keyedEntry _ _ _ _)

omit kept in
theorem keyedEntries_stepwise (below : DeeperStepwise ctx deeper) (fd : FieldDescriptor) (type : Nat)
    (key : FieldDescriptor) (msg : Message) :
    Stepwise ctx (keyedEntries deeper fd type key msg) :=
  .bind (.loop (keyedTurn_stepwise below fd type key) _) fun _ =>
    .bind (.step .advance) fun _ => .pure _

theorem decodeKeyedBlockBody_stepwise (fd : FieldDescriptor) (type : Nat) (key : FieldDescriptor)
    (msg : Message) : Stepwise ctx (decodeKeyedBlockBody ctx inner fd type key msg) :=
  descend_then kept fun _ below => keyedEntries_stepwise below fd type key msg

theorem decodeRepeated_stepwise (fd : FieldDescriptor) (msg : Message) :
    Stepwise ctx (decodeRepeated ctx inner fd msg) := by
  refine .get fun d => ?_
  split
  · split
    · exact .bind (.step .advance) fun _ => decodeKeyedBlockBody_stepwise kept _ _ _ _
    · exact decodeListInline_stepwise kept _ _
  · exact decodeListInline_stepwise kept _ _

theorem decodeSingular_stepwise (fd : FieldDescriptor) (msg : Message) :
    Stepwise ctx (decodeSingular ctx inner fd msg) := by
  unfold decodeSingular
  split
  · exact .bind (decodeMessage_stepwise kept _ _ _ _ _) fun _ => .pure _
  · exact consumeScalar_stepwise _ _ _ _

theorem decodeFieldValue_stepwise (fd : FieldDescriptor) (s : BodyState) :
    Stepwise ctx (decodeFieldValue ctx inner fd s) := by
  refine .bind (checkLegal_stepwise) fun _ => ?_
  split
  · exact decodeMapInline_stepwise kept _ _
  split
  · exact .map (decodeRepeated_stepwise kept _ _)
  · exact .map (decodeSingular_stepwise kept _ _)

theorem decodeBinding_stepwise (type : Nat) (ke : Option KeyedElem) (fd : FieldDescriptor)
    (s : BodyState) : Stepwise ctx (decodeBinding ctx inner type ke fd s) := by
  refine .get fun d => ?_
  split
  · exact .bind (orFail_stepwise _ _) fun _ => .bind (.step .advance) fun _ => .pure _
  · exact .bind (orFail_stepwise _ _) fun _ => decodeFieldValue_stepwise kept _ _

theorem decodeAssignment_stepwise (type : Nat) (ke : Option KeyedElem) (key : Key) (s : BodyState) :
    Stepwise ctx (decodeAssignment ctx inner type ke key s) := by
  unfold decodeAssignment
  split
  · exact .throw _
  refine .bind (.step .advance) fun _ => ?_
  split
  · exact .throw _
  split
  · split
    · exact .bind (.step (.skipValue _)) fun _ => .pure _
    · exact .throw _
  · exact .get fun d => .bind (orFail_stepwise _ _) fun _ => decodeBinding_stepwise kept _ _ _ _

theorem decodeFieldBlock_stepwise (ke : Option KeyedElem) (key : Key) (fd : FieldDescriptor)
    (s : BodyState) : Stepwise ctx (decodeFieldBlock ctx inner ke key fd s) := by
  unfold decodeFieldBlock
  split
  · split
    · exact .throw _
    split
    · split
      · exact .map (decodeKeyedBlockBody_stepwise kept _ _ _ _)
      · refine .get fun d => ?_
        split <;> exact .throw _
    · exact .bind (orFail_stepwise _ _) fun _ =>
        .bind (decodeBlock_stepwise kept _ _ _) fun _ => .pure _
  · exact .throw _

theorem decodeBlockTail_stepwise (type : Nat) (ke : Option KeyedElem) (key : Key) (s : BodyState) :
    Stepwise ctx (decodeBlockTail ctx inner type ke key s) := by
  unfold decodeBlockTail
  split
  · exact .throw _
  split
  · exact .bind (.step .advance) fun _ => .throw _
  split
  · split
    · exact .bind (.step (.skipValue _)) fun _ => .pure _
    · exact .bind (.step .advance) fun _ => .throw _
  · exact .bind (.step .advance) fun _ => decodeFieldBlock_stepwise kept _ _ _ _

theorem decodeEntry_stepwise (type : Nat) (inBlock : Bool) (ke : Option KeyedElem) (s : BodyState) :
    Stepwise ctx (decodeEntry ctx inner type inBlock ke s) := by
  refine .get fun d => ?_
  split
  · exact .throw _
  split
  · exact .throw _
  refine .bind (.step .advance) fun _ => .get fun e => ?_
  split
  · exact decodeAssignment_stepwise kept _ _ _ _
  · exact decodeBlockTail_stepwise kept _ _ _ _
  · split <;> exact .throw _
  · exact .throw _

theorem fieldTurn_stepwise (type : Nat) (inBlock : Bool) (ke : Option KeyedElem) (s : BodyState) :
    Stepwise ctx (fieldTurn ctx inner type inBlock ke s) := by
  refine .get fun d => ?_
  split
  · exact .pure _
  · exact .map (decodeEntry_stepwise kept _ _ _ _)

theorem decodeBlockBody_stepwise (type : Nat) (ke : Option KeyedElem) (msg : Message) :
    Stepwise ctx (decodeBlockBody ctx inner type ke msg) := by
  refine .bind (.loop (fieldTurn_stepwise kept type true ke) _) fun _ => ?_
  refine .bind (.get fun d => ?_) fun _ => .pure _
  split
  · exact .throw _
  · exact .step .advance

theorem decodeRoot_stepwise (type : Nat) (msg : Message) :
    Stepwise ctx (decodeRoot ctx inner type msg) :=
  .loop (fieldTurn_stepwise kept type false none) _

end

theorem decodeNested_stepwise (room : Nat) : InnerStepwise ctx (decodeNested ctx room) := by
  induction room with
  | zero => intro deeper found; cases found
  | succ room ih =>
    intro deeper found
    cases found
    exact ⟨decodeBlockBody_stepwise ih, decodeElement_stepwise ih,
      decodeMapEntry_stepwise ih, decodeKeyedEntry_stepwise ih⟩

theorem consumeTypeName_stepwise : Stepwise ctx consumeTypeName := by
  refine .get fun d => ?_
  split
  · exact .step .advance
  split
  · exact .bind (.step (.passTypeName _)) fun _ => .step .advance
  · exact .throw _

theorem consumeType_stepwise (head : Head) : Stepwise ctx (consumeType head) := by
  refine .get fun d => ?_
  split
  · exact .throw _
  · exact .bind (.step .advance) fun _ => .bind (consumeTypeName_stepwise) fun _ => .pure _

theorem prefixTurn_stepwise (read : List Bytes) : Stepwise ctx (prefixTurn read) := by
  refine .get fun d => ?_
  split
  · exact .bind (.step .advance) fun _ => .pure _
  · exact .pure _

theorem consumeDirective_stepwise (room : Nat) (head : Head) :
    Stepwise ctx (consumeDirective room head) := by
  refine .get fun d => ?_
  split
  · exact .throw _
  · refine .bind (.step .advance) fun _ => ?_
    refine .bind (.loop (prefixTurn_stepwise) []) fun _ => ?_
    exact .bind (.step (.consumeBlock _ _)) fun _ => .pure _

theorem consumeDataset_stepwise (maxDepth : Nat) (head : Head) :
    Stepwise ctx (consumeDataset maxDepth head) := by
  refine .get fun d => ?_
  split
  · exact .throw _
  · exact .bind (.step (.parseDatasetAt _)) fun _ => .pure _

theorem consumeProtoNamed_stepwise (pos : Position) (name : Bytes) :
    Stepwise ctx (consumeProtoNamed pos name) := by
  refine .get fun d => ?_
  split
  · exact .throw _
  · exact .bind (.step (.captureBraces _ _)) fun _ => .pure _

theorem consumeProtoBody_stepwise (pos : Position) : Stepwise ctx (consumeProtoBody pos) := by
  refine .get fun d => ?_
  split
  · exact .bind (.step (.captureBraces _ _)) fun _ => .pure _
  · exact .bind (.step .advance) fun _ => consumeProtoNamed_stepwise _ _
  · exact .bind (.step .advance) fun _ => .pure _
  · split
    · exact .throw _
    · exact .bind (.step .advance) fun _ => .pure _
  · exact .throw _

theorem consumeProto_stepwise (head : Head) : Stepwise ctx (consumeProto head) :=
  .get fun _ => .bind (.step .advance) fun _ => .bind (consumeProtoBody_stepwise _) fun _ => .pure _

theorem directiveTurn_stepwise (maxDepth : Nat) (head : Head) :
    Stepwise ctx (directiveTurn maxDepth head) := by
  refine .get fun d => ?_
  split
  · exact .map (consumeType_stepwise _)
  · exact .map (consumeDirective_stepwise _ _)
  · exact .map (consumeDataset_stepwise _ _)
  · exact .map (consumeProto_stepwise _)
  · exact .pure _

theorem checkStandalone_stepwise (head : Head) : Stepwise ctx (checkStandalone head) := by
  refine .get fun d => ?_
  split
  · exact .pure _
  split
  · exact .pure _
  · exact .throw _

theorem decodeDocument_stepwise (type : Nat) : Stepwise ctx (decodeDocument ctx type) := by
  refine .bind ?_ fun _ => .bind ?_ fun _ => .pure _
  · refine .bind (.loop (directiveTurn_stepwise _) _) fun _ => ?_
    exact .bind (checkStandalone_stepwise _) fun _ => .pure _
  · exact decodeRoot_stepwise (decodeNested_stepwise _) _ _

end

end Decoder

end Protowire.Pxf
