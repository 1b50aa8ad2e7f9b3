import Protowire.Pxf.Recovery

/-!
Values and entries in both modes. A strict parser and a tolerant one read them alike as long as
no list has an element that could be a key with a brace right after it.
-/

namespace Protowire.Pxf

open Support

variable {β : Type} {dead : Token → Prop} {value : Value} {elements : List Value}
  {entries : List Entry}

def Value.keyLike : Value → Bool
  | .string .. | .int .. | .bool .. | .ident .. => true
  | _ => false

def Ground.BraceFollows (g : Ground) (stop : Position) : Prop :=
  (significant (g.lexer stop)).token.kind = .lBrace

mutual

def Value.Clear (g : Ground) : Value → Prop
  | .list _ elements => ElementsClear g elements
  | .block _ entries _ => EntriesClear g entries
  | _ => True

def ElementsClear (g : Ground) : List Value → Prop
  | [] => True
  | value :: rest =>
    (value.Clear g ∧ ¬(value.keyLike ∧ g.BraceFollows value.span.stop)) ∧ ElementsClear g rest

def Entry.Clear (g : Ground) : Entry → Prop
  | .assignment _ _ _ value _ _ => value.Clear g
  | .mapEntry _ _ _ value _ _ => value.Clear g
  | .block _ _ _ entries _ _ => EntriesClear g entries
  | .typeEntry .. => True

def EntriesClear (g : Ground) : List Entry → Prop
  | [] => True
  | entry :: rest => entry.Clear g ∧ EntriesClear g rest

end

def Value.ClearElement (g : Ground) (value : Value) : Prop :=
  value.Clear g ∧ ¬(value.keyLike ∧ g.BraceFollows value.span.stop)

def directiveBlock (g : Ground) (d : Directive) : EStateM.Result Status Parser Value :=
  (do
    let _ ← parsePrefixes
    parseBlockVal (parseNested g.depth)) (g.parser d.pos)

def Directive.Clear (g : Ground) (d : Directive) : Prop :=
  ∀ block p, d.hasBody = true → directiveBlock g d = .ok block p → block.Clear g

def DatasetRow.Clear (g : Ground) (row : DatasetRow) : Prop :=
  ∀ value, some value ∈ row.cells → value.Clear g

def DatasetDirective.Clear (g : Ground) (dataset : DatasetDirective) : Prop :=
  ∀ row ∈ dataset.rows, row.Clear g

def Document.HeadClear (g : Ground) (doc : Document) : Prop :=
  (∀ d ∈ doc.directives, d.Clear g) ∧ ∀ dataset ∈ doc.datasets, dataset.Clear g

def Document.Clear (g : Ground) (doc : Document) : Prop :=
  doc.HeadClear g ∧ EntriesClear g doc.entries

section

variable (g : Ground)

theorem elementsClear_append (elements : List Value) (value : Value) :
    ElementsClear g (elements ++ [value]) ↔ ElementsClear g elements ∧ value.ClearElement g := by
  induction elements with
  | nil => simp [ElementsClear, Value.ClearElement]
  | cons first rest ih => simp only [List.cons_append, ElementsClear, ih, and_assoc]

theorem entriesClear_append (entries : List Entry) (entry : Option Entry) :
    EntriesClear g (entries ++ entry.toList) ↔
      EntriesClear g entries ∧ ∀ e ∈ entry, e.Clear g := by
  induction entries with
  | nil => cases entry <;> simp [EntriesClear]
  | cons first rest ih => simp only [List.cons_append, EntriesClear, ih, and_assoc]

end

section

variable {g : Ground} {p : Parser}

theorem Aligned.advance_then {clean : β → Prop} {flaw : β → Parser → Prop} {next : ParserM β}
    (aligned : Aligned g p) (same : Strict g p.advanced → Legal p.advanced →
      Agreement g dead clean flaw (next p.advanced) (next p.advanced.forgiving))
    (stalls : p.advanced.tolerant = false → ¬Legal p.advanced → Stalled flaw (next p.advanced))
    (marks : Marks DeadToken dead next) :
    Agreement g dead clean flaw ((advance >>= fun _ => next) p)
      ((advance >>= fun _ => next) p.forgiving) := by
  have stricter := aligned.advanced
  change Agreement g dead clean flaw (next p.advanced) (next p.forgiving.advanced)
  rcases aligned.forgiving_advanced with ⟨legal, equal⟩ | ⟨illegal, marked, _⟩
  · rw [equal]
    exact same stricter legal
  · exact .of_stalled (stalls stricter.mode illegal) (marks _ marked)

def Value.Sound (g : Ground) (value : Value) : Prop := value.isBad = false ∧ value.ClearElement g

def ValueFlaw (g : Ground) (value : Value) (p : Parser) : Prop :=
  ¬value.Clear g ∨ (¬value.ClearElement g ∧ p.current.kind = .lBrace) ∨
    p.current.kind = .equals ∨ p.current.kind = .colon

abbrev ValueAgrees (g : Ground) (value : ParserM Value) (p : Parser) : Prop :=
  Agreement g DeadToken (Value.Sound g) (ValueFlaw g) (value p) (value p.forgiving)

abbrev BodyAgrees (g : Ground) (body : ParserM Body) (p : Parser) : Prop :=
  Agreement g DeadToken (fun body => EntriesClear g body.entries)
    (fun body _ => ¬EntriesClear g body.entries) (body p) (body p.forgiving)

theorem literal_agrees (strict : Strict g p) {build : Span → Value}
    (sound : (build ⟨p.current.pos, p.tokenEnd⟩).Sound g) : ValueAgrees g (literal build) p := by
  simp only [ValueAgrees, literal, run_get, forgiving_current, forgiving_tokenEnd]
  exact strict.advance_then (fun stricter legal => .same stricter legal sound)
    (fun mode illegal => ⟨mode, .inl illegal⟩) (marks_pure _)

theorem Strict.braceFollows (strict : Strict g p) :
    g.BraceFollows p.tokenEnd ↔ p.peekKind = .lBrace := by
  rw [Ground.BraceFollows, Parser.tokenEnd, ← strict.lex]
  rfl

theorem Strict.sound_key (strict : Strict g p) (isBad : value.isBad = false) (clear : value.Clear g)
    (stop : value.span.stop = p.tokenEnd) (kind : p.current.kind.startsKey = true)
    (starts : p.currentStartsEntry = false) : value.Sound g := by
  refine ⟨isBad, clear, fun ⟨_, follows⟩ => ?_⟩
  rw [stop, strict.braceFollows] at follows
  simp [Parser.currentStartsEntry, kind, follows] at starts

theorem Strict.key_flaw (strict : Strict g p) (key : value.keyLike = true)
    (stop : value.span.stop = p.tokenEnd) (starts : p.currentStartsEntry = true) :
    ValueFlaw g value p.advanced := by
  simp only [Parser.currentStartsEntry, Bool.and_eq_true, Bool.or_eq_true, decide_eq_true_eq]
    at starts
  rcases starts.2 with (equals | colon) | brace
  · exact .inr (.inr (.inl equals))
  · exact .inr (.inr (.inr colon))
  · refine .inr (.inl ⟨fun clear => clear.2 ⟨key, ?_⟩, brace⟩)
    rw [stop, strict.braceFollows]
    exact brace

theorem missing_ends (inner : Option Nested) {q : Parser} (mode : q.tolerant = true)
    (starts : q.currentStartsEntry = true) : Ends dead (parseValue inner q) := by
  simp only [parseValue, run_get, mode, starts, Bool.and_self, if_true]
  exact ends_report (fun _ => .pure _) mode _ _

structure DeepAgrees (g : Ground) (inner : Option Nested) : Prop where
  kept : NestedStepwise inner
  value : ∀ nested, inner = some nested → ∀ p, Strict g p → Legal p → ValueAgrees g nested.value p
  valueMarks : ∀ nested, inner = some nested → Marks DeadInside DeadInside nested.value
  valueFails : ∀ nested, inner = some nested → ∀ p : Parser, p.tolerant = false →
    p.current.kind.startsNoValue → Fails (nested.value p)
  body : ∀ nested, inner = some nested → ∀ p, Strict g p → Legal p → BodyAgrees g nested.body p
  bodyMarks : ∀ nested, inner = some nested → Marks DeadInside DeadToken nested.body
  bodyFails : ∀ nested, inner = some nested → ∀ p : Parser, p.tolerant = false →
    ¬Legal p → Fails (nested.body p)

def ListFlaw (g : Ground) (elements : List Value) (p : Parser) : Prop :=
  ¬ElementsClear g elements ∨ p.current.kind = .equals ∨ p.current.kind = .colon

theorem ListFlaw.of_value {p : Parser} (flaw : ValueFlaw g value p) :
    ListFlaw g (elements ++ [value]) p := by
  have unclear (no : ¬value.ClearElement g) : ¬ElementsClear g (elements ++ [value]) := by
    rw [elementsClear_append]
    exact fun clear => no clear.2
  rcases flaw with clear | ⟨clear, _⟩ | separator
  · exact .inl (unclear fun element => clear element.1)
  · exact .inl (unclear clear)
  · exact .inr separator

def listClean (g : Ground) : Turn (List Value) (List Value) → Prop
  | .next elements => ElementsClear g elements
  | .done elements => ElementsClear g elements

def listFlaw (g : Ground) : Turn (List Value) (List Value) → Parser → Prop
  | .next elements, p => ListFlaw g elements p
  | .done elements, _ => ¬ElementsClear g elements

theorem listTurn_ok {value : ParserM Value} {p p' : Parser}
    {turned : Turn (List Value) (List Value)} (ran : listTurn value elements p = .ok turned p') :
    turned = .done elements ∨ ∃ element, turned = .next (elements ++ [element]) := by
  rw [listTurn, run_get] at ran
  split at ran
  · cases ran; exact .inl rfl
  · obtain ⟨element, q, _, rest⟩ := bind_ok ran
    rw [keepElement, run_get] at rest
    split at rest
    · cases rest; exact .inl rfl
    · obtain ⟨_, r, _, last⟩ := bind_ok rest
      cases last
      exact .inr ⟨element, rfl⟩

variable {inner : Option Nested} (deep : DeepAgrees g inner)

include deep

omit deep in
theorem listTurn_fails {value : ParserM Value} (fails : Fails (value p)) (elements : List Value)
    (kind : p.current.kind = .illegal ∨ p.current.kind = .equals ∨ p.current.kind = .colon) :
    Fails (listTurn value elements p) := by
  have going : ¬(p.current.kind = .rBracket || p.current.kind = .eof || p.tolerantRowClose) =
      true := by
    rcases kind with kind | kind | kind <;> simp [kind, Parser.tolerantRowClose]
  rw [listTurn, run_get, if_neg going]
  exact fails.bind _

theorem listTurn_stalls {nested : Nested} (found : inner = some nested) (elements : List Value)
    (p : Parser) (mode : p.tolerant = false) (reason : ¬Legal p ∨ ListFlaw g elements p) :
    Stalled (listFlaw g) (listTurn nested.value elements p) := by
  have refuses (kind : p.current.kind = .illegal ∨ p.current.kind = .equals ∨
      p.current.kind = .colon) : Stalled (listFlaw g) (listTurn nested.value elements p) := by
    refine (listTurn_fails (deep.valueFails nested found p mode ?_) elements kind).stalled
    rcases kind with kind | kind | kind <;> simp [kind, TokenKind.startsNoValue]
  rcases reason with illegal | unclear | separator
  · exact refuses (.inl (not_not.mp illegal))
  · have kept := listTurn_stepwise (deep.kept nested found).1 elements
    refine stalled_of mode kept fun turned p' ran => ?_
    obtain rfl | ⟨element, rfl⟩ := listTurn_ok ran
    · exact unclear
    · exact .inl fun clear => unclear ((elementsClear_append g elements element).mp clear).1
  · exact refuses (.inr separator)

theorem listTurn_agrees {nested : Nested} (found : inner = some nested) (elements : List Value)
    (p : Parser) (strict : Strict g p) (legal : Legal p) (clear : ElementsClear g elements) :
    Agreement g DeadInside (listClean g) (listFlaw g) (listTurn nested.value elements p)
      (listTurn nested.value elements p.forgiving) := by
  have noRow : p.tolerantRowClose = false := by simp [Parser.tolerantRowClose, strict.mode]
  rw [listTurn, run_get, run_get, forgiving_current]
  by_cases closed : (p.current.kind = .rBracket || p.current.kind = .eof) = true
  · rw [if_pos (by simp [closed]), if_pos (by simp [closed])]
    exact .same strict legal clear
  rw [if_neg (by simp [closed, noRow])]
  by_cases row : p.current.kind = .rParen
  · -- Only a tolerant parser leaves the list here; a strict one refuses the token.
    rw [if_pos (by simp [Parser.tolerantRowClose, row])]
    have refused := deep.valueFails nested found p strict.mode
      (by simp [row, TokenKind.startsNoValue])
    exact (refused.bind _).agrees ⟨rfl, .inr (.inr row)⟩
  rw [if_neg (by simp [closed, Parser.tolerantRowClose, row])]
  refine ((deep.value nested found p strict legal).mono fun _ => .inl).bind ?_ ?_
    fun element => keepElement_marks _ _ _
  · intro element q _ strict' legal' sound
    have appended := (elementsClear_append g elements element).mpr ⟨clear, sound.2⟩
    rw [keepElement, run_get, run_get, if_neg (by simp [sound.1]), if_neg (by simp [sound.1])]
    by_cases comma : q.current.kind = .comma
    · simp only [comma, forgiving_current, decide_true, advanceWhen, if_true]
      exact strict'.advance_then (fun stricter legal'' => .same stricter legal'' appended)
        (fun mode illegal => ⟨mode, .inl illegal⟩)
        fun q marked => Marked.mono (fun _ => .inl) marked
    · simp only [comma, forgiving_current, decide_false, advanceWhen, Bool.false_eq_true, if_false]
      exact .same strict' legal' appended
  · intro element q _ mode reason
    rw [keepElement, run_get, if_neg (by simp [mode])]
    by_cases comma : q.current.kind = .comma
    · simp only [comma, decide_true, advanceWhen, if_true]
      refine ⟨by simpa using mode, .inr (.inl fun all => ?_)⟩
      have sound := ((elementsClear_append g elements element).mp all).2
      rcases reason with illegal | unclear | ⟨unclear, _⟩ | equals | colon
      · exact illegal (by simp [Legal, comma])
      · exact unclear sound.1
      · exact unclear sound
      · rw [comma] at equals; cases equals
      · rw [comma] at colon; cases colon
    · simp only [comma, decide_false, advanceWhen, Bool.false_eq_true, if_false]
      exact ⟨mode, reason.imp_right .of_value⟩

omit deep in
theorem closeList_agrees (pos : Position) (strict : Strict g p) (clear : ElementsClear g elements) :
    Agreement g DeadToken (Value.Sound g) (ValueFlaw g) (closeList pos elements p)
      (closeList pos elements p.forgiving) := by
  rw [closeList, run_get, run_get, forgiving_current, forgiving_tokenEnd]
  split
  · exact ((soft_fails strict.mode _ _).bind _).agrees
      (ends_soft (fun _ => .pure _) rfl _ _)
  · exact strict.advance_then
      (fun stricter legal => .same stricter legal ⟨rfl, by simpa [Value.Clear] using clear, by simp [Value.keyLike]⟩)
      (fun mode illegal => ⟨mode, .inl illegal⟩) (marks_pure _)

omit deep in
theorem closeList_stalls (pos : Position) (mode : p.tolerant = false)
    (reason : ¬Legal p ∨ ¬ElementsClear g elements) :
    Stalled (ValueFlaw g) (closeList pos elements p) := by
  rw [closeList, run_get]
  split
  · exact ((soft_fails mode _ _).bind _).stalled
  · rename_i closing
    refine ⟨by simpa using mode, .inr (.inl ?_)⟩
    rcases reason with illegal | unclear
    · rw [Legal, not_not.mp closing] at illegal
      exact absurd (by simp) illegal
    · simpa [Value.Clear] using unclear

omit deep in
theorem tooDeep_agrees {α : Type} {clean : α → Prop} {flaw : α → Parser → Prop}
    (strict : Strict g p) (pos : Position) (msg : Bytes) (opener closer : TokenKind)
    (build : Position → α) :
    Agreement g dead clean flaw
      ((do soft pos msg; let stop ← skipBalanced opener closer; pure (build stop) : ParserM α) p)
      ((do soft pos msg; let stop ← skipBalanced opener closer; pure (build stop) : ParserM α)
        p.forgiving) :=
  ((soft_fails strict.mode _ _).bind _).agrees
    (ends_soft (fun _ => .bind (skipBalanced_stepwise _ _) fun _ => .pure _) rfl _ _)

theorem parseList_agrees (strict : Strict g p) : ValueAgrees g (parseList inner) p := by
  rw [ValueAgrees, parseList, run_get, run_get, forgiving_current, forgiving_maxDepth]
  cases found : inner with
  | none => exact tooDeep_agrees strict _ _ _ _ _
  | some nested =>
    have marks := listTurn_marks (deep.valueMarks nested found)
    refine strict.advance_then (fun stricter legal => ?_) (fun mode illegal => ?_) ?_
    · refine (agreement_loop (listClean g) (listFlaw g) (listTurn_agrees deep found)
        (listTurn_stalls deep found) marks [] stricter legal trivial).bind ?_ ?_ ?_
      · exact fun elements q _ strict' _ clear => closeList_agrees _ strict' clear
      · exact fun elements q _ mode reason => closeList_stalls _ mode reason
      · exact fun elements => closeList_marks _ _
    · have refused := deep.valueFails nested found p.advanced mode (illegal_startsNoValue illegal)
      exact ((listTurn_fails refused [] (.inl (not_not.mp illegal))).loop.bind _).stalled
    · exact fun q marked => marks_bind (marks_loop marks []) (fun _ => closeList_marks _ _) q
        (marked.mono fun _ => .inl)

theorem braced_agrees {α : Type} {clean : α → Prop} {flaw : α → Parser → Prop} {nested : Nested}
    (strict : Strict g p) (found : inner = some nested) (build : Body → α)
    (clear : ∀ body, EntriesClear g body.entries → clean (build body))
    (unclear : ∀ body q, ¬EntriesClear g body.entries → flaw (build body) q) :
    Agreement g DeadToken clean flaw
      ((do advance; let body ← nested.body; pure (build body) : ParserM α) p)
      ((do advance; let body ← nested.body; pure (build body) : ParserM α) p.forgiving) := by
  refine strict.advance_then (fun stricter legal => ?_) (fun mode illegal => ?_) ?_
  · refine (deep.body nested found _ stricter legal).bind ?_ ?_ fun _ => marks_pure _
    · exact fun body q _ strict' legal' entries => .same strict' legal' (clear body entries)
    · exact fun body q _ mode reason => ⟨mode, reason.imp_right (unclear body q)⟩
  · exact ((deep.bodyFails nested found _ mode illegal).bind _).stalled
  · exact fun q marked => marks_bind (deep.bodyMarks nested found) (fun _ => marks_pure _) q
      (marked.mono fun _ => .inl)

theorem parseBlockVal_agrees (strict : Strict g p) : ValueAgrees g (parseBlockVal inner) p := by
  rw [ValueAgrees, parseBlockVal, run_get, run_get, forgiving_current, forgiving_maxDepth]
  cases found : inner with
  | none => exact tooDeep_agrees strict _ _ _ _ _
  | some nested =>
    exact braced_agrees deep strict found _
      (fun body clear => ⟨rfl, by simpa [Value.Clear] using clear, by simp [Value.keyLike]⟩)
      fun body q unclear => .inl (by simpa [Value.Clear] using unclear)

omit deep in
theorem parseBytesVal_agrees (strict : Strict g p) : ValueAgrees g parseBytesVal p := by
  rw [ValueAgrees, parseBytesVal, run_get, run_get, forgiving_current]
  cases base64DecodeLenient p.current.value with
  | ok decoded =>
    exact literal_agrees strict ⟨rfl, by simp [Value.Clear], by simp [Value.keyLike]⟩
  | error offset =>
    exact ((soft_fails strict.mode _ _).bind _).agrees
      (ends_soft (fun _ => .bind (.step .advance) fun _ => .pure _) rfl _ _)

theorem parseValue_agrees (strict : Strict g p) : ValueAgrees g (parseValue inner) p := by
  by_cases starts : p.currentStartsEntry = true
  · -- The strict parser takes the key for a value; the tolerant one calls the value missing.
    have ends : Ends DeadToken (parseValue inner p.forgiving) :=
      missing_ends inner rfl (strict.forgiving_startsEntry.trans starts)
    have key : p.current.kind.startsKey = true := by
      simp only [Parser.currentStartsEntry, Bool.and_eq_true] at starts
      exact starts.1
    refine .of_stalled ?_ ends
    rw [parseValue, run_get, if_neg (by simp [strict.mode])]
    have mode : p.advanced.tolerant = false := strict.advanced.mode
    cases kind : p.current.kind <;> simp only [kind, TokenKind.startsKey] at key ⊢
    all_goals first
      | exact ⟨mode, .inr (strict.key_flaw rfl rfl starts)⟩
      | cases key
  · have noEntry : p.currentStartsEntry = false := by simpa using starts
    rw [ValueAgrees, parseValue, run_get, run_get, if_neg (by simp [strict.mode]),
      if_neg (by simp [strict.forgiving_startsEntry, noEntry]), forgiving_current]
    have key (value : Value) (isBad : value.isBad = false) (clear : value.Clear g)
        (stop : value.span.stop = p.tokenEnd) (kind : p.current.kind.startsKey = true) :
        value.Sound g := strict.sound_key isBad clear stop kind noEntry
    cases kind : p.current.kind
    case lBracket => exact parseList_agrees deep strict
    case lBrace => exact parseBlockVal_agrees deep strict
    case bytes => exact parseBytesVal_agrees strict
    case string | int | bool | ident =>
      exact literal_agrees strict
        (key _ rfl (by simp [Value.Clear]) rfl (by simp [kind, TokenKind.startsKey]))
    case float | null | timestamp | duration =>
      exact literal_agrees strict ⟨rfl, by simp [Value.Clear], by simp [Value.keyLike]⟩
    all_goals exact (parseNoValue_fails strict.mode).agrees (parseNoValue_ends rfl)

end

section

variable {g : Ground} {p : Parser}

def Follows (p : Parser) : Prop :=
  p.current.kind = .equals ∨ p.current.kind = .colon ∨ p.current.kind = .lBrace

theorem Follows.startsKey (follows : Follows p) : p.current.kind.startsKey = false := by
  rcases follows with kind | kind | kind <;> simp [kind, TokenKind.startsKey]

theorem illegal_startsKey (illegal : ¬Legal p) : p.current.kind.startsKey = false := by
  rw [not_not.mp illegal]
  rfl

theorem ValueFlaw.follows (flaw : ValueFlaw g value p) : ¬value.Clear g ∨ Follows p := by
  rcases flaw with unclear | ⟨_, brace⟩ | equals | colon
  · exact .inl unclear
  · exact .inr (.inr (.inr brace))
  · exact .inr (.inl equals)
  · exact .inr (.inr (.inl colon))

def EntryFlaw (g : Ground) (entry : Option Entry) (p : Parser) : Prop :=
  (¬∀ e ∈ entry, e.Clear g) ∨ Follows p

abbrev EntryAgrees (g : Ground) (entry : ParserM (Option Entry)) (p : Parser) : Prop :=
  Agreement g DeadToken (fun entry => ∀ e ∈ entry, e.Clear g) (EntryFlaw g) (entry p)
    (entry p.forgiving)

theorem takeTrailingComment_run (stop : Position) (p : Parser) : ∃ trailing comments,
    takeTrailingComment stop p = .ok trailing { p with comments } ∧
      takeTrailingComment stop p.forgiving = .ok trailing (Parser.forgiving { p with comments }) := by
  simp only [takeTrailingComment, forgiving_comments]
  cases shape : p.comments with
  | nil =>
    refine ⟨[], p.comments, rfl, rfl⟩
  | cons first later =>
    simp only
    split
    · exact ⟨[], p.comments, rfl, rfl⟩
    · exact ⟨first.text, later, rfl, rfl⟩

theorem flush_then {clean : β → Prop} {flaw : β → Parser → Prop} {next : List Comment → ParserM β}
    (strict : Strict g p)
    (same : ∀ leading q, Strict g q → q.current = p.current → q.comments = [] →
      Agreement g dead clean flaw (next leading q) (next leading q.forgiving)) :
    Agreement g dead clean flaw ((flushComments >>= next) p)
      ((flushComments >>= next) p.forgiving) :=
  same p.comments { p with comments := [] } (strict.comments []) rfl rfl

theorem softWhen_then {clean : β → Prop} {flaw : β → Parser → Prop} {next : ParserM β}
    (strict : Strict g p) (condition : Bool) (pos : Position) (msg : Bytes)
    (kept : Stepwise next) (same : Agreement g dead clean flaw (next p) (next p.forgiving)) :
    Agreement g dead clean flaw ((softWhen condition pos msg >>= fun _ => next) p)
      ((softWhen condition pos msg >>= fun _ => next) p.forgiving) := by
  cases condition with
  | true =>
    exact ((soft_fails strict.mode pos msg).bind _).agrees (ends_soft (fun _ => kept) rfl _ _)
  | false => exact same

variable {inner : Option Nested} (deep : DeepAgrees g inner)

include deep

theorem valueEntry_agrees (strict : Strict g p) {build : Value → Bytes → Entry}
    (clear : ∀ v t, (build v t).Clear g ↔ v.Clear g) {entry : ParserM Entry}
    (made : entry = do
      advance
      let v ← parseValue inner
      let t ← takeTrailingComment v.span.stop
      pure (build v t)) :
    Agreement g DeadToken (fun e => e.Clear g) (fun e p => ¬e.Clear g ∨ Follows p)
      (entry p) (entry p.forgiving) := by
  subst made
  have marks (v : Value) : Marks DeadToken DeadToken (do
      let t ← takeTrailingComment v.span.stop
      pure (build v t)) :=
    marks_bind (takeTrailingComment_marks v.span.stop) fun t => marks_pure (build v t)
  refine strict.advance_then (fun stricter _ => ?_) (fun mode illegal => ?_) fun q marked =>
    marks_bind (parseValue_marks deep.kept) marks q (marked.mono fun _ => .inl)
  · refine (parseValue_agrees deep stricter).bind ?_ ?_ marks
    · intro v q _ strict legal sound
      obtain ⟨t, comments, ran, also⟩ := takeTrailingComment_run v.span.stop q
      rw [run_bind_ok ran, run_bind_ok also]
      exact .same (strict.comments _) legal ((clear v t).mpr sound.2.1)
    · intro v q _ mode reason
      obtain ⟨t, comments, ran, _⟩ := takeTrailingComment_run v.span.stop q
      rw [run_bind_ok ran]
      exact ⟨mode, reason.imp_right fun flaw => flaw.follows.imp_left (mt (clear v t).mp)⟩
  · exact ((parseValue_fails mode inner (illegal_startsNoValue illegal)).bind _).stalled

theorem parseAssignment_agrees (strict : Strict g p) (key : Key) :
    Agreement g DeadToken (fun e => e.Clear g) (fun e p => ¬e.Clear g ∨ Follows p)
      (parseAssignment inner key p) (parseAssignment inner key p.forgiving) :=
  softWhen_then strict _ _ _ (valueEntry_stepwise deep.kept _)
    (valueEntry_agrees deep strict (fun v t => by simp [Entry.Clear]) rfl)

theorem parseMapEntry_agrees (strict : Strict g p) (allowMapEntry : Bool) (key : Key) :
    Agreement g DeadToken (fun e => e.Clear g) (fun e p => ¬e.Clear g ∨ Follows p)
      (parseMapEntry inner allowMapEntry key p)
      (parseMapEntry inner allowMapEntry key p.forgiving) := by
  have tail := valueEntry_stepwise deep.kept fun value trailing =>
    .mapEntry ⟨key.pos, value.span.stop⟩ key.value key.quoted value key.leading trailing
  refine softWhen_then strict _ _ _ (.bind (softWhen_stepwise _ _ _) fun _ => tail) ?_
  refine softWhen_then strict _ _ _ tail ?_
  exact valueEntry_agrees deep strict (fun v t => by simp [Entry.Clear]) rfl

theorem parseBlock_agrees (strict : Strict g p) (key : Key) :
    Agreement g DeadToken (fun e => e.Clear g) (fun e p => ¬e.Clear g ∨ Follows p)
      (parseBlock inner key p) (parseBlock inner key p.forgiving) := by
  have kept := deep.kept
  rw [parseBlock]
  refine softWhen_then strict _ _ _ ?_ ?_
  · refine .get fun q => ?_
    split
    · exact tooDeep_stepwise _ _ _ _ _
    · exact .bind (.step .advance) fun _ => .bind (kept _ rfl).2 fun _ => .pure _
  rw [run_get, run_get, forgiving_current, forgiving_maxDepth]
  cases found : inner with
  | none => exact tooDeep_agrees strict _ _ _ _ _
  | some nested =>
    exact braced_agrees deep strict found _ (fun body clear => by simpa [Entry.Clear] using clear)
      fun body q unclear => .inl (by simpa [Entry.Clear] using unclear)

omit deep in
theorem parseDangling_agrees (strict : Strict g p) (key : Key) :
    Agreement g DeadToken (fun e => e.Clear g) (fun e p => ¬e.Clear g ∨ Follows p)
      (parseDangling key p) (parseDangling key p.forgiving) := by
  rw [parseDangling, run_get, run_get]
  exact ((soft_fails strict.mode _ _).bind _).agrees
    (ends_soft (fun _ => .pure _) rfl _ _)

theorem parseTail_agrees (strict : Strict g p) (allowMapEntry : Bool) (key : Key) :
    EntryAgrees g (parseTail inner allowMapEntry key) p := by
  have wrap {entry : ParserM Entry}
      (agrees : Agreement g DeadToken (fun e => e.Clear g) (fun e p => ¬e.Clear g ∨ Follows p)
        (entry p) (entry p.forgiving)) : EntryAgrees g (some <$> entry) p :=
    agrees.map some (by simp) (by simp [EntryFlaw])
  rw [EntryAgrees, parseTail, run_get, run_get, forgiving_current]
  cases p.current.kind
  case equals => exact wrap (parseAssignment_agrees deep strict key)
  case colon => exact wrap (parseMapEntry_agrees deep strict allowMapEntry key)
  case lBrace => exact wrap (parseBlock_agrees deep strict key)
  all_goals exact wrap (parseDangling_agrees strict key)

omit deep in
theorem parseTail_fails (mode : p.tolerant = false) (illegal : ¬Legal p) (allowMapEntry : Bool)
    (key : Key) : Fails (parseTail inner allowMapEntry key p) := by
  rw [parseTail, run_get, not_not.mp illegal]
  exact Fails.map ((soft_fails mode _ _).bind _) some

theorem parseEntry_agrees (strict : Strict g p) (allowMapEntry : Bool) :
    EntryAgrees g (parseEntry inner allowMapEntry) p := by
  refine flush_then strict fun leading q strict' _ _ => ?_
  rw [run_get, run_get, forgiving_current]
  split
  · refine strict'.advance_then (fun stricter _ => parseTail_agrees deep stricter _ _)
      (fun mode illegal => (parseTail_fails mode illegal _ _).stalled) ?_
    exact fun q marked => parseTail_marks deep.kept _ _ q
      (marked.mono fun _ => .inl)
  · exact (parseNoEntry_fails strict'.mode leading).agrees (parseNoEntry_ends rfl leading)

omit deep in
theorem parseTypeUrl_agrees (strict : Strict g p) (leading : List Comment) (pos : Position) :
    EntryAgrees g (parseTypeUrl leading pos) p := by
  rw [EntryAgrees, parseTypeUrl, run_get, run_get, forgiving_current]
  split
  · exact (typeEntryFail_fails strict.mode _ _ _).agrees (typeEntryFail_ends rfl _ _ _)
  · refine strict.advance_then (fun stricter legal => ?_) (fun mode illegal => ?_) ?_
    · obtain ⟨t, comments, ran, also⟩ := takeTrailingComment_run p.tokenEnd p.advanced
      rw [run_bind_ok ran, run_bind_ok also]
      exact .same (stricter.comments _) legal (by simp [Entry.Clear])
    · obtain ⟨t, comments, ran, _⟩ := takeTrailingComment_run p.tokenEnd p.advanced
      rw [run_bind_ok ran]
      exact ⟨mode, .inl illegal⟩
    · exact marks_bind (takeTrailingComment_marks _) fun _ => marks_pure _

omit deep in
theorem parseTypeUrl_marks (leading : List Comment) (pos : Position) :
    Marks DeadToken DeadToken (parseTypeUrl leading pos) := by
  refine marks_of (parseTypeUrl_stepwise leading pos) fun q mode dead => ?_
  rw [parseTypeUrl, run_get, if_pos (by rcases dead.kind with kind | kind <;> simp [kind])]
  exact typeEntryFail_ends mode _ _ _

omit deep in
theorem parseTypeEntry_agrees (strict : Strict g p) (first : Bool) :
    EntryAgrees g (parseTypeEntry first) p := by
  refine flush_then strict fun leading q strict' _ _ => ?_
  rw [run_get, run_get, forgiving_current]
  split
  · exact (typeEntryFail_fails strict'.mode _ _ _).agrees (typeEntryFail_ends rfl _ _ _)
  refine strict'.advance_then (fun stricter _ => ?_) (fun mode illegal => ?_) ?_
  · rw [run_get, run_get, forgiving_current]
    split
    · exact (typeEntryFail_fails stricter.mode _ _ _).agrees (typeEntryFail_ends rfl _ _ _)
    · refine stricter.advance_then (fun strictest _ => parseTypeUrl_agrees strictest leading _)
        (fun mode illegal => ?_) (parseTypeUrl_marks leading _)
      rw [parseTypeUrl, run_get, if_pos (by rw [not_not.mp illegal]; simp)]
      exact (typeEntryFail_fails mode _ _ _).stalled
  · rw [run_get, if_pos (by rw [not_not.mp illegal]; simp)]
    exact (typeEntryFail_fails mode _ _ _).stalled
  · refine marks_get fun r marked => ?_
    split
    · exact typeEntryFail_ends marked.1 _ _ _
    · rename_i equals
      have noted := (marked.mono fun _ => .inl).noted (not_not.mp equals) ⟨by simp, by simp, by simp⟩
      exact parseTypeUrl_marks leading _ _ (onward_order.advanced _ noted).marked

theorem parseBodyEntry_agrees (strict : Strict g p) (first : Bool) :
    EntryAgrees g (parseBodyEntry inner first) p := by
  rw [EntryAgrees, parseBodyEntry, run_get, run_get, forgiving_current]
  split
  · exact parseTypeEntry_agrees strict first
  · exact parseEntry_agrees deep strict true

def entriesClean (g : Ground) : Turn (List Entry) (List Entry) → Prop
  | .next entries => EntriesClear g entries
  | .done entries => EntriesClear g entries

def entriesFlaw (g : Ground) : Turn (List Entry) (List Entry) → Parser → Prop
  | .next entries, p => ¬EntriesClear g entries ∨ Follows p
  | .done entries, _ => ¬EntriesClear g entries

omit deep in
theorem entries_unclear (unclear : ¬EntriesClear g entries) (entry : Option Entry) :
    ¬EntriesClear g (entries ++ entry.toList) :=
  fun clear => unclear ((entriesClear_append g entries entry).mp clear).1

omit deep in
theorem nextEntry_agrees {entry : ParserM (Option Entry)} (clear : EntriesClear g entries)
    (agrees : EntryAgrees g entry p) :
    Agreement g DeadToken (entriesClean g) (entriesFlaw g)
      ((do let e ← entry; pure (.next (entries ++ e.toList)) :
        ParserM (Turn (List Entry) (List Entry))) p)
      ((do let e ← entry; pure (.next (entries ++ e.toList)) :
        ParserM (Turn (List Entry) (List Entry))) p.forgiving) := by
  refine agrees.bind ?_ ?_ fun _ => marks_pure _
  · intro e q _ strict' legal' isClear
    exact .same strict' legal' ((entriesClear_append g entries e).mpr ⟨clear, isClear⟩)
  · intro e q _ mode reason
    refine ⟨mode, reason.imp_right (.imp_left fun unclear all => ?_)⟩
    exact unclear ((entriesClear_append g entries e).mp all).2

omit deep in
theorem nextEntry_stalls {entry : ParserM (Option Entry)} (mode : p.tolerant = false)
    (kept : Stepwise entry)
    (fails : p.current.kind.startsKey = false → ¬Legal p ∨ Follows p → Fails (entry p))
    (reason : ¬Legal p ∨ ¬EntriesClear g entries ∨ Follows p) :
    Stalled (entriesFlaw g) ((do let e ← entry; pure (.next (entries ++ e.toList)) :
      ParserM (Turn (List Entry) (List Entry))) p) := by
  rcases reason with illegal | unclear | follows
  · exact ((fails (illegal_startsKey illegal) (.inl illegal)).bind _).stalled
  · refine stalled_of mode (.bind kept fun _ => .pure _) ?_
    intro turned q ran
    obtain ⟨e, _, _, last⟩ := bind_ok ran
    cases last
    exact .inl (entries_unclear unclear e)
  · exact ((fails follows.startsKey (.inr follows)).bind _).stalled

omit deep in
theorem unclear_of_flaw (closed : p.current.kind = .rBrace ∨ p.current.kind = .eof)
    (reason : ¬Legal p ∨ ¬EntriesClear g entries ∨ Follows p) : ¬EntriesClear g entries := by
  rcases reason with illegal | unclear | follows | follows | follows
  · rw [Legal, not_not] at illegal
    simp [illegal] at closed
  · exact unclear
  all_goals simp [follows] at closed

omit deep in
theorem parseBodyEntry_fails (mode : p.tolerant = false) (first : Bool)
    (noKey : p.current.kind.startsKey = false) (flaw : ¬Legal p ∨ Follows p) :
    Fails (parseBodyEntry inner first p) := by
  have notType : p.current.kind ≠ .atType := by
    rcases flaw with illegal | follows | follows | follows
    · rw [not_not.mp illegal]; simp
    all_goals simp [follows]
  rw [parseBodyEntry, run_get, if_neg notType]
  exact parseEntry_fails mode inner true noKey

theorem bodyTurn_stalls (entries : List Entry) (p : Parser) (mode : p.tolerant = false)
    (reason : ¬Legal p ∨ ¬EntriesClear g entries ∨ Follows p) :
    Stalled (entriesFlaw g) (bodyTurn inner entries p) := by
  rw [bodyTurn, run_get]
  split
  · rename_i closed
    simp only [Parser.tolerantRowClose, mode, Bool.false_and, Bool.or_false, Bool.or_eq_true,
      decide_eq_true_eq] at closed
    exact ⟨mode, .inr (unclear_of_flaw closed reason)⟩
  · exact nextEntry_stalls mode (parseBodyEntry_stepwise deep.kept _)
      (parseBodyEntry_fails mode _) reason

theorem bodyTurn_agrees (entries : List Entry) (p : Parser) (strict : Strict g p) (legal : Legal p)
    (clear : EntriesClear g entries) :
    Agreement g DeadInside (entriesClean g) (entriesFlaw g) (bodyTurn inner entries p)
      (bodyTurn inner entries p.forgiving) := by
  have noRow : p.tolerantRowClose = false := by simp [Parser.tolerantRowClose, strict.mode]
  rw [bodyTurn, run_get, run_get, forgiving_current]
  by_cases closed : (p.current.kind = .rBrace || p.current.kind = .eof) = true
  · rw [if_pos (by simp [closed]), if_pos (by simp [closed])]
    exact .same strict legal clear
  rw [if_neg (by simp [closed, noRow])]
  by_cases row : p.current.kind = .rParen
  · -- Only a tolerant parser leaves the body here; a strict one refuses the token.
    rw [if_pos (by simp [Parser.tolerantRowClose, row])]
    have refused : Fails (parseBodyEntry inner entries.isEmpty p) := by
      rw [parseBodyEntry, run_get, if_neg (by simp [row])]
      exact parseEntry_fails strict.mode inner true (by simp [row, TokenKind.startsKey])
    exact (refused.bind _).agrees ⟨rfl, .inr (.inr row)⟩
  rw [if_neg (by simp [closed, Parser.tolerantRowClose, row])]
  exact (nextEntry_agrees clear (parseBodyEntry_agrees deep strict _)).mono fun _ => .inl

omit deep in
theorem closeBody_agrees (strict : Strict g p) (clear : EntriesClear g entries) :
    BodyAgrees g (closeBody entries) p := by
  refine flush_then strict fun trailing q strict' _ _ => ?_
  rw [run_get, run_get, forgiving_current, forgiving_tokenEnd]
  split
  · rw [if_pos (by simp [strict'.mode]), if_neg (by simp)]
    exact (err_fails _ _ q).agrees (ends_report (fun _ => .pure _) rfl _ _)
  · exact strict'.advance_then (fun stricter legal => .same stricter legal clear)
      (fun mode illegal => ⟨mode, .inl illegal⟩) (marks_pure _)

omit deep in
theorem closeBody_stalls (mode : p.tolerant = false) (reason : ¬Legal p ∨ ¬EntriesClear g entries) :
    Stalled (fun body _ => ¬EntriesClear g body.entries) (closeBody entries p) := by
  have flushed : flushComments p = .ok p.comments { p with comments := [] } := rfl
  rw [closeBody, run_bind_ok flushed, run_get]
  split
  · rw [if_pos (by simp [mode])]
    exact (err_fails _ _ _).stalled
  · rename_i closing
    refine ⟨by simpa using mode, .inr (reason.resolve_left fun illegal => ?_)⟩
    rw [not_not.mp illegal] at closing
    simp at closing

theorem parseBody_agrees (strict : Strict g p) (legal : Legal p) :
    BodyAgrees g (parseBody inner) p := by
  refine (agreement_loop (entriesClean g) (entriesFlaw g) (bodyTurn_agrees deep)
    (bodyTurn_stalls deep) (bodyTurn_marks deep.kept) [] strict legal
    (by simp [entriesClean, EntriesClear])).bind ?_ ?_ ?_
  · exact fun entries q _ strict' _ clear => closeBody_agrees strict' clear
  · exact fun entries q _ mode reason => closeBody_stalls mode reason
  · exact fun entries => closeBody_marks entries

omit deep in
theorem parseBody_fails (mode : p.tolerant = false) (illegal : ¬Legal p) :
    Fails (parseBody inner p) := by
  refine Fails.bind (Fails.loop ?_) _
  rw [bodyTurn, run_get, if_neg ?_]
  · exact (parseBodyEntry_fails mode _ (illegal_startsKey illegal) (.inl illegal)).bind _
  · rw [Parser.tolerantRowClose, mode, not_not.mp illegal]
    simp

end

theorem parseNested_agrees (g : Ground) (room : Nat) : DeepAgrees g (parseNested room) := by
  induction room with
  | zero =>
    constructor
    case kept => exact parseNested_stepwise 0
    all_goals exact fun _ none => nomatch none
  | succ room ih =>
    have kept := ih.kept
    constructor
    case kept => exact parseNested_stepwise (room + 1)
    case value => rintro _ ⟨⟩ p strict _; exact parseValue_agrees ih strict
    case valueMarks => rintro _ ⟨⟩; exact parseValue_marks kept
    case valueFails => rintro _ ⟨⟩ p mode kind; exact parseValue_fails mode _ kind
    case body => rintro _ ⟨⟩ p strict legal; exact parseBody_agrees ih strict legal
    case bodyMarks => rintro _ ⟨⟩; exact parseBody_marks kept
    case bodyFails => rintro _ ⟨⟩ p mode illegal; exact parseBody_fails mode illegal

end Protowire.Pxf
