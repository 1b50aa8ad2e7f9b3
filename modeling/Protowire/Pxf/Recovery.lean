import Protowire.Pxf.Agreement

/-!
Which runs fail, and which leave a mark: a strict parser refuses a token that starts nothing,
and a tolerant one that stands on a dead token records an error before it leaves.
-/

namespace Protowire.Pxf

open Support

variable {p q : Parser}

def Fails {σ α : Type} (run : EStateM.Result Status σ α) : Prop :=
  ∃ failure state, run = .error failure state

section

variable {σ α β ρ : Type}

theorem Fails.stalled {flaw : α → Parser → Prop} {run : EStateM.Result Status Parser α}
    (fails : Fails run) : Stalled flaw run := by
  obtain ⟨_, _, rfl⟩ := fails
  trivial

theorem Fails.bind {program : EStateM Status σ α} {p : σ} (fails : Fails (program p))
    (next : α → EStateM Status σ β) : Fails ((program >>= next) p) := by
  obtain ⟨failure, p', ran⟩ := fails
  exact ⟨failure, p', by rw [run_bind, ran]⟩

theorem Fails.map {program : EStateM Status σ α} {p : σ} (fails : Fails (program p))
    (change : α → β) : Fails ((change <$> program) p) := by
  obtain ⟨failure, p', ran⟩ := fails
  exact ⟨failure, p', by rw [run_map, ran]⟩

theorem Fails.loop {turn : α → ParserM (Turn α ρ)} {carried : α} (fails : Fails (turn carried p)) :
    Fails (repeatWhile Parser.remaining turn carried p) :=
  fails.bind _

theorem err_fails (pos : Position) (msg : Bytes) (p : Parser) :
    Fails (err pos msg p : EStateM.Result Status Parser α) := ⟨_, _, rfl⟩

theorem soft_fails (mode : p.tolerant = false) (pos : Position) (msg : Bytes) :
    Fails (soft pos msg p) := by
  rw [soft_strict mode]
  exact err_fails pos msg p

theorem Fails.agrees {g : Ground} {clean : α → Prop} {flaw : α → Parser → Prop}
    {dead : Token → Prop} {run other : EStateM.Result Status Parser α} (fails : Fails run)
    (ends : Ends dead other) : Agreement g dead clean flaw run other := by
  obtain ⟨_, _, rfl⟩ := fails
  exact .failed ends

theorem Agreement.attempt {g : Ground} {clean : α → Prop} {flaw : α → Parser → Prop}
    {clean' : β → Prop} {flaw' : β → Parser → Prop} {dead dead' : Token → Prop}
    {program : ParserM α} {next : Except Status α → ParserM β}
    (first : Agreement g dead clean flaw (program p) (program q))
    (same : ∀ result p', Strict g p' → Legal p' → clean result →
      Agreement g dead' clean' flaw' (next (.ok result) p') (next (.ok result) p'.forgiving))
    (stalls : ∀ result p', p'.tolerant = false → ¬Legal p' ∨ flaw result p' →
      Stalled flaw' (next (.ok result) p')) (marks : ∀ result, Marks dead dead' (next (.ok result)))
    (fails : ∀ failure p', program p = .error failure p' → Fails (next (.error failure) p'))
    (ends : ∀ failure q', program q = .error failure q' → Ends dead' (next (.error failure) q')) :
    Agreement g dead' clean' flaw' ((Support.attempt program >>= next) p)
      ((Support.attempt program >>= next) q) := by
  -- The tolerant run leaves a mark, whether the program fails in it or not.
  have marked (other : Ends dead (program q)) :
      Ends dead' ((Support.attempt program >>= next) q) := by
    rw [run_attempt]
    cases also : program q with
    | ok result q' => rw [also] at other; exact marks result q' other
    | error failure q' => exact ends failure q' also
  generalize ran : program p = run at first
  generalize also : program q = other at first
  cases first with
  | same strict legal isClean =>
    rw [run_attempt, run_attempt, ran, also]
    exact same _ _ strict legal isClean
  | flawed mode reason ends =>
    refine .of_stalled ?_ (marked (also ▸ ends))
    rw [run_attempt, ran]
    exact stalls _ _ mode reason
  | failed ends =>
    refine Fails.agrees ?_ (marked (also ▸ ends))
    rw [run_attempt, ran]
    exact fails _ _ ran

end

theorem softWhen_strict (mode : p.tolerant = false) (condition : Bool) (pos : Position)
    (msg : Bytes) :
    Fails (softWhen condition pos msg p) ∨ softWhen condition pos msg p = .ok () p := by
  cases condition with
  | true => exact .inl (soft_fails mode pos msg)
  | false => exact .inr rfl

theorem checkStandalone_strict (mode : p.tolerant = false) (doc : Document) :
    Fails (checkStandalone doc p) ∨ checkStandalone doc p = .ok () p := by
  unfold checkStandalone
  cases doc.datasets with
  | nil => exact .inr rfl
  | cons first rest =>
    rcases softWhen_strict mode (!doc.typeUrl.isEmpty) first.pos
      (text "@dataset directive cannot coexist with @type; the @dataset header " ++
        text "declares the document's type (draft §3.4.4)") with fails | same
    · exact .inl (fails.bind _)
    · simp only [run_bind_ok same, run_get]
      exact softWhen_strict mode _ _ _

theorem parseTableHeader_closes {header : Bytes × List Bytes}
    (ran : parseTableHeader p = .ok header q) : q.current.kind = .rParen := by
  obtain ⟨type, _, _, listed⟩ := bind_ok ran
  obtain ⟨columns, _, list, last⟩ := bind_ok listed
  cases last
  rw [parseColumnList, run_get] at list
  split at list
  · cases list
  obtain ⟨_, _, _, read⟩ := bind_ok list
  rw [parseColumns, run_get] at read
  split at read
  · cases read
  obtain ⟨found, following, looped, checked⟩ := bind_ok read
  have same : following = q := by
    generalize columnPathError (found.map (·.1)) = outcome at checked
    cases outcome with
    | some _ => cases checked
    | none => cases checked; rfl
  rw [← same]
  refine repeatWhile_done (fun _ q => q.current.kind = .rParen) ?_ looped
  intro columns p columns' r turned
  rw [columnTurn, run_get] at turned
  split at turned
  · cases turned
  obtain ⟨_, p', _, rest⟩ := bind_ok turned
  rw [run_get] at rest
  split at rest
  · obtain ⟨_, _, _, going⟩ := bind_ok rest
    cases going
  split at rest
  · rename_i closed
    cases rest
    exact closed
  · cases rest

theorem parseNoValue_fails (mode : p.tolerant = false) : Fails (parseNoValue p) := by
  simp only [parseNoValue, run_get, mode, Bool.not_false, if_true]
  exact err_fails _ _ p

def TokenKind.startsNoValue : TokenKind → Bool
  | .illegal | .equals | .colon | .comma | .eof | .rBracket | .rBrace | .rParen | .lParen => true
  | _ => false

theorem illegal_startsNoValue (illegal : ¬Legal p) : p.current.kind.startsNoValue := by
  rw [not_not.mp illegal]
  rfl

theorem parseValue_fails (mode : p.tolerant = false) (inner : Option Nested)
    (kind : p.current.kind.startsNoValue) : Fails (parseValue inner p) := by
  have refused := parseNoValue_fails mode
  simp only [parseValue, run_get, mode, Bool.false_and, Bool.false_eq_true, if_false]
  cases found : p.current.kind <;> simp only [found, TokenKind.startsNoValue] at kind ⊢ <;>
    first
      | exact refused
      | cases kind

theorem parseNoEntry_fails (mode : p.tolerant = false) (leading : List Comment) :
    Fails (parseNoEntry leading p) := by
  rw [parseNoEntry, run_get, if_pos (by simp [mode])]
  exact err_fails _ _ p

theorem parseEntry_fails (mode : p.tolerant = false) (inner : Option Nested) (allowMapEntry : Bool)
    (kind : p.current.kind.startsKey = false) : Fails (parseEntry inner allowMapEntry p) := by
  have flushed : flushComments p = .ok p.comments { p with comments := [] } := rfl
  rw [parseEntry, run_bind_ok flushed, run_get, if_neg (by simp [kind])]
  exact parseNoEntry_fails (p := { p with comments := [] }) mode p.comments

theorem typeEntryFail_fails (mode : p.tolerant = false) (leading : List Comment) (pos : Position)
    (msg : Bytes) : Fails (typeEntryFail leading pos msg p) := by
  rw [typeEntryFail, run_get, if_pos (by simp [mode])]
  exact err_fails _ _ p

def DeadInside (token : Token) : Prop := DeadToken token ∨ token.kind = .rParen

theorem deadInside_kind {token : Token} (dead : DeadInside token) :
    token.kind = .illegal ∨ token.kind = .bytes ∨ token.kind = .rParen := by
  rcases dead with dead | paren
  · exact dead.kind.imp_right .inl
  · exact .inr (.inr paren)

theorem Marked.noted (marked : Marked DeadInside q) {kind : TokenKind}
    (found : q.current.kind = kind) (alive : kind ≠ .illegal ∧ kind ≠ .bytes ∧ kind ≠ .rParen) :
    Noted q := by
  refine ⟨marked.1, marked.2.resolve_right fun dead => ?_⟩
  rcases deadInside_kind dead with illegal | bytes | paren
  · exact alive.1 (found ▸ illegal)
  · exact alive.2.1 (found ▸ bytes)
  · exact alive.2.2 (found ▸ paren)

section

variable {dead : Token → Prop}

theorem ends_advance {α : Type} (noted : Noted q) (result : α) :
    Ends dead ((do advance; pure result : ParserM α) q) :=
  Stepwise.ends (.bind (.step .advance) fun _ => .pure _) noted

theorem takeTrailingComment_marks (stop : Position) :
    Marks dead dead (takeTrailingComment stop) := by
  intro q marked
  simp only [takeTrailingComment]
  repeat' split
  all_goals exact marked

theorem flushComments_marks : Marks dead dead flushComments := fun _ marked => marked

theorem restoreComments_marks (comments : List Comment) :
    Marks dead dead (restoreComments comments) := fun _ marked => marked

theorem parseNoValue_ends (mode : q.tolerant = true) : Ends dead (parseNoValue q) := by
  simp only [parseNoValue, run_get, mode, Bool.not_true, Bool.false_eq_true, if_false]
  refine ends_report (fun _ => ?_) mode _ _
  split
  case h_5 =>
    exact .bind (.step .advance) fun _ => .pure _
  all_goals exact .pure _

theorem parseNoEntry_ends (mode : q.tolerant = true) (leading : List Comment) :
    Ends dead (parseNoEntry leading q) := by
  simp only [parseNoEntry, run_get, mode, Bool.not_true, Bool.false_eq_true, if_false]
  exact ends_report (fun _ => .bind (.step (.restoreComments _))
    fun _ => .bind (.step .advance) fun _ => .pure _) mode _ _

theorem typeEntryFail_ends (mode : q.tolerant = true) (leading : List Comment) (pos : Position)
    (msg : Bytes) : Ends dead (typeEntryFail leading pos msg q) := by
  rw [typeEntryFail, run_get, if_neg (by simp [mode])]
  exact ends_report (fun _ => .bind (.step (.restoreComments _))
    fun _ => .bind (skipTypeEntry_stepwise _) fun _ => .pure _) mode _ _

theorem closeBody_marks (entries : List Entry) : Marks DeadInside dead (closeBody entries) := by
  refine marks_bind flushComments_marks fun trailing => marks_get fun q marked => ?_
  split
  · simp only [marked.1, Bool.not_true, Bool.false_eq_true, if_false]
    exact ends_report (fun _ => .pure _) marked.1 _ _
  · rename_i closing
    exact ends_advance (marked.noted (not_not.mp closing) ⟨by simp, by simp, by simp⟩) _

theorem closeList_marks (pos : Position) (elements : List Value) :
    Marks DeadInside dead (closeList pos elements) := by
  refine marks_get fun q marked => ?_
  split
  · exact ends_soft (fun _ => .pure _) marked.1 _ _
  · rename_i closing
    exact ends_advance (marked.noted (not_not.mp closing) ⟨by simp, by simp, by simp⟩) _

variable {inner : Option Nested} (kept : NestedStepwise inner)

include kept

theorem parseValue_marks : Marks DeadInside dead (parseValue inner) := by
  refine marks_of (parseValue_stepwise kept) fun q mode dying => ?_
  have noKey : q.currentStartsEntry = false := by
    rcases deadInside_kind dying with kind | kind | kind <;>
      simp [Parser.currentStartsEntry, kind, TokenKind.startsKey]
  simp only [parseValue, run_get, noKey, Bool.and_false, Bool.false_eq_true, if_false]
  rcases dying with (illegal | ⟨bytes, undecodable⟩) | paren
  · simp only [illegal]
    exact parseNoValue_ends mode
  · simp only [bytes, parseBytesVal, run_get]
    cases decoded : base64DecodeLenient q.current.value with
    | ok decoded' => rw [decoded] at undecodable; cases undecodable
    | error offset =>
      exact ends_soft (fun _ => .bind (.step .advance) fun _ => .pure _) mode _ _
  · simp only [paren]
    exact parseNoValue_ends mode

theorem parseEntry_marks (allowMapEntry : Bool) :
    Marks DeadInside dead (parseEntry inner allowMapEntry) := by
  refine marks_of (parseEntry_stepwise kept allowMapEntry) fun q mode dying => ?_
  have noKey : q.current.kind.startsKey = false := by
    rcases deadInside_kind dying with kind | kind | kind <;> simp [kind, TokenKind.startsKey]
  have flushed : flushComments q = .ok q.comments { q with comments := [] } := rfl
  rw [parseEntry, run_bind_ok flushed]
  simp only [run_get, noKey, Bool.false_eq_true, if_false]
  exact parseNoEntry_ends (q := { q with comments := [] }) mode _

theorem parseTail_marks (allowMapEntry : Bool) (key : Key) :
    Marks DeadInside dead (parseTail inner allowMapEntry key) := by
  have onward := parseTail_stepwise kept allowMapEntry key
  refine marks_of onward fun q mode dying => ?_
  have dangling : parseTail inner allowMapEntry key q = (some <$> parseDangling key) q := by
    rcases deadInside_kind dying with kind | kind | kind <;> simp only [parseTail, run_get, kind]
  rw [dangling]
  have marks : Marks DeadInside dead (parseDangling key) := fun q marked =>
    ends_soft (fun _ => .pure _) marked.1 _ _
  exact marks_map marks q ⟨mode, .inr dying⟩

theorem parseBodyEntry_marks (first : Bool) :
    Marks DeadInside dead (parseBodyEntry inner first) := by
  refine marks_get fun q marked => ?_
  split
  · rename_i atType
    exact Stepwise.ends (parseTypeEntry_stepwise first)
      (marked.noted atType ⟨by simp, by simp, by simp⟩)
  · exact parseEntry_marks kept true q marked

theorem bodyTurn_marks (entries : List Entry) :
    Marks DeadInside DeadInside (bodyTurn inner entries) := by
  refine marks_get fun q marked => ?_
  split
  · exact marked
  · exact marks_bind (parseBodyEntry_marks kept _) (fun _ => marks_pure _) q marked

theorem parseBody_marks : Marks DeadInside dead (parseBody inner) :=
  marks_bind (marks_loop (bodyTurn_marks kept) []) fun entries => closeBody_marks entries

theorem entryTurn_marks (entries : List Entry) :
    Marks DeadInside DeadInside (entryTurn inner entries) := by
  refine marks_get fun q marked => ?_
  split
  · exact marked
  · exact marks_bind (parseEntry_marks kept false) (fun _ => marks_pure _) q marked

end

theorem keepElement_marks (elements : List Value) (before : Nat) (element : Value) :
    Marks DeadInside DeadInside (keepElement elements before element) := by
  refine marks_get fun q marked => ?_
  split
  · exact marked
  · by_cases comma : q.current.kind = .comma
    · exact Stepwise.ends (.bind (advanceWhen_stepwise _) fun _ =>
        .pure _) (marked.noted comma ⟨by simp, by simp, by simp⟩)
    · simp only [comma, decide_false, advanceWhen, Bool.false_eq_true, if_false]
      exact marked

theorem listTurn_marks {value : ParserM Value} (marks : Marks DeadInside DeadInside value)
    (elements : List Value) : Marks DeadInside DeadInside (listTurn value elements) := by
  refine marks_get fun q marked => ?_
  split
  · exact marked
  · exact ends_bind (marks q marked) fun element => keepElement_marks _ _ _

end Protowire.Pxf
