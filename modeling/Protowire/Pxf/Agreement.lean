import Protowire.Pxf.Parser

/-!
Two runs of one parser, strict and tolerant, over the same document. As long as the strict run
meets no illegal token and no recovery fires, the tolerant run passes through the same states.
Where they part, the tolerant run has an error recorded or stands on a token that will make it
record one.
-/

namespace Protowire.Pxf

open Support

structure Ground where
  input : Bytes
  limit : Nat
  depth : Nat

def Ground.lexer (g : Ground) (pos : Position) : Lexer :=
  { input := g.input, pos := pos.offset, line := pos.line, column := pos.column,
    maxBytesLiteral := g.limit }

def Ground.parser (g : Ground) (pos : Position) : Parser :=
  Parser.advanced { lex := g.lexer pos, maxDepth := g.depth }

structure Aligned (g : Ground) (p : Parser) : Prop where
  frame : p = { lex := p.lex, current := p.current, comments := p.comments, maxDepth := g.depth,
                prevEnd := p.prevEnd }
  lex : p.lex = g.lexer p.lex.currentPos

structure Strict (g : Ground) (p : Parser) : Prop extends Aligned g p where
  stands : significant (g.lexer p.current.pos) = ⟨p.current, p.lex, [], []⟩

section

variable {g : Ground} {p : Parser}

theorem Aligned.mode (aligned : Aligned g p) : p.tolerant = false := by rw [aligned.frame]

theorem Aligned.silent (aligned : Aligned g p) : p.errs = [] := by rw [aligned.frame]

theorem Aligned.depth (aligned : Aligned g p) : p.maxDepth = g.depth := by rw [aligned.frame]

theorem Strict.comments (strict : Strict g p) (comments : List Comment) :
    Strict g { p with comments } := by
  refine ⟨⟨?_, strict.lex⟩, strict.stands⟩
  rw [strict.frame]

end

def Legal (p : Parser) : Prop := p.current.kind ≠ .illegal

def Parser.forgiving (p : Parser) : Parser := { p with tolerant := true, lex := p.lex.forgiving }

section

variable (p : Parser)

@[simp] theorem forgiving_current : p.forgiving.current = p.current := rfl

@[simp] theorem forgiving_tolerant : p.forgiving.tolerant = true := rfl

@[simp] theorem forgiving_comments : p.forgiving.comments = p.comments := rfl

@[simp] theorem forgiving_prevEnd : p.forgiving.prevEnd = p.prevEnd := rfl

@[simp] theorem forgiving_maxDepth : p.forgiving.maxDepth = p.maxDepth := rfl

@[simp] theorem forgiving_tokenEnd : p.forgiving.tokenEnd = p.tokenEnd := rfl

@[simp] theorem forgiving_remaining : p.forgiving.remaining = p.remaining := rfl

@[simp] theorem forgiving_input : p.forgiving.lex.input = p.lex.input := rfl

end

def Noted (q : Parser) : Prop := q.tolerant = true ∧ q.errs ≠ []

def Marked (dead : Token → Prop) (q : Parser) : Prop :=
  q.tolerant = true ∧ (q.errs ≠ [] ∨ dead q.current)

def Ends {α : Type} (dead : Token → Prop) : EStateM.Result Status Parser α → Prop
  | .ok _ q => Marked dead q
  | .error _ _ => True

def Marks {α : Type} (dead dead' : Token → Prop) (program : ParserM α) : Prop :=
  ∀ q, Marked dead q → Ends dead' (program q)

def Onward (q q' : Parser) : Prop := Noted q → Noted q'

theorem mode_order : ParserOrder fun p q => q.tolerant = p.tolerant where
  refl _ := rfl
  trans _ _ _ first second := second.trans first
  advanced _ := by simp
  comments _ _ := rfl
  errs _ _ := rfl
  errPos _ _ := rfl
  reposition _ _ := rfl

theorem onward_order : ParserOrder Onward where
  refl _ noted := noted
  trans _ _ _ first second noted := second (first noted)
  advanced _ noted := by simp [Noted, noted.1, noted.2]
  comments _ _ noted := noted
  errs _ _ noted := ⟨noted.1, by simp⟩
  errPos _ _ noted := noted
  reposition _ _ noted := noted

theorem Noted.marked {dead : Token → Prop} {q : Parser} (noted : Noted q) : Marked dead q :=
  ⟨noted.1, .inl noted.2⟩

section

variable {α β ρ : Type} {dead dead' dead'' : Token → Prop}

theorem ends_of_noted {result : EStateM.Result Status Parser α} (noted : Noted (left result)) :
    Ends dead result := by
  cases result with
  | ok _ q => exact noted.marked
  | error _ _ => trivial

theorem Stepwise.ends {program : ParserM α} (kept : Stepwise program) {q : Parser}
    (noted : Noted q) : Ends dead (program q) := ends_of_noted (kept.keeps onward_order q noted)

theorem marks_of {program : ParserM α} (kept : Stepwise program)
    (from_ : ∀ q, q.tolerant = true → dead q.current → Ends dead' (program q)) :
    Marks dead dead' program := by
  rintro q ⟨mode, recorded | token⟩
  · exact kept.ends ⟨mode, recorded⟩
  · exact from_ q mode token

theorem Marked.mono (wider : ∀ token, dead token → dead' token) {q : Parser}
    (marked : Marked dead q) : Marked dead' q := ⟨marked.1, marked.2.imp_right (wider _)⟩

theorem Ends.mono (wider : ∀ token, dead token → dead' token)
    {run : EStateM.Result Status Parser α} (ends : Ends dead run) : Ends dead' run := by
  cases run with
  | ok _ q => exact Marked.mono wider ends
  | error _ _ => trivial

theorem marks_pure (result : α) : Marks dead dead (pure result : ParserM α) :=
  fun _ marked => marked

theorem ends_bind {program : ParserM α} {next : α → ParserM β} {q : Parser}
    (first : Ends dead (program q)) (second : ∀ result, Marks dead dead' (next result)) :
    Ends dead' ((program >>= next) q) := by
  rw [run_bind]
  cases ran : program q with
  | ok result following =>
    rw [ran] at first
    exact second result following first
  | error _ _ => trivial

theorem marks_bind {program : ParserM α} {next : α → ParserM β} (first : Marks dead dead' program)
    (second : ∀ result, Marks dead' dead'' (next result)) : Marks dead dead'' (program >>= next) :=
  fun q marked => ends_bind (first q marked) second

theorem marks_get {next : Parser → ParserM β}
    (second : ∀ q, Marked dead q → Ends dead' (next q q)) : Marks dead dead' (get >>= next) :=
  fun q marked => second q marked

theorem marks_map {change : α → β} {program : ParserM α} (marks : Marks dead dead' program) :
    Marks dead dead' (change <$> program) := by
  intro q marked
  have ended := marks q marked
  rw [run_map]
  cases ran : program q with
  | ok result following => rw [ran] at ended; exact ended
  | error _ _ => trivial

theorem marks_iterate {turn : α → ParserM (Turn α ρ)}
    (marks : ∀ carried, Marks dead dead (turn carried)) :
    ∀ fuel carried, Marks dead dead (iterateM turn fuel carried) := by
  intro fuel
  induction fuel with
  | zero => intro carried q _; trivial
  | succ fuel ih =>
    intro carried
    refine marks_bind (marks carried) fun turned => ?_
    cases turned with
    | next following => exact ih following
    | done result => exact marks_pure result

theorem marks_loop {turn : α → ParserM (Turn α ρ)}
    (marks : ∀ carried, Marks dead dead (turn carried)) (carried : α) :
    Marks dead dead (repeatWhile Parser.remaining turn carried) :=
  fun q => marks_iterate marks _ carried q

theorem ends_report {next : Unit → ParserM β} (kept : ∀ result, Stepwise (next result))
    {q : Parser} (mode : q.tolerant = true) (pos : Position) (msg : Bytes) :
    Ends dead ((report pos msg >>= next) q) := by
  have noted : Noted { q with errs := q.errs ++ [⟨pos, msg⟩] } := ⟨mode, by simp⟩
  exact (kept ()).ends noted

theorem soft_tolerant {q : Parser} (mode : q.tolerant = true) (pos : Position) (msg : Bytes) :
    soft pos msg q = report pos msg q := by
  simp [soft, mode]

theorem ends_soft {next : Unit → ParserM β} (kept : ∀ result, Stepwise (next result))
    {q : Parser} (mode : q.tolerant = true) (pos : Position) (msg : Bytes) :
    Ends dead ((soft pos msg >>= next) q) := by
  have reported : Ends dead _ := ends_report kept mode pos msg
  rw [run_bind] at reported ⊢
  rw [soft_tolerant mode]
  exact reported

theorem soft_strict {q : Parser} (mode : q.tolerant = false) (pos : Position) (msg : Bytes) :
    soft pos msg q = err pos msg q := by
  simp [soft, mode]

end

theorem DeadToken.kind {token : Token} (dead : DeadToken token) :
    token.kind = .illegal ∨ token.kind = .bytes := dead.imp_right (·.1)

section

variable {g : Ground} {p : Parser}

theorem significant_eq (l : Lexer) : significant l = significantFrom ⟨{}, l, [], []⟩ := rfl

theorem lexer_movedTo {pos : Position} {l : Lexer} (moved : (g.lexer pos).MovedTo l) :
    l = g.lexer l.currentPos := by
  rw [moved]
  simp [Ground.lexer, Lexer.currentPos]

theorem Aligned.advanced (aligned : Aligned g p) : Strict g p.advanced := by
  have lexMode : p.lex.tolerant = false := by rw [aligned.lex]; rfl
  obtain ⟨silent, _, _⟩ := significantFrom_forgives ⟨{}, p.lex, [], []⟩ lexMode rfl
  obtain ⟨at_, moved, spaces, pos, token, lex⟩ := significantFrom_stands ⟨{}, p.lex, [], []⟩
  rw [← significant_eq] at silent pos token lex
  have moved : p.lex.MovedTo at_ := moved
  rw [aligned.lex] at moved
  have atGround := lexer_movedTo moved
  refine ⟨⟨?_, ?_⟩, ?_⟩
  · simp only [Parser.advanced, silent, List.append_nil]
    rw [aligned.frame]
  · have later := at_.next_movedTo
    rw [lex, atGround] at later
    exact lexer_movedTo later
  · have here : at_ = g.lexer p.advanced.current.pos := by rw [atGround, pos]; rfl
    obtain ⟨noNewline, noComment⟩ := significantFrom_kind ⟨{}, p.lex, [], []⟩
    rw [← significant_eq] at noNewline noComment
    rw [← here, significant_eq, significantFrom_done (by rw [token]; exact noNewline)
      (by rw [token]; exact noComment)]
    have quiet : at_.next.2.2 = [] := (next_forgives at_ (by rw [atGround]; rfl)).1
    simp only [Significant.then, token, lex, quiet]
    rfl

theorem Aligned.forgiving_advanced (aligned : Aligned g p) :
    Legal p.advanced ∧ p.forgiving.advanced = p.advanced.forgiving ∨
      ¬Legal p.advanced ∧ Marked DeadToken p.forgiving.advanced ∧
        (p.forgiving.peekKind = .illegal ∨ p.forgiving.peekKind = .string ∨
          p.forgiving.peekKind = .bytes ∨ p.forgiving.peekKind = .eof) := by
  have lexMode : p.lex.tolerant = false := by rw [aligned.lex]; rfl
  obtain ⟨silent, _, agree⟩ := significantFrom_forgives ⟨{}, p.lex, [], []⟩ lexMode rfl
  rcases agree with ⟨legal, same⟩ | ⟨illegal, dead⟩
  · refine .inl ⟨legal, ?_⟩
    have same : significant p.forgiving.lex = (significant p.lex).forgiving := same
    have silent : (significant p.lex).errors = [] := silent
    simp only [Parser.advanced, same]
    simp [Parser.forgiving, Significant.forgiving, Lexer.currentPos, Lexer.forgiving]
  · refine .inr ⟨not_not.mpr illegal, ⟨rfl, ?_⟩, dead.kind⟩
    exact dead.mark.imp_left fun reported => by
      simp only [Parser.advanced]
      exact List.append_ne_nil_of_right_ne_nil _ reported

theorem Strict.forgiving_peekKind (strict : Strict g p) (kind : TokenKind)
    (separator : kind = .equals ∨ kind = .colon ∨ kind = .lBrace) :
    p.forgiving.peekKind = kind ↔ p.peekKind = kind := by
  rcases strict.forgiving_advanced with ⟨_, same⟩ | ⟨illegal, _, dead⟩
  · have peek : p.forgiving.peekKind = p.peekKind := by
      rw [Parser.peekKind, same]
      rfl
    rw [peek]
  · have illegal : p.peekKind = .illegal := not_not.mp illegal
    rw [illegal]
    rcases separator with rfl | rfl | rfl <;> rcases dead with dead | dead | dead | dead <;>
      simp [dead]

theorem Strict.forgiving_startsEntry (strict : Strict g p) :
    p.forgiving.currentStartsEntry = p.currentStartsEntry := by
  simp only [Parser.currentStartsEntry, forgiving_current,
    strict.forgiving_peekKind _ (.inl rfl), strict.forgiving_peekKind _ (.inr (.inl rfl)),
    strict.forgiving_peekKind _ (.inr (.inr rfl))]

end

section

variable {g : Ground} {α β ρ : Type} {dead dead' : Token → Prop}

/-- A strict run and a tolerant one of the same program. `clean` is what can be said of a result
they share; `flaw` is why the strict run may go on where the tolerant one is marked. -/
inductive Agreement (g : Ground) (dead : Token → Prop) (clean : α → Prop) (flaw : α → Parser → Prop) :
    EStateM.Result Status Parser α → EStateM.Result Status Parser α → Prop
  | same {result : α} {p : Parser} (strict : Strict g p) (legal : Legal p)
      (isClean : clean result) : Agreement g dead clean flaw (.ok result p) (.ok result p.forgiving)
  | flawed {result : α} {p : Parser} {other : EStateM.Result Status Parser α}
      (mode : p.tolerant = false) (reason : ¬Legal p ∨ flaw result p) (ends : Ends dead other) :
      Agreement g dead clean flaw (.ok result p) other
  | failed {failure : Status} {p : Parser} {other : EStateM.Result Status Parser α}
      (ends : Ends dead other) : Agreement g dead clean flaw (.error failure p) other

theorem Agreement.mono {clean : α → Prop} {flaw : α → Parser → Prop}
    {run other : EStateM.Result Status Parser α} (wider : ∀ token, dead token → dead' token)
    (agreement : Agreement g dead clean flaw run other) : Agreement g dead' clean flaw run other := by
  cases agreement with
  | same strict legal isClean => exact .same strict legal isClean
  | flawed mode reason ends => exact .flawed mode reason (ends.mono wider)
  | failed ends => exact .failed (ends.mono wider)

theorem Ends.narrow {run : EStateM.Result Status Parser α} (ends : Ends dead run)
    (alive : ∀ result q, run = .ok result q → ¬dead q.current) : Ends dead' run := by
  cases run with
  | ok result q => exact ⟨ends.1, .inl (ends.2.resolve_right (alive result q rfl))⟩
  | error _ _ => trivial

theorem Agreement.narrow {clean : α → Prop} {flaw : α → Parser → Prop}
    {run other : EStateM.Result Status Parser α} (agreement : Agreement g dead clean flaw run other)
    (alive : ∀ result q, other = .ok result q → ¬dead q.current) :
    Agreement g dead' clean flaw run other := by
  cases agreement with
  | same strict legal isClean => exact .same strict legal isClean
  | flawed mode reason ends => exact .flawed mode reason (ends.narrow alive)
  | failed ends => exact .failed (ends.narrow alive)

def Stalled (flaw : α → Parser → Prop) : EStateM.Result Status Parser α → Prop
  | .ok result p => p.tolerant = false ∧ (¬Legal p ∨ flaw result p)
  | .error _ _ => True

theorem stalled_of {flaw : α → Parser → Prop} {program : ParserM α} {p : Parser}
    (mode : p.tolerant = false) (kept : Stepwise program)
    (flaws : ∀ result p', program p = .ok result p' → flaw result p') :
    Stalled flaw (program p) := by
  have same := kept.keeps mode_order p
  cases ran : program p with
  | ok result p' =>
    rw [ran] at same
    exact ⟨same.trans mode, .inr (flaws result p' ran)⟩
  | error _ _ => trivial

theorem Stalled.bind {flaw : α → Parser → Prop} {flaw' : β → Parser → Prop} {program : ParserM α}
    {next : α → ParserM β} {p : Parser} (first : Stalled flaw (program p))
    (second : ∀ result p', program p = .ok result p' → p'.tolerant = false →
      ¬Legal p' ∨ flaw result p' → Stalled flaw' (next result p')) :
    Stalled flaw' ((program >>= next) p) := by
  rw [run_bind]
  cases ran : program p with
  | ok result p' =>
    rw [ran] at first
    exact second result p' ran first.1 first.2
  | error _ _ => trivial

theorem Agreement.of_stalled {clean : α → Prop} {flaw : α → Parser → Prop}
    {run other : EStateM.Result Status Parser α} (stalled : Stalled flaw run)
    (ends : Ends dead other) : Agreement g dead clean flaw run other := by
  cases run with
  | ok result p => exact .flawed stalled.1 stalled.2 ends
  | error _ _ => exact .failed ends

theorem Agreement.bind {clean : α → Prop} {flaw : α → Parser → Prop} {clean' : β → Prop}
    {flaw' : β → Parser → Prop} {program : ParserM α} {next : α → ParserM β} {p q : Parser}
    (first : Agreement g dead clean flaw (program p) (program q))
    (same : ∀ result p', program p = .ok result p' → Strict g p' → Legal p' → clean result →
      Agreement g dead' clean' flaw' (next result p') (next result p'.forgiving))
    (stalls : ∀ result p', program p = .ok result p' → p'.tolerant = false →
      ¬Legal p' ∨ flaw result p' → Stalled flaw' (next result p'))
    (marks : ∀ result, Marks dead dead' (next result)) :
    Agreement g dead' clean' flaw' ((program >>= next) p) ((program >>= next) q) := by
  generalize ran : program p = run at first
  generalize also : program q = other at first
  cases first with
  | same strict legal isClean =>
    rw [run_bind_ok ran, run_bind_ok also]
    exact same _ _ ran strict legal isClean
  | flawed mode reason ends =>
    rw [run_bind_ok ran]
    exact .of_stalled (stalls _ _ ran mode reason) (ends_bind (also ▸ ends) marks)
  | failed ends =>
    rw [run_bind, ran]
    exact .failed (ends_bind (also ▸ ends) marks)

theorem Agreement.map {clean : α → Prop} {flaw : α → Parser → Prop} {clean' : β → Prop}
    {flaw' : β → Parser → Prop} {program : ParserM α} {p q : Parser} (change : α → β)
    (agreement : Agreement g dead clean flaw (program p) (program q))
    (cleans : ∀ result, clean result → clean' (change result))
    (flaws : ∀ result p', flaw result p' → flaw' (change result) p') :
    Agreement g dead clean' flaw' ((change <$> program) p) ((change <$> program) q) := by
  rw [run_map, run_map]
  generalize program p = run at agreement
  generalize program q = other at agreement
  cases agreement with
  | same strict legal isClean => exact .same strict legal (cleans _ isClean)
  | flawed mode reason ends =>
    refine .flawed mode (reason.imp_right (flaws _ _)) ?_
    cases other <;> exact ends
  | failed ends =>
    refine .failed ?_
    cases other <;> exact ends

theorem stalled_iterate {flaw : Turn α ρ → Parser → Prop} {turn : α → ParserM (Turn α ρ)}
    (stalls : ∀ carried p, p.tolerant = false → ¬Legal p ∨ flaw (.next carried) p →
      Stalled flaw (turn carried p)) :
    ∀ fuel carried p, p.tolerant = false → ¬Legal p ∨ flaw (.next carried) p →
      Stalled (fun result => flaw (.done result)) (iterateM turn fuel carried p) := by
  intro fuel
  induction fuel with
  | zero => intros; trivial
  | succ fuel ih =>
    intro carried p mode reason
    refine (stalls carried p mode reason).bind fun turned p' _ mode' reason' => ?_
    cases turned with
    | next following => exact ih following p' mode' reason'
    | done result => exact ⟨mode', reason'⟩

theorem stalled_loop (flaw : Turn α ρ → Parser → Prop) {turn : α → ParserM (Turn α ρ)}
    (stalls : ∀ carried p, p.tolerant = false → ¬Legal p ∨ flaw (.next carried) p →
      Stalled flaw (turn carried p)) {carried : α} {p : Parser} (mode : p.tolerant = false)
    (reason : ¬Legal p ∨ flaw (.next carried) p) :
    Stalled (fun result => flaw (.done result)) (repeatWhile Parser.remaining turn carried p) :=
  stalled_iterate stalls _ carried p mode reason

theorem agreement_loop (clean : Turn α ρ → Prop) (flaw : Turn α ρ → Parser → Prop)
    {turn : α → ParserM (Turn α ρ)}
    (turns : ∀ carried p, Strict g p → Legal p → clean (.next carried) →
      Agreement g dead clean flaw (turn carried p) (turn carried p.forgiving))
    (stalls : ∀ carried p, p.tolerant = false → ¬Legal p ∨ flaw (.next carried) p →
      Stalled flaw (turn carried p))
    (marks : ∀ carried, Marks dead dead (turn carried)) (carried : α) {p : Parser}
    (strict : Strict g p) (legal : Legal p) (start : clean (.next carried)) :
    Agreement g dead (fun result => clean (.done result)) (fun result => flaw (.done result))
      (repeatWhile Parser.remaining turn carried p)
      (repeatWhile Parser.remaining turn carried p.forgiving) := by
  have bounded : ∀ fuel carried p, Strict g p → Legal p → clean (.next carried) →
      Agreement g dead (fun result => clean (.done result)) (fun result => flaw (.done result))
        (iterateM turn fuel carried p) (iterateM turn fuel carried p.forgiving) := by
    intro fuel
    induction fuel with
    | zero => intros; exact .failed trivial
    | succ fuel ih =>
      intro carried p strict legal start
      refine (turns carried p strict legal start).bind ?_ ?_ ?_
      · intro turned p' _ strict' legal' isClean
        cases turned with
        | next following => exact ih following p' strict' legal' isClean
        | done result => exact .same strict' legal' isClean
      · intro turned p' _ mode' reason
        cases turned with
        | next following => exact stalled_iterate stalls fuel following p' mode' reason
        | done result => exact ⟨mode', reason⟩
      · intro turned
        cases turned with
        | next following => exact marks_iterate marks fuel following
        | done result => exact marks_pure result
  exact bounded _ carried p strict legal start

end

end Protowire.Pxf
