import Protowire.Pxf.Recovery

/-!
Counting one pair of brackets over the tokens of a document, whatever stands between them: where
the parser reads a value, a count comes out at the token the parser goes on from.
-/

namespace Protowire.Pxf

open Support

variable {p q : Parser} {kind : TokenKind} {result : Value} {inner : Option Nested}

inductive Pair : TokenKind → TokenKind → Prop
  | braces : Pair .lBrace .rBrace
  | brackets : Pair .lBracket .rBracket

def Unbracketed (opener closer kind : TokenKind) : Prop :=
  kind ≠ .eof ∧ kind ≠ opener ∧ kind ≠ closer

structure Count (opener closer : TokenKind) (γ : Type) where
  run : Nat → Parser → γ
  files : ∀ depth p comments, run depth { p with comments } = run depth p
  plain : ∀ {depth p}, Unbracketed opener closer p.current.kind →
    run (depth + 1) p = run (depth + 1) p.advanced
  opens : ∀ {depth p}, p.current.kind = opener → run (depth + 1) p = run (depth + 2) p.advanced
  closes : ∀ {depth p}, p.current.kind = closer → run (depth + 2) p = run (depth + 1) p.advanced

def Passes (opener closer : TokenKind) (p q : Parser) : Prop :=
  ∀ (γ : Type) (count : Count opener closer γ) (depth : Nat), 0 < depth →
    count.run depth p = count.run depth q

def PassesFrom {α : Type} (opener closer : TokenKind) (program : ParserM α) (p : Parser) : Prop :=
  ∀ result q, p.tolerant = false → program p = .ok result q →
    q.tolerant = false ∧ Passes opener closer p q

def PassesOver {α : Type} (opener closer : TokenKind) (program : ParserM α) : Prop :=
  ∀ p, PassesFrom opener closer program p

section

variable {α β ρ : Type} {opener closer : TokenKind} {p : Parser}

theorem Passes.refl (p : Parser) : Passes opener closer p p := fun _ _ _ _ => rfl

theorem Passes.trans {r : Parser} (first : Passes opener closer p q)
    (second : Passes opener closer q r) : Passes opener closer p r :=
  fun γ count depth inside =>
    (first γ count depth inside).trans (second γ count depth inside)

theorem passes_advanced (plain : Unbracketed opener closer p.current.kind) :
    Passes opener closer p p.advanced := by
  intro γ count depth positive
  obtain ⟨depth, rfl⟩ : ∃ k, depth = k + 1 := ⟨depth - 1, by omega⟩
  exact count.plain plain

theorem passes_comments (p : Parser) (comments : List Comment) :
    Passes opener closer p { p with comments } :=
  fun _ count depth _ => (count.files depth p comments).symm

theorem passes_enclosed (pair : Pair opener closer) {o c : TokenKind} (bracket : Pair o c)
    (opens : p.current.kind = o) (closes : q.current.kind = c)
    (inside : Passes opener closer p.advanced q) : Passes opener closer p q.advanced := by
  by_cases same : opener = o
  · have closerSame : closer = c := by
      cases pair <;> cases bracket <;> first | rfl | cases same
    subst same closerSame
    intro γ count depth positive
    obtain ⟨depth, rfl⟩ : ∃ k, depth = k + 1 := ⟨depth - 1, by omega⟩
    calc count.run (depth + 1) p
        = count.run (depth + 2) p.advanced := count.opens opens
      _ = count.run (depth + 2) q := inside γ count _ (by omega)
      _ = count.run (depth + 1) q.advanced := count.closes closes
  · have plain : Unbracketed opener closer o ∧ Unbracketed opener closer c := by
      cases pair <;> cases bracket <;> simp_all [Unbracketed]
    exact (passes_advanced (opens ▸ plain.1)).trans
      (inside.trans (passes_advanced (closes ▸ plain.2)))

theorem passesOver_pure (result : α) : PassesOver opener closer (pure result : ParserM α) := by
  intro p found q strict ran
  cases ran
  exact ⟨strict, .refl p⟩

theorem passesFrom_bind {program : ParserM α} {next : α → ParserM β}
    (first : PassesFrom opener closer program p)
    (second : ∀ result, PassesOver opener closer (next result)) :
    PassesFrom opener closer (program >>= next) p := by
  intro result r strict ran
  obtain ⟨middle, q, one, two⟩ := bind_ok ran
  obtain ⟨strict', before⟩ := first middle q strict one
  obtain ⟨strict'', after⟩ := second middle q result r strict' two
  exact ⟨strict'', before.trans after⟩

theorem passesOver_bind {program : ParserM α} {next : α → ParserM β}
    (first : PassesOver opener closer program)
    (second : ∀ result, PassesOver opener closer (next result)) :
    PassesOver opener closer (program >>= next) := fun p => passesFrom_bind (first p) second

theorem passesFrom_get {next : Parser → ParserM β} (rest : PassesFrom opener closer (next p) p) :
    PassesFrom opener closer (get >>= next) p := rest

theorem passesFrom_advance {next : Unit → ParserM β}
    (plain : Unbracketed opener closer p.current.kind)
    (rest : PassesOver opener closer (next ())) :
    PassesFrom opener closer (advance >>= next) p := by
  intro result q strict ran
  obtain ⟨_, _, one, two⟩ := bind_ok ran
  cases one
  obtain ⟨strict', after⟩ := rest p.advanced result q strict two
  exact ⟨strict', (passes_advanced plain).trans after⟩

theorem passesFrom_map {change : α → β} {program : ParserM α}
    (passes : PassesFrom opener closer program p) :
    PassesFrom opener closer (change <$> program) p := by
  intro result q strict ran
  obtain ⟨found, one, _⟩ := map_ok ran
  exact passes found q strict one

theorem passesOver_filing {program : ParserM α}
    (files : ∀ p result q, program p = .ok result q → ∃ comments, q = { p with comments }) :
    PassesOver opener closer program := by
  intro p result q strict ran
  obtain ⟨comments, rfl⟩ := files p result q ran
  exact ⟨strict, passes_comments p comments⟩

theorem passesFrom_flush {next : List Comment → ParserM β}
    (rest : PassesFrom opener closer (next p.comments) { p with comments := [] }) :
    PassesFrom opener closer (flushComments >>= next) p := by
  intro result q strict ran
  obtain ⟨strict', after⟩ := rest result q strict ran
  exact ⟨strict', (passes_comments p []).trans after⟩

theorem takeTrailingComment_passes (stop : Position) :
    PassesOver opener closer (takeTrailingComment stop) := by
  refine passesOver_filing fun p result q ran => ?_
  simp only [takeTrailingComment] at ran
  split at ran
  · cases ran; exact ⟨_, rfl⟩
  · split at ran <;> cases ran <;> exact ⟨_, rfl⟩

theorem passesFrom_fails {program : ParserM α} (fails : p.tolerant = false → Fails (program p)) :
    PassesFrom opener closer program p := by
  intro result q strict ran
  obtain ⟨failure, r, failed⟩ := fails strict
  rw [failed] at ran
  cases ran

theorem passesFrom_softWhen {next : Unit → ParserM β} (condition : Bool) (pos : Position)
    (msg : Bytes) (rest : PassesFrom opener closer (next ()) p) :
    PassesFrom opener closer (softWhen condition pos msg >>= next) p := by
  cases condition with
  | true => exact passesFrom_fails fun strict => (soft_fails strict pos msg).bind next
  | false => exact rest

theorem passesOver_loop {turn : α → ParserM (Turn α ρ)}
    (turns : ∀ carried, PassesOver opener closer (turn carried)) (carried : α) :
    PassesOver opener closer (repeatWhile Parser.remaining turn carried) := by
  have bounded : ∀ fuel carried, PassesOver opener closer (iterateM turn fuel carried) := by
    intro fuel
    induction fuel with
    | zero => intro carried p result q _ ran; cases ran
    | succ fuel ih =>
      intro carried
      refine passesOver_bind (turns carried) fun turned => ?_
      cases turned with
      | next following => exact ih following
      | done result => exact passesOver_pure result
  exact fun p => bounded _ carried p

def NestedPasses (opener closer : TokenKind) (inner : Option Nested) : Prop :=
  ∀ nested, inner = some nested → PassesOver opener closer nested.value ∧
    ∀ p result q, p.tolerant = false → nested.body p = .ok result q →
      ∃ r : Parser, q = r.advanced ∧ r.tolerant = false ∧ r.current.kind = .rBrace ∧
        Passes opener closer p r

def TokenKind.isLiteral : TokenKind → Bool
  | .string | .int | .float | .bool | .bytes | .timestamp | .duration | .null | .ident => true
  | _ => false

theorem unbracketed_of_literal (pair : Pair opener closer) (literal : kind.isLiteral) :
    Unbracketed opener closer kind := by
  cases pair <;> cases kind <;> simp_all [Unbracketed, TokenKind.isLiteral]

theorem isLiteral_of_startsKey (key : kind.startsKey) : kind.isLiteral := by
  cases kind <;> cases key <;> rfl

theorem literal_ok {build : Span → Value} (ran : literal build p = .ok result q) :
    q = p.advanced := by
  cases ran
  rfl

theorem parseBytesVal_ok (strict : p.tolerant = false) (ran : parseBytesVal p = .ok result q) :
    ∃ decoded, base64DecodeLenient p.current.value = .ok decoded ∧ q = p.advanced ∧
      result = .bytes ⟨p.current.pos, p.tokenEnd⟩ decoded := by
  rw [parseBytesVal, run_get] at ran
  cases decode : base64DecodeLenient p.current.value with
  | ok decoded =>
    simp only [decode] at ran
    cases ran
    exact ⟨decoded, rfl, rfl, rfl⟩
  | error offset =>
    simp only [decode] at ran
    rw [run_bind, soft_strict strict] at ran
    cases ran

theorem parseValue_strict (strict : p.tolerant = false) :
    parseValue inner p =
      match p.current.kind with
      | .string => literal (.string · p.current.value) p
      | .int => literal (.int · p.current.value p.current.prec) p
      | .float => literal (.float · p.current.value p.current.prec) p
      | .bool => literal (.bool · (p.current.value = text "true")) p
      | .bytes => parseBytesVal p
      | .timestamp =>
        literal (.timestamp · ((parseRFC3339 p.current.value).getD ⟨0, 0⟩).seconds
          ((parseRFC3339 p.current.value).getD ⟨0, 0⟩).nanos p.current.value) p
      | .duration =>
        literal (.duration · ((parseDuration p.current.value).getD ⟨0, 0⟩).seconds
          ((parseDuration p.current.value).getD ⟨0, 0⟩).nanos p.current.value) p
      | .null => literal .null p
      | .ident => literal (.ident · p.current.value) p
      | .lBracket => parseList inner p
      | .lBrace => parseBlockVal inner p
      | _ => parseNoValue p := by
  rw [parseValue, run_get]
  simp only [strict, Bool.false_and, Bool.false_eq_true, if_false]
  cases p.current.kind <;> rfl

theorem parseValue_ok (strict : p.tolerant = false) (ran : parseValue inner p = .ok result q) :
    p.current.kind.isLiteral ∧ q = p.advanced ∨
      p.current.kind = .lBracket ∧ parseList inner p = .ok result q ∨
      p.current.kind = .lBrace ∧ parseBlockVal inner p = .ok result q := by
  rw [parseValue_strict strict] at ran
  split at ran
  all_goals
    first
    | (rename_i kind
       exact .inl ⟨by rw [kind]; rfl, literal_ok ran⟩)
    | (rename_i kind
       obtain ⟨_, _, moved, _⟩ := parseBytesVal_ok strict ran
       exact .inl ⟨by rw [kind]; rfl, moved⟩)
    | (rename_i kind
       exact .inr (.inl ⟨kind, ran⟩))
    | (rename_i kind
       exact .inr (.inr ⟨kind, ran⟩))
    | (obtain ⟨failure, r, failed⟩ := parseNoValue_fails strict
       rw [failed] at ran
       cases ran)

theorem keepElement_ok {elements : List Value} {before : Nat} {element : Value}
    {turned : Turn (List Value) (List Value)} (strict : p.tolerant = false)
    (ran : keepElement elements before element p = .ok turned q) :
    turned = .next (elements ++ [element]) ∧
      q = if p.current.kind = .comma then p.advanced else p := by
  rw [keepElement, run_get] at ran
  simp only [strict, Bool.false_and, Bool.false_eq_true, if_false] at ran
  obtain ⟨_, r, one, two⟩ := bind_ok ran
  cases two
  refine ⟨rfl, ?_⟩
  simp only [advanceWhen] at one
  split at one
  · rename_i comma
    cases one
    rw [if_pos (by simpa using comma)]
  · rename_i comma
    cases one
    rw [if_neg (by simpa using comma)]

theorem closeList_ok {pos : Position} {elements : List Value} (strict : p.tolerant = false)
    (ran : closeList pos elements p = .ok result q) :
    p.current.kind = .rBracket ∧ q = p.advanced ∧ result = .list ⟨pos, p.tokenEnd⟩ elements := by
  rw [closeList, run_get] at ran
  split at ran
  · rw [run_bind, soft_strict strict] at ran
    cases ran
  · rename_i closes
    cases ran
    exact ⟨not_not.mp closes, rfl, rfl⟩

theorem closeBody_ok {entries : List Entry} {result : Body} (strict : p.tolerant = false)
    (ran : closeBody entries p = .ok result q) :
    p.current.kind = .rBrace ∧ q = ({ p with comments := [] } : Parser).advanced ∧
      result.entries = entries := by
  obtain ⟨comments, r, flushed, ran⟩ := bind_ok ran
  cases flushed
  rw [run_get] at ran
  split at ran
  · rw [if_pos (by simp [strict])] at ran
    cases ran
  · rename_i closes
    cases ran
    exact ⟨not_not.mp closes, rfl, rfl⟩

section

variable (pair : Pair opener closer)

include pair

theorem listTurn_passes {value : ParserM Value} (passes : PassesOver opener closer value)
    (elements : List Value) : PassesOver opener closer (Pxf.listTurn value elements) := by
  intro p turned q strict ran
  rw [Pxf.listTurn, run_get] at ran
  split at ran
  · cases ran; exact ⟨strict, .refl p⟩
  · obtain ⟨element, r, one, two⟩ := bind_ok ran
    obtain ⟨strict', before⟩ := passes p element r strict one
    obtain ⟨_, moved⟩ := keepElement_ok strict' two
    split at moved
    · rename_i comma
      subst moved
      have plain : Unbracketed opener closer r.current.kind := by
        rw [comma]; cases pair <;> simp [Unbracketed]
      exact ⟨strict', before.trans (passes_advanced plain)⟩
    · subst moved
      exact ⟨strict', before⟩

theorem parseList_enclosed (nested : NestedPasses opener closer inner) (strict : p.tolerant = false)
    (ran : parseList inner p = .ok result q) :
    ∃ r : Parser, q = r.advanced ∧ r.tolerant = false ∧ r.current.kind = .rBracket ∧
      Passes opener closer p.advanced r := by
  rw [parseList, run_get] at ran
  cases inner with
  | none =>
    obtain ⟨_, _, failed, _⟩ := bind_ok ran
    rw [soft_strict strict] at failed
    cases failed
  | some deeper =>
    obtain ⟨_, p', one, ran⟩ := bind_ok ran
    cases one
    obtain ⟨elements, r, loop, close⟩ := bind_ok ran
    obtain ⟨strict', inside⟩ := passesOver_loop (listTurn_passes pair (nested deeper rfl).1) []
      p.advanced _ _ strict loop
    obtain ⟨closes, moved, _⟩ := closeList_ok strict' close
    exact ⟨r, moved, strict', closes, inside⟩

omit pair in
theorem nestedBody_enclosed (nested : NestedPasses opener closer inner) {deeper : Nested}
    (some_ : inner = some deeper) {build : Body → α} {result : α} (strict : p.tolerant = false)
    (ran : (advance >>= fun _ => deeper.body >>= fun body => pure (build body)) p =
      .ok result q) :
    ∃ r : Parser, q = r.advanced ∧ r.tolerant = false ∧ r.current.kind = .rBrace ∧
      Passes opener closer p.advanced r := by
  obtain ⟨_, p', one, ran⟩ := bind_ok ran
  cases one
  obtain ⟨body, r, read, built⟩ := bind_ok ran
  cases built
  exact (nested deeper some_).2 p.advanced _ _ strict read

omit pair in
theorem parseBlockVal_enclosed (nested : NestedPasses opener closer inner)
    (strict : p.tolerant = false) (ran : parseBlockVal inner p = .ok result q) :
    ∃ r : Parser, q = r.advanced ∧ r.tolerant = false ∧ r.current.kind = .rBrace ∧
      Passes opener closer p.advanced r := by
  rw [parseBlockVal, run_get] at ran
  cases inner with
  | none =>
    obtain ⟨_, _, failed, _⟩ := bind_ok ran
    rw [soft_strict strict] at failed
    cases failed
  | some deeper => exact nestedBody_enclosed nested rfl strict ran

theorem parseValue_passes (nested : NestedPasses opener closer inner) :
    PassesOver opener closer (parseValue inner) := by
  intro p result q strict ran
  obtain ⟨literal, rfl⟩ | ⟨kind, ran⟩ | ⟨kind, ran⟩ := parseValue_ok strict ran
  · exact ⟨strict, passes_advanced (unbracketed_of_literal pair literal)⟩
  · obtain ⟨r, rfl, strict', closes, inside⟩ := parseList_enclosed pair nested strict ran
    exact ⟨strict', passes_enclosed pair .brackets kind closes inside⟩
  · obtain ⟨r, rfl, strict', closes, inside⟩ := parseBlockVal_enclosed nested strict ran
    exact ⟨strict', passes_enclosed pair .braces kind closes inside⟩

theorem parseTypeUrl_passes (leading : List Comment) (pos : Position) :
    PassesOver opener closer (parseTypeUrl leading pos) := by
  intro p
  refine passesFrom_get ?_
  split
  · exact passesFrom_fails fun strict => typeEntryFail_fails strict _ _ _
  · rename_i string
    refine passesFrom_advance ?_ (passesOver_bind (takeTrailingComment_passes _) fun _ =>
      passesOver_pure _)
    rw [not_not.mp string]
    cases pair <;> simp [Unbracketed]

theorem parseTypeEntry_passes (first : Bool) (kind : p.current.kind = .atType) :
    PassesFrom opener closer (parseTypeEntry first) p := by
  refine passesFrom_flush ?_
  refine passesFrom_get ?_
  split
  · exact passesFrom_fails fun strict => typeEntryFail_fails strict _ _ _
  refine passesFrom_advance (by rw [kind]; cases pair <;> simp [Unbracketed]) fun q => ?_
  refine passesFrom_get ?_
  split
  · exact passesFrom_fails fun strict => typeEntryFail_fails strict _ _ _
  · rename_i equals
    refine passesFrom_advance ?_ (parseTypeUrl_passes pair _ _)
    rw [not_not.mp equals]
    cases pair <;> simp [Unbracketed]

theorem valueTail_passes (nested : NestedPasses opener closer inner) (build : Value → Bytes → Entry)
    (plain : kind = .equals ∨ kind = .colon) (here : p.current.kind = kind) :
    PassesFrom opener closer (do
      advance
      let value ← parseValue inner
      let trailing ← takeTrailingComment value.span.stop
      pure (build value trailing)) p := by
  refine passesFrom_advance ?_ (passesOver_bind (parseValue_passes pair nested) fun value =>
    passesOver_bind (takeTrailingComment_passes _) fun _ => passesOver_pure _)
  rw [here]
  obtain rfl | rfl := plain <;> cases pair <;> simp [Unbracketed]

theorem parseTail_passes (nested : NestedPasses opener closer inner) (allowMapEntry : Bool)
    (key : Key) : PassesOver opener closer (parseTail inner allowMapEntry key) := by
  intro p
  refine passesFrom_get ?_
  split
  · rename_i kind
    exact passesFrom_map (passesFrom_softWhen _ _ _
      (valueTail_passes pair nested _ (.inl rfl) kind))
  · rename_i kind
    exact passesFrom_map (passesFrom_softWhen _ _ _ (passesFrom_softWhen _ _ _
      (valueTail_passes pair nested _ (.inr rfl) kind)))
  · rename_i kind
    refine passesFrom_map (passesFrom_softWhen _ _ _ ?_)
    cases inner with
    | none => exact passesFrom_fails fun strict => (soft_fails strict _ _).bind _
    | some deeper =>
      refine fun result q strict ran => ?_
      obtain ⟨r, rfl, strict', closes, inside⟩ := nestedBody_enclosed nested rfl strict ran
      exact ⟨strict', passes_enclosed pair .braces kind closes inside⟩
  · exact passesFrom_map (passesFrom_fails fun strict => (soft_fails strict _ _).bind _)

theorem parseEntry_passes (nested : NestedPasses opener closer inner) (allowMapEntry : Bool) :
    PassesOver opener closer (parseEntry inner allowMapEntry) := by
  intro p
  refine passesFrom_flush ?_
  refine passesFrom_get ?_
  split
  · rename_i key
    exact passesFrom_advance (unbracketed_of_literal pair (isLiteral_of_startsKey key))
      (parseTail_passes pair nested _ _)
  · exact passesFrom_fails fun strict => parseNoEntry_fails strict _

theorem bodyTurn_passes (nested : NestedPasses opener closer inner) (entries : List Entry) :
    PassesOver opener closer (bodyTurn inner entries) := by
  intro p
  refine passesFrom_get ?_
  split
  · exact passesOver_pure _ p
  refine passesFrom_bind ?_ fun entry => passesOver_pure _
  refine passesFrom_get ?_
  split
  · rename_i kind
    exact parseTypeEntry_passes pair _ kind
  · exact parseEntry_passes pair nested true p

theorem parseNested_passes (room : Nat) : NestedPasses opener closer (parseNested room) := by
  induction room with
  | zero => intro deeper none_; cases none_
  | succ room nested =>
    intro deeper some_
    cases some_
    refine ⟨parseValue_passes pair nested, fun p result q strict ran => ?_⟩
    obtain ⟨entries, r, loop, close⟩ := bind_ok ran
    obtain ⟨strict', inside⟩ :=
      passesOver_loop (bodyTurn_passes pair nested) [] p entries r strict loop
    obtain ⟨closes, moved, _⟩ := closeBody_ok strict' close
    exact ⟨_, moved, strict', closes, inside.trans (passes_comments r [])⟩

end

end

end Protowire.Pxf
