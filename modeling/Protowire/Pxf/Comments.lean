import Protowire.Pxf.Kinds
import Protowire.Pxf.Outside
import Protowire.Support.Filing

/-!
Where the comments of a document go. Every comment the parser passes is pending until a node takes
it, and a node's comments stay in source order; only those between a directive's name and its block
are taken by entries that are thrown away.
-/

namespace Protowire.Pxf

open Support

inductive Shelf where
  | list (comments : List Comment)
  | text (comment : Bytes)

def Shelf.Holds : Shelf → List Comment → Prop
  | .list comments, part => part = comments
  | .text comment, part =>
    part = [] ∧ comment = [] ∨ ∃ c : Comment, part = [c] ∧ c.text = comment ∧ comment ≠ []

def Shelf.size : Shelf → Nat
  | .list comments => comments.length
  | .text comment => if comment = [] then 0 else 1

theorem Shelf.size_eq (shelf : Shelf) (part : List Comment) (holds : shelf.Holds part) :
    part.length = shelf.size := by
  cases shelf with
  | list comments => rw [show part = comments from holds]; rfl
  | text comment =>
    obtain ⟨rfl, rfl⟩ | ⟨c, rfl, rfl, some_⟩ := holds
    · rfl
    · rw [Shelf.size, if_neg some_]
      rfl

mutual

def Value.shelves : Value → List Shelf
  | .list _ elements => valuesShelves elements
  | .block _ entries trailing => entriesShelves entries ++ [.list trailing]
  | .string _ _ | .int _ _ _ | .float _ _ _ | .bool _ _ | .bytes _ _ | .null _ | .ident _ _
  | .timestamp _ _ _ _ | .duration _ _ _ _ | .bad _ => []

def valuesShelves : List Value → List Shelf
  | [] => []
  | value :: values => value.shelves ++ valuesShelves values

def Entry.shelves : Entry → List Shelf
  | .assignment _ _ _ value leading trailing | .mapEntry _ _ _ value leading trailing =>
    .list leading :: (value.shelves ++ [.text trailing])
  | .block _ _ _ entries leading trailing =>
    .list leading :: (entriesShelves entries ++ [.list trailing])
  | .typeEntry _ _ leading trailing => [.list leading, .text trailing]

def entriesShelves : List Entry → List Shelf
  | [] => []
  | entry :: entries => entry.shelves ++ entriesShelves entries

end

def cellShelves : List (Option Value) → List Shelf
  | [] => []
  | none :: cells => cellShelves cells
  | some value :: cells => value.shelves ++ cellShelves cells

def DatasetRow.shelves (row : DatasetRow) : List Shelf :=
  .list row.leadingComments :: cellShelves row.cells

def DatasetDirective.shelves (dataset : DatasetDirective) : List Shelf :=
  .list dataset.leadingComments :: dataset.rows.flatMap DatasetRow.shelves

def Directive.shelves (directive : Directive) : List Shelf := [.list directive.leadingComments]

def ProtoDirective.shelves (proto : ProtoDirective) : List Shelf := [.list proto.leadingComments]

def Document.shelves (doc : Document) : List Shelf :=
  .list doc.leadingComments :: (doc.directives.flatMap Directive.shelves ++
    doc.datasets.flatMap DatasetDirective.shelves ++ doc.protos.flatMap ProtoDirective.shelves ++
    entriesShelves doc.entries ++ [.list doc.trailingComments])

@[simp] theorem valuesShelves_append (values others : List Value) :
    valuesShelves (values ++ others) = valuesShelves values ++ valuesShelves others := by
  induction values with
  | nil => rfl
  | cons value values ih => simp [valuesShelves, ih]

@[simp] theorem entriesShelves_append (entries others : List Entry) :
    entriesShelves (entries ++ others) = entriesShelves entries ++ entriesShelves others := by
  induction entries with
  | nil => rfl
  | cons entry entries ih => simp [entriesShelves, ih]

@[simp] theorem cellShelves_append (cells others : List (Option Value)) :
    cellShelves (cells ++ others) = cellShelves cells ++ cellShelves others := by
  induction cells with
  | nil => rfl
  | cons cell cells ih => cases cell <;> simp [cellShelves, ih]

def Whole (l : Lexer) : Prop := l.start.offset = 0

theorem significant_movedTo (l : Lexer) : l.MovedTo (significant l).lex := by
  obtain ⟨at_, moved, -, -, -, after⟩ := significantFrom_stands ⟨{}, l, [], []⟩
  rw [← significant_eq] at after
  rw [← after]
  exact moved.trans at_.next_movedTo

theorem Whole.significant {l : Lexer} (whole : Whole l) : Whole (significant l).lex := by
  rw [Whole, significant_movedTo l]
  exact whole

theorem significant_brace {l : Lexer} (whole : Whole l)
    (brace : (significant l).token.kind = .lBrace) :
    (significant l).lex.pos = (significant l).token.pos.offset + 1 := by
  obtain ⟨at_, moved, spaces, pos, token, after⟩ := significantFrom_stands ⟨{}, l, [], []⟩
  rw [← significant_eq] at pos token after
  have offset : at_.start.offset = 0 := by
    rw [show at_ = _ from moved]
    exact whole
  rw [← token] at brace
  rw [← after, ← pos]
  simp only [Lexer.next, spaces] at brace ⊢
  split at brace
  · cases brace
  · rename_i some_
    have width := scan_brace brace
    rw [if_neg some_, width]
    have one : (at_.rest.take 1).length = 1 := by
      cases rest : at_.rest with
      | nil => simp [rest] at some_
      | cons _ _ => rfl
    simp only [Lexer.advance, Lexer.currentPos, one, offset, Nat.zero_add]

theorem next_comment {l : Lexer} (comment : l.next.1.kind = .comment) : l.next.1.value ≠ [] := by
  simp only [Lexer.next] at comment ⊢
  split at comment
  · cases comment
  · rename_i some_
    rw [if_neg some_]
    rw [scan_comment comment]
    cases rest : l.skipSpaces.rest with
    | nil => simp [rest] at some_
    | cons c s =>
      have width := scan_width l.skipSpaces.tolerant l.skipSpaces.maxBytesLiteral c s
      intro empty
      have length := congrArg List.length empty
      simp only [List.length_take, List.length_cons, List.length_nil] at length
      omega

theorem significantFrom_texts (read : Significant) :
    (∀ c ∈ read.comments, c.text ≠ []) → ∀ c ∈ (significantFrom read).comments, c.text ≠ [] := by
  induction read using significantFrom_induct with
  | newline read isNewline ih =>
    intro texts
    rw [significantFrom_newline isNewline]
    exact ih texts
  | comment read isComment ih =>
    intro texts
    rw [significantFrom_comment isComment]
    refine ih fun c member => ?_
    obtain early | late := List.mem_append.mp member
    · exact texts c early
    · rw [List.mem_singleton.mp late]
      exact next_comment isComment
  | done read noNewline noComment =>
    intro texts
    rw [significantFrom_done noNewline noComment]
    exact texts

theorem significant_texts (l : Lexer) : ∀ c ∈ (significant l).comments, c.text ≠ [] :=
  significantFrom_texts ⟨{}, l, [], []⟩ (by simp)

structure Filing (p : Parser) : Prop where
  strict : p.tolerant = false
  whole : Whole p.lex
  brace : p.current.kind = .lBrace → p.lex.pos = p.current.pos.offset + 1
  texts : ∀ c ∈ p.comments, c.text ≠ []

theorem filing_advanced {p : Parser} (strict : p.tolerant = false) (whole : Whole p.lex)
    (texts : ∀ c ∈ p.comments, c.text ≠ []) : Filing p.advanced where
  strict := strict
  whole := whole.significant
  brace := significant_brace whole
  texts c member := by
    obtain early | late := List.mem_append.mp member
    · exact texts c early
    · exact significant_texts p.lex c late

theorem Filing.advanced {p : Parser} (filing : Filing p) : Filing p.advanced :=
  filing_advanced filing.strict filing.whole filing.texts

theorem Filing.comments {p : Parser} (filing : Filing p) {comments : List Comment}
    (texts : ∀ c ∈ comments, c.text ≠ []) : Filing { p with comments } :=
  ⟨filing.strict, filing.whole, filing.brace, texts⟩

def kept (seen : Seen) : List Comment := (seen.filter fun mark => !mark.2).map (·.1)

@[simp] theorem kept_append (seen more : Seen) : kept (seen ++ more) = kept seen ++ kept more := by
  simp [kept]

@[simp] theorem kept_plain (comments : List Comment) : kept (plain comments) = comments := by
  induction comments with
  | nil => rfl
  | cons c comments ih =>
    change c :: kept (plain comments) = _
    rw [ih]

theorem plain_append (comments more : List Comment) :
    plain (comments ++ more) = plain comments ++ plain more := List.map_append

@[simp] theorem kept_between (comments : List Comment) :
    kept (comments.map (·, true)) = [] := by
  induction comments with
  | nil => rfl
  | cons c comments ih => exact ih

def Walks (p q : Parser) (seen : Seen) : Prop :=
  ∀ found, outsideFrom found p.cursor = outsideFrom (found ++ seen) q.cursor

theorem Walks.refl (p : Parser) : Walks p p [] := by
  intro found
  rw [List.append_nil]

theorem Walks.trans {p q r : Parser} {seen more : Seen} (first : Walks p q seen)
    (second : Walks q r more) : Walks p r (seen ++ more) := by
  intro found
  rw [first, second, List.append_assoc]

theorem walks_advanced {p : Parser} (ordinary : p.current.kind.Ordinary) :
    Walks p p.advanced (plain (significant p.lex).comments) :=
  fun _ => outsideFrom_ordinary (c := p.cursor) ordinary

def FilesFrom {α : Type} (program : ParserM α) (spec : α → List Shelf → Prop) (p : Parser) : Prop :=
  ∀ result q, Filing p → program p = .ok result q → Filing q ∧ ∃ seen shelves,
    Walks p q seen ∧ Filed Shelf.Holds (p.comments ++ kept seen) shelves q.comments ∧
      spec result shelves

def Files {α : Type} (program : ParserM α) (spec : α → List Shelf → Prop) : Prop :=
  ∀ p, FilesFrom program spec p

section

variable {α β ρ : Type} {spec : α → List Shelf → Prop} {spec' : β → List Shelf → Prop} {p : Parser}

theorem files_pure {result : α} (holds : spec result []) :
    Files (pure result : ParserM α) spec := by
  intro p found q filing ran
  cases ran
  refine ⟨filing, [], [], .refl p, ?_, holds⟩
  rw [show kept [] = [] from rfl, List.append_nil]
  exact .nothing _

theorem filesFrom_bind {program : ParserM α} {next : α → ParserM β}
    (first : FilesFrom program spec p)
    (second : ∀ result shelves, spec result shelves →
      Files (next result) fun found more => spec' found (shelves ++ more)) :
    FilesFrom (program >>= next) spec' p := by
  intro result r filing ran
  obtain ⟨middle, q, one, two⟩ := bind_ok ran
  obtain ⟨filing, seen, shelves, walks, filed, holds⟩ := first middle q filing one
  obtain ⟨filing, seen', shelves', walks', filed', holds'⟩ :=
    second middle shelves holds q result r filing two
  refine ⟨filing, seen ++ seen', shelves ++ shelves', walks.trans walks', ?_, holds'⟩
  rw [kept_append, ← List.append_assoc]
  exact filed.andThen filed'

theorem filesFrom_get {next : Parser → ParserM β} (rest : FilesFrom (next p) spec' p) :
    FilesFrom (get >>= next) spec' p := rest

theorem filesFrom_map {change : α → β} {program : ParserM α} {spec : β → List Shelf → Prop}
    (files : FilesFrom program (fun result => spec (change result)) p) :
    FilesFrom (change <$> program) spec p := by
  intro result q filing ran
  obtain ⟨found, one, rfl⟩ := map_ok ran
  exact files found q filing one

theorem filesFrom_mono {program : ParserM α} {wider : α → List Shelf → Prop}
    (files : FilesFrom program spec p) (implies : ∀ result shelves, spec result shelves →
      wider result shelves) : FilesFrom program wider p := by
  intro result q filing ran
  obtain ⟨filing, seen, shelves, walks, filed, holds⟩ := files result q filing ran
  exact ⟨filing, seen, shelves, walks, filed, implies result shelves holds⟩

theorem filesFrom_advance {next : Unit → ParserM β} (ordinary : p.current.kind.Ordinary)
    (rest : Files (next ()) spec') : FilesFrom (advance >>= next) spec' p := by
  intro result q filing ran
  obtain ⟨_, _, one, two⟩ := bind_ok ran
  cases one
  obtain ⟨filing, seen, shelves, walks, filed, holds⟩ := rest p.advanced result q filing.advanced two
  refine ⟨filing, _, shelves, (walks_advanced ordinary).trans walks, ?_, holds⟩
  rw [kept_append, kept_plain, ← List.append_assoc]
  exact filed

theorem filesFrom_flush {next : List Comment → ParserM β}
    (rest : FilesFrom (next p.comments)
      (fun result shelves => spec' result (.list p.comments :: shelves))
      { p with comments := [] }) :
    FilesFrom (flushComments >>= next) spec' p := by
  intro result q filing ran
  obtain ⟨filing, seen, shelves, walks, filed, holds⟩ :=
    rest result q (filing.comments (by simp)) ran
  refine ⟨filing, seen, .list p.comments :: shelves, walks, ?_, holds⟩
  have flushed : Filed Shelf.Holds p.comments [.list p.comments] [] := .everything rfl
  exact flushed.andThen filed

theorem takeTrailingComment_files (stop : Position) :
    Files (takeTrailingComment stop) fun comment shelves => shelves = [.text comment] := by
  intro p comment q filing ran
  have untaken : FilesFrom (fun p => .ok [] p : ParserM Bytes)
      (fun comment shelves => shelves = [.text comment]) p := by
    intro comment q filing ran
    cases ran
    refine ⟨filing, [], _, .refl p, ?_, rfl⟩
    rw [show kept [] = [] from rfl, List.append_nil]
    exact Filed.one [] p.comments (.inl ⟨rfl, rfl⟩)
  simp only [takeTrailingComment] at ran
  split at ran
  · exact untaken comment q filing ran
  · rename_i first later pending
    split at ran
    · exact untaken comment q filing ran
    · cases ran
      have texts := filing.texts
      rw [pending] at texts
      refine ⟨filing.comments fun c member => texts c (List.mem_cons_of_mem _ member), [], _,
        fun found => by rw [List.append_nil]; rfl, ?_, rfl⟩
      rw [pending, show kept [] = [] from rfl, List.append_nil]
      exact Filed.one [first] later (.inr ⟨first, rfl, rfl, texts first List.mem_cons_self⟩)

theorem filesFrom_fails {program : ParserM α} (fails : p.tolerant = false → Fails (program p)) :
    FilesFrom program spec p := by
  intro result q filing ran
  obtain ⟨failure, r, failed⟩ := fails filing.strict
  rw [failed] at ran
  cases ran

theorem filesFrom_softWhen {next : Unit → ParserM β} (condition : Bool) (pos : Position)
    (msg : Bytes) (rest : FilesFrom (next ()) spec' p) :
    FilesFrom (softWhen condition pos msg >>= next) spec' p := by
  cases condition with
  | true => exact filesFrom_fails fun strict => (soft_fails strict pos msg).bind next
  | false => exact rest

def TurnFiles (held : α → List Shelf) (filed : ρ → List Shelf) (carried : α) :
    Turn α ρ → List Shelf → Prop
  | .next following, shelves => (held following).Perm (held carried ++ shelves)
  | .done result, shelves => (filed result).Perm (held carried ++ shelves)

theorem files_loop {turn : α → ParserM (Turn α ρ)} {held : α → List Shelf} {filed : ρ → List Shelf}
    (turns : ∀ carried, Files (turn carried) (TurnFiles held filed carried)) (carried : α) :
    Files (repeatWhile Parser.remaining turn carried) fun result shelves =>
      (filed result).Perm (held carried ++ shelves) := by
  have bounded : ∀ fuel carried, Files (iterateM turn fuel carried) fun result shelves =>
      (filed result).Perm (held carried ++ shelves) := by
    intro fuel
    induction fuel with
    | zero => intro carried p result q _ ran; cases ran
    | succ fuel ih =>
      intro carried p
      refine filesFrom_bind (turns carried p) fun turned shelves holds => ?_
      cases turned with
      | next following =>
        intro p
        refine filesFrom_mono (ih following p) fun result more perm => ?_
        rw [← List.append_assoc]
        exact perm.trans (holds.append_right more)
      | done result =>
        refine files_pure ?_
        rw [List.append_nil]
        exact holds
  exact fun p => bounded _ carried p

end

def Body.shelves (body : Body) : List Shelf := entriesShelves body.entries ++ [.list body.trailing]

theorem entriesShelves_next {entries : List Entry} {entry : Option Entry} {shelves : List Shelf}
    (perm : (entriesShelves entry.toList).Perm shelves) :
    (entriesShelves (entries ++ entry.toList)).Perm (entriesShelves entries ++ shelves) := by
  rw [entriesShelves_append]
  exact perm.append_left _

def NestedFiles (inner : Option Nested) : Prop :=
  ∀ nested, inner = some nested →
    (Files nested.value fun value shelves => value.shelves.Perm shelves) ∧
      Files nested.body fun body shelves => body.shelves.Perm shelves

theorem ordinary_of_literal {kind : TokenKind} (literal : kind.isLiteral) : kind.Ordinary := by
  cases kind <;> simp_all [TokenKind.Ordinary, TokenKind.isLiteral]

theorem parseValue_literal {inner : Option Nested} {p q : Parser} {result : Value}
    (strict : p.tolerant = false) (literal : p.current.kind.isLiteral)
    (ran : parseValue inner p = .ok result q) : result.shelves = [] ∧ q = p.advanced := by
  rw [parseValue_strict strict] at ran
  split at ran
  all_goals
    first
    | (cases ran
       exact ⟨rfl, rfl⟩)
    | (obtain ⟨_, _, moved, rfl⟩ := parseBytesVal_ok strict ran
       exact ⟨rfl, moved⟩)
    | simp_all [TokenKind.isLiteral]

section

variable {inner : Option Nested} (nested : NestedFiles inner) {p : Parser}

include nested

omit nested in
theorem keepElement_files (elements : List Value) (before : Nat) (element : Value) :
    Files (keepElement elements before element) fun turned shelves =>
      turned = .next (elements ++ [element]) ∧ shelves = [] := by
  intro p turned q filing ran
  obtain ⟨rfl, moved⟩ := keepElement_ok filing.strict ran
  split at moved
  · rename_i comma
    subst moved
    refine ⟨filing.advanced, _, [], walks_advanced (by rw [comma]; simp [TokenKind.Ordinary]), ?_,
      rfl, rfl⟩
    rw [kept_plain]
    exact .nothing _
  · rw [moved]
    refine ⟨filing, [], [], .refl p, ?_, rfl, rfl⟩
    rw [show kept [] = [] from rfl, List.append_nil]
    exact .nothing _

omit nested in
theorem listTurn_files {value : ParserM Value}
    (files : Files value fun value shelves => value.shelves.Perm shelves) (elements : List Value) :
    Files (listTurn value elements) (TurnFiles valuesShelves valuesShelves elements) := by
  intro p
  refine filesFrom_get ?_
  split
  · refine files_pure ?_ p
    simp [TurnFiles]
  · refine filesFrom_bind (files p) fun element shelves perm => ?_
    intro q
    refine filesFrom_mono (keepElement_files elements _ element q) ?_
    rintro turned _ ⟨rfl, rfl⟩
    rw [TurnFiles, valuesShelves_append, List.append_nil]
    refine List.Perm.append_left _ ?_
    simpa [valuesShelves] using perm

theorem parseList_files (opens : p.current.kind = .lBracket) :
    FilesFrom (parseList inner) (fun value shelves => value.shelves.Perm shelves) p := by
  refine filesFrom_get ?_
  cases inner with
  | none => exact filesFrom_fails fun strict => (soft_fails strict _ _).bind _
  | some deeper =>
    refine filesFrom_advance (by rw [opens]; simp [TokenKind.Ordinary]) fun q => ?_
    refine filesFrom_bind
      (files_loop (listTurn_files (nested deeper rfl).1) [] q) ?_
    intro elements shelves perm q result r filing ran
    obtain ⟨closes, rfl, rfl⟩ := closeList_ok filing.strict ran
    refine ⟨filing.advanced, _, [], walks_advanced (by rw [closes]; simp [TokenKind.Ordinary]), ?_,
      ?_⟩
    · rw [kept_plain]
      exact .nothing _
    · simpa [Value.shelves, valuesShelves] using perm

theorem nestedBody_files {α : Type} {build : Body → α} {spec : α → List Shelf → Prop}
    {deeper : Nested} (some_ : inner = some deeper) (opens : p.current.kind = .lBrace)
    (builds : ∀ body shelves, body.shelves.Perm shelves → spec (build body) shelves) :
    FilesFrom (advance >>= fun _ => deeper.body >>= fun body => pure (build body)) spec p := by
  refine filesFrom_advance (by rw [opens]; simp [TokenKind.Ordinary]) fun q => ?_
  refine filesFrom_bind ((nested deeper some_).2 q) fun body shelves perm => files_pure ?_
  rw [List.append_nil]
  exact builds body shelves perm

theorem parseBlockVal_files (opens : p.current.kind = .lBrace) :
    FilesFrom (parseBlockVal inner) (fun value shelves => value.shelves.Perm shelves) p := by
  refine filesFrom_get ?_
  cases inner with
  | none => exact filesFrom_fails fun strict => (soft_fails strict _ _).bind _
  | some deeper => exact nestedBody_files nested rfl opens fun body shelves perm => perm

theorem parseValue_files :
    Files (parseValue inner) fun value shelves => value.shelves.Perm shelves := by
  intro p result q filing ran
  obtain ⟨literal, -⟩ | ⟨kind, ran⟩ | ⟨kind, ran⟩ := parseValue_ok filing.strict ran
  · obtain ⟨none_, rfl⟩ := parseValue_literal filing.strict literal ran
    refine ⟨filing.advanced, _, [], walks_advanced (ordinary_of_literal literal), ?_, ?_⟩
    · rw [kept_plain]
      exact .nothing _
    · exact none_ ▸ .refl _
  · exact parseList_files nested kind result q filing ran
  · exact parseBlockVal_files nested kind result q filing ran

omit nested in
theorem parseTypeUrl_files (leading : List Comment) (pos : Position) :
    Files (parseTypeUrl leading pos) fun entry shelves =>
      (entriesShelves entry.toList).Perm (.list leading :: shelves) := by
  intro p
  refine filesFrom_get ?_
  split
  · exact filesFrom_fails fun strict => typeEntryFail_fails strict _ _ _
  · rename_i string
    refine filesFrom_advance (by rw [not_not.mp string]; simp [TokenKind.Ordinary]) fun q => ?_
    refine filesFrom_bind (takeTrailingComment_files _ q) ?_
    rintro comment _ rfl
    exact files_pure (by simp [entriesShelves, Entry.shelves])

omit nested in
theorem parseTypeEntry_files (first : Bool) (kind : p.current.kind = .atType) :
    FilesFrom (parseTypeEntry first)
      (fun entry shelves => (entriesShelves entry.toList).Perm shelves) p := by
  refine filesFrom_flush ?_
  refine filesFrom_get ?_
  split
  · exact filesFrom_fails fun strict => typeEntryFail_fails strict _ _ _
  refine filesFrom_advance (by rw [kind]; simp [TokenKind.Ordinary]) fun q => ?_
  refine filesFrom_get ?_
  split
  · exact filesFrom_fails fun strict => typeEntryFail_fails strict _ _ _
  · rename_i equals
    exact filesFrom_advance (by rw [not_not.mp equals]; simp [TokenKind.Ordinary])
      (parseTypeUrl_files _ _)

theorem valueTail_files (build : Value → Bytes → Entry) (leading : List Comment)
    (builds : ∀ value comment, (build value comment).shelves =
      .list leading :: (value.shelves ++ [.text comment]))
    (separator : p.current.kind.Ordinary) :
    FilesFrom (do
      advance
      let value ← parseValue inner
      let trailing ← takeTrailingComment value.span.stop
      pure (build value trailing))
      (fun entry shelves => entry.shelves.Perm (.list leading :: shelves)) p := by
  refine filesFrom_advance separator fun q => ?_
  refine filesFrom_bind (parseValue_files nested q) fun value shelves perm => ?_
  intro q
  refine filesFrom_bind (takeTrailingComment_files _ q) ?_
  rintro comment _ rfl
  refine files_pure ?_
  rw [builds, List.append_nil]
  exact (perm.append_right _).cons _

theorem parseTail_files (allowMapEntry : Bool) (key : Key) :
    Files (parseTail inner allowMapEntry key) fun entry shelves =>
      (entriesShelves entry.toList).Perm (.list key.leading :: shelves) := by
  intro p
  refine filesFrom_get ?_
  have only : ∀ (entry : Entry) (shelves : List Shelf),
      entry.shelves.Perm (.list key.leading :: shelves) →
      (entriesShelves (some entry).toList).Perm (.list key.leading :: shelves) := by
    intro entry shelves perm
    simpa [entriesShelves] using perm
  split
  · rename_i kind
    refine filesFrom_map (filesFrom_softWhen _ _ _ (filesFrom_mono ?_ only))
    exact valueTail_files nested _ key.leading (fun _ _ => rfl)
      (by rw [kind]; simp [TokenKind.Ordinary])
  · rename_i kind
    refine filesFrom_map (filesFrom_softWhen _ _ _ (filesFrom_softWhen _ _ _ (filesFrom_mono ?_ only)))
    exact valueTail_files nested _ key.leading (fun _ _ => rfl)
      (by rw [kind]; simp [TokenKind.Ordinary])
  · rename_i kind
    refine filesFrom_map (filesFrom_softWhen _ _ _ (filesFrom_mono ?_ only))
    refine filesFrom_get ?_
    cases inner with
    | none => exact filesFrom_fails fun strict => (soft_fails strict _ _).bind _
    | some deeper =>
      exact nestedBody_files nested rfl kind fun body shelves perm => perm.cons _
  · exact filesFrom_map (filesFrom_fails fun strict => (soft_fails strict _ _).bind _)

theorem parseEntry_files (allowMapEntry : Bool) :
    Files (parseEntry inner allowMapEntry) fun entry shelves =>
      (entriesShelves entry.toList).Perm shelves := by
  intro p
  refine filesFrom_flush ?_
  refine filesFrom_get ?_
  split
  · rename_i key
    exact filesFrom_advance (ordinary_of_literal (isLiteral_of_startsKey key))
      (parseTail_files nested _ _)
  · exact filesFrom_fails fun strict => parseNoEntry_fails strict _

theorem bodyTurn_files (entries : List Entry) :
    Files (bodyTurn inner entries) (TurnFiles entriesShelves entriesShelves entries) := by
  intro p
  refine filesFrom_get ?_
  split
  · refine files_pure ?_ p
    simp [TurnFiles]
  · have read : FilesFrom (parseBodyEntry inner entries.isEmpty)
        (fun entry shelves => (entriesShelves entry.toList).Perm shelves) p := by
      refine filesFrom_get ?_
      split
      · rename_i kind
        exact parseTypeEntry_files _ kind
      · exact parseEntry_files nested true p
    refine filesFrom_bind read fun entry shelves perm => files_pure ?_
    rw [List.append_nil]
    exact entriesShelves_next perm

end

theorem closeBody_files (entries : List Entry) :
    Files (closeBody entries) fun body shelves =>
      body.entries = entries ∧ shelves = [.list body.trailing] := by
  intro p
  refine filesFrom_flush ?_
  refine filesFrom_get ?_
  split
  · refine filesFrom_fails fun strict => ?_
    have strict : p.tolerant = false := strict
    rw [if_pos (by simp [strict])]
    exact err_fails _ _ _
  · rename_i closes
    exact filesFrom_advance (by rw [not_not.mp closes]; simp [TokenKind.Ordinary])
      (files_pure ⟨rfl, rfl⟩)

theorem parseNested_files (room : Nat) : NestedFiles (parseNested room) := by
  induction room with
  | zero => intro deeper none_; cases none_
  | succ room nested =>
    intro deeper some_
    cases some_
    refine ⟨parseValue_files nested, fun p => ?_⟩
    refine filesFrom_bind (files_loop (bodyTurn_files nested) [] p) ?_
    intro entries shelves perm q
    refine filesFrom_mono (closeBody_files entries q) ?_
    rintro body _ ⟨rfl, rfl⟩
    exact perm.append_right _

section

variable {inner : Option Nested} (nested : NestedFiles inner) {p : Parser}

include nested

theorem parseRowCell_files :
    Files (parseRowCell inner) fun cell shelves => (cellShelves [cell]).Perm shelves := by
  intro p
  refine filesFrom_get ?_
  split
  · exact files_pure (.refl _) p
  · intro cell q filing ran
    obtain ⟨pending, p', flushed, ran⟩ := bind_ok ran
    cases flushed
    rw [run_attempt] at ran
    cases read : parseValue inner { p with comments := [] } with
    | error failure r =>
      rw [read] at ran
      cases ran
    | ok value r =>
      rw [read] at ran
      cases ran
      obtain ⟨filing', seen, shelves, walks, filed, perm⟩ :=
        parseValue_files nested _ value r (filing.comments (by simp)) read
      have texts : ∀ c ∈ p.comments ++ r.comments, c.text ≠ [] := by
        intro c member
        obtain early | late := List.mem_append.mp member
        · exact filing.texts c early
        · exact filing'.texts c late
      refine ⟨filing'.comments texts, seen, shelves, walks, filed.behind p.comments, ?_⟩
      simpa [cellShelves] using perm

theorem cellTurn_files (cells : List (Option Value)) :
    Files (cellTurn inner cells) (TurnFiles cellShelves cellShelves cells) := by
  intro p
  refine filesFrom_get ?_
  split
  · rename_i comma
    refine filesFrom_advance (by rw [comma]; simp [TokenKind.Ordinary]) fun q => ?_
    refine filesFrom_bind (parseRowCell_files nested q) fun cell shelves perm => files_pure ?_
    rw [TurnFiles, cellShelves_append, List.append_nil]
    exact perm.append_left _
  · refine files_pure ?_ p
    simp [TurnFiles]

omit nested in
theorem closeRow_files (pos : Position) (leading : List Comment) (expected : Nat)
    (cells : List (Option Value)) :
    Files (closeRow pos leading expected true cells) fun found shelves => ∃ inside,
      found.1.leadingComments = leading ++ inside ∧ found.1.cells = cells ∧
        shelves = [.list inside] := by
  intro p
  refine filesFrom_get ?_
  split
  · exact filesFrom_fails fun _ => err_fails _ _ _
  · rename_i closes
    refine filesFrom_flush ?_
    refine filesFrom_advance (by rw [not_not.mp closes]; simp [TokenKind.Ordinary]) fun q => ?_
    split
    · exact filesFrom_fails fun _ => err_fails _ _ _
    · exact files_pure ⟨_, rfl, rfl, rfl⟩ q

theorem parseTableRow_files (expected : Nat) (opens : p.current.kind = .lParen) :
    FilesFrom (parseTableRow inner expected true)
      (fun found shelves => found.1.shelves.Perm shelves) p := by
  intro found q filing ran
  rw [parseTableRow, run_get] at ran
  obtain ⟨leading, p', flushed, ran⟩ := bind_ok ran
  cases flushed
  have rest : FilesFrom (do
      advance
      let first ← parseRowCell inner
      let cells ← repeatWhile Parser.remaining (cellTurn inner) [first]
      closeRow p.current.pos p.comments expected true cells)
      (fun found shelves => ∃ inside, found.1.leadingComments = p.comments ++ inside ∧
        (.list inside :: cellShelves found.1.cells).Perm shelves) { p with comments := [] } := by
    have ordinary : p.current.kind.Ordinary := by rw [opens]; simp [TokenKind.Ordinary]
    refine filesFrom_advance ordinary fun q => ?_
    refine filesFrom_bind (parseRowCell_files nested q) fun first shelves perm => ?_
    intro q
    refine filesFrom_bind (files_loop (cellTurn_files nested) [first] q) fun cells more perm' => ?_
    intro q
    refine filesFrom_mono (closeRow_files _ _ expected cells q) ?_
    rintro found _ ⟨inside, leads, rfl, rfl⟩
    refine ⟨inside, leads, ?_⟩
    have cells := perm'.trans (perm.append_right more)
    rw [← List.append_assoc]
    exact (cells.cons _).trans (List.perm_append_singleton _ _).symm
  obtain ⟨filing', seen, shelves, walks, filed, inside, leads, perm⟩ :=
    rest found q (filing.comments (by simp)) ran
  refine ⟨filing', seen, found.1.shelves, walks, ?_, .refl _⟩
  have row := filed.perm perm
  refine row.widen p.comments fun part holds => ?_
  rw [show part = inside from holds, leads]
  rfl

theorem rowTurn_files (expected : Nat) (read : List DatasetRow × Nat) :
    Files (rowTurn inner expected read) (TurnFiles
      (fun read => read.1.flatMap DatasetRow.shelves)
      (fun read => read.1.flatMap DatasetRow.shelves) read) := by
  intro p
  refine filesFrom_get ?_
  split
  · rename_i opens
    refine filesFrom_bind (parseTableRow_files nested expected opens) fun found shelves perm =>
      files_pure ?_
    rw [TurnFiles, List.append_nil]
    simpa using perm.append_left _
  · refine files_pure ?_ p
    simp [TurnFiles]

omit nested in
theorem columnTurn_files (columns : List (Bytes × Position)) :
    Files (columnTurn columns) (TurnFiles (fun _ => []) (fun _ => []) columns) := by
  intro p
  refine filesFrom_get ?_
  split
  · exact filesFrom_fails fun _ => err_fails _ _ _
  · rename_i ident
    refine filesFrom_advance (by rw [not_not.mp ident]; simp [TokenKind.Ordinary]) fun q => ?_
    refine filesFrom_get ?_
    split
    · rename_i comma
      exact filesFrom_advance (by rw [comma]; simp [TokenKind.Ordinary]) (files_pure (.refl _))
    · split
      · exact files_pure (.refl _) q
      · exact filesFrom_fails fun _ => err_fails _ _ _

omit nested in
theorem parseTableHeader_files : Files parseTableHeader fun _ shelves => shelves = [] := by
  have columns : Files parseColumns fun _ shelves => shelves = [] := by
    intro p
    refine filesFrom_get ?_
    split
    · exact filesFrom_fails fun _ => err_fails _ _ _
    · refine filesFrom_bind (files_loop columnTurn_files [] p) fun columns shelves perm => ?_
      have none_ : shelves = [] := List.nil_perm.mp perm
      subst none_
      intro q
      split
      · exact filesFrom_fails fun _ => err_fails _ _ _
      · refine files_pure ?_ q
        rfl
  have list : Files parseColumnList fun _ shelves => shelves = [] := by
    intro p
    refine filesFrom_get ?_
    split
    · exact filesFrom_fails fun _ => err_fails _ _ _
    · rename_i opens
      exact filesFrom_advance (by rw [not_not.mp opens]; simp [TokenKind.Ordinary]) columns
  have type : Files parseRowType fun _ shelves => shelves = [] := by
    intro p
    refine filesFrom_get ?_
    split
    · rename_i ident
      exact filesFrom_advance (by rw [ident]; simp [TokenKind.Ordinary]) (files_pure rfl)
    · refine files_pure ?_ p
      rfl
  intro p
  refine filesFrom_bind (type p) ?_
  rintro _ _ rfl q
  refine filesFrom_bind (list q) ?_
  rintro _ _ rfl
  exact files_pure rfl

theorem parseTableDirective_files (directive : p.current.kind = .atDataset) :
    FilesFrom (parseTableDirective inner)
      (fun found shelves => found.1.shelves.Perm shelves) p := by
  refine filesFrom_flush ?_
  refine filesFrom_get ?_
  have ordinary : p.current.kind.Ordinary := by rw [directive]; simp [TokenKind.Ordinary]
  refine filesFrom_advance ordinary fun q => ?_
  -- The header and what it is left on come from one run.
  intro found r filing ran
  obtain ⟨header, q', read, ran⟩ := bind_ok ran
  have closes := parseTableHeader_closes read
  obtain ⟨filing, seen, shelves, walks, filed, rfl⟩ := parseTableHeader_files q header q' filing read
  have rest : FilesFrom (do
      let read ← parseTableRows inner header.2.length
      pure (⟨p.current.pos, header.1, header.2, read.1, p.comments⟩, read.2))
      (fun found shelves => (found.1 : DatasetDirective).shelves.Perm (.list p.comments :: shelves))
      q' := by
    have rows : FilesFrom (parseTableRows inner header.2.length)
        (fun read shelves => (read.1.flatMap DatasetRow.shelves).Perm shelves) q' :=
      filesFrom_get (filesFrom_advance (by rw [closes]; simp [TokenKind.Ordinary])
        (files_loop (rowTurn_files nested _) _))
    refine filesFrom_bind rows fun read shelves perm => files_pure ?_
    rw [List.append_nil]
    exact perm.cons _
  obtain ⟨filing, more, shelves, walks', filed', perm⟩ := rest found r filing ran
  refine ⟨filing, seen ++ more, shelves, walks.trans walks', ?_, perm⟩
  rw [kept_append, ← List.append_assoc]
  exact filed.andThen filed'

end

end Protowire.Pxf
