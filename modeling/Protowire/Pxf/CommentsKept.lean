import Protowire.Pxf.BraceMatch
import Protowire.Pxf.Comments

/-!
The comments of a whole document: its directives file theirs as the entries do, but for those
between a directive's name and its block.
-/

namespace Protowire.Pxf

open Support

variable {p q r : Parser} {room : Nat} {pos : Position} {leading : List Comment}
  {found : ProtoDirective × Nat} {label : Bytes} {captured : Bytes × Nat} {doc : Document}

theorem cursor_current (p : Parser) : p.cursor.current = p.current := rfl

theorem advanced_first (p : Parser) : p.advanced.cursor = .first p.lex := rfl

theorem advanced_cursor (p : Parser) : p.advanced.cursor = p.cursor.advanced := rfl

theorem advanced_passed (p : Parser) : p.advanced.comments = p.comments ++ p.cursor.passed := rfl

theorem closingCount_run (depth : Nat) (p : Parser) :
    closingCount.run depth p = closingBrace depth p.cursor := rfl

theorem prefixTurn_names (read : List Bytes × Nat) :
    Keeps (fun p q => (Filing p → Filing q) ∧
      nameRun (p.comments, p.cursor) = nameRun (q.comments, q.cursor)) (prefixTurn read) := by
  intro p
  rw [prefixTurn, run_get]
  split
  · rename_i ident
    exact ⟨Filing.advanced, nameRun_ident (c := p.cursor) ident.1⟩
  · exact ⟨id, rfl⟩

theorem parsePrefixes_names {read : List Bytes × Nat} (filing : Filing p) (empty : p.comments = [])
    (ran : parsePrefixes p = .ok read q) :
    Filing q ∧
      nameRun (p.cursor.passed, p.cursor.advanced) = nameRun (q.comments, q.cursor) ∧
      (q.current.kind = .ident → q.peekKind = .equals ∨ q.peekKind = .colon) := by
  rw [parsePrefixes, run_get] at ran
  obtain ⟨_, p', one, ran⟩ := bind_ok ran
  cases one
  have names : Keeps _ (repeatWhile Parser.remaining prefixTurn _) := keeps_repeatWhile
    (fun p => ⟨id, rfl⟩)
    (fun _ _ _ first second => ⟨second.1 ∘ first.1, first.2.trans second.2⟩) prefixTurn_names
    ([], p.current.pos.offset + 1 + p.current.value.length)
  have names := names p.advanced
  rw [ran] at names
  have first : nameRun (p.cursor.passed, p.cursor.advanced) =
      nameRun (p.advanced.comments, p.advanced.cursor) := by
    rw [advanced_comments, empty]
    rfl
  refine ⟨names.1 filing.advanced, first.trans names.2, ?_⟩
  refine repeatWhile_done (fun _ q => q.current.kind = .ident →
    q.peekKind = .equals ∨ q.peekKind = .colon) ?_ ran
  intro carried p result final turned ident
  rw [prefixTurn, run_get] at turned
  split at turned
  · obtain ⟨_, _, -, turned⟩ := bind_ok turned
    cases turned
  · rename_i stops
    cases turned
    exact not_not.mp fun others => stops ⟨ident, others⟩

theorem parseBlockVal_leaves {result : Value} (strict : p.tolerant = false)
    (ran : parseBlockVal (parseNested room) p = .ok result q) :
    ∃ r : Parser, q = r.advanced ∧ r.comments = [] ∧ r.current.kind = .rBrace ∧
      Passes .lBrace .rBrace p.advanced r := by
  rw [parseBlockVal, run_get] at ran
  cases room with
  | zero =>
    obtain ⟨_, _, failed, _⟩ := bind_ok ran
    rw [soft_strict strict] at failed
    cases failed
  | succ room =>
    obtain ⟨_, p', one, ran⟩ := bind_ok ran
    cases one
    obtain ⟨body, q', read, built⟩ := bind_ok ran
    cases built
    obtain ⟨entries, r, loop, close⟩ := bind_ok read
    obtain ⟨strict', inside⟩ := passesOver_loop
      (bodyTurn_passes .braces (parseNested_passes .braces room)) [] p.advanced entries r strict loop
    obtain ⟨closes, moved, _⟩ := closeBody_ok strict' close
    exact ⟨{ r with comments := [] }, moved, rfl, closes, inside.trans (passes_comments r [])⟩

theorem walks_block (directive : p.current.kind = .atDirective)
    (names : nameRun (p.cursor.passed, p.cursor.advanced) = nameRun (q.comments, q.cursor))
    (opens : q.current.kind = .lBrace) (closes : r.current.kind = .rBrace)
    (inside : Passes .lBrace .rBrace q.advanced r) :
    Walks p r.advanced (q.comments.map (·, true) ++ plain (significant r.lex).comments) := by
  have brace : q.cursor.current.kind = .lBrace := opens
  rw [nameRun_done (c := q.cursor) (by rw [brace]; simp)] at names
  have close : closingBrace 1 q.cursor.advanced = r.cursor := by
    have same := inside _ closingCount 1 Nat.one_pos
    rw [closingCount_run, closingCount_run, advanced_cursor] at same
    exact same.trans (closingBrace_here closes)
  intro found
  rw [outsideFrom_block (c := p.cursor) directive names opens, close]
  rfl

theorem walks_bare (directive : p.current.kind = .atDirective)
    (names : nameRun (p.cursor.passed, p.cursor.advanced) = nameRun (q.comments, q.cursor))
    (stops : q.current.kind = .ident → q.peekKind = .equals ∨ q.peekKind = .colon)
    (opens : q.current.kind ≠ .lBrace) : Walks p q (plain q.comments) := by
  intro found
  by_cases ident : q.cursor.current.kind = .ident
  · -- The walk has passed the key of the first entry too.
    have next : q.cursor.advanced.current.kind = .equals ∨ q.cursor.advanced.current.kind = .colon :=
      stops ident
    have noIdent : q.cursor.advanced.current.kind ≠ .ident := by
      rcases next with next | next <;> simp [next]
    have noBrace : q.cursor.advanced.current.kind ≠ .lBrace := by
      rcases next with next | next <;> simp [next]
    rw [nameRun_ident ident, nameRun_done noIdent] at names
    rw [outsideFrom_bare (c := p.cursor) directive names noBrace,
      outsideFrom_ordinary (c := q.cursor) (by rw [ident]; simp [TokenKind.Ordinary]),
      plain_append, List.append_assoc]
  · rw [nameRun_done ident] at names
    exact outsideFrom_bare (c := p.cursor) directive names opens

theorem parseDirectiveBody_files {name : Bytes} {read : List Bytes × Nat} {found : Directive × Nat}
    (directive : p.current.kind = .atDirective) (filing : Filing q)
    (names : nameRun (p.cursor.passed, p.cursor.advanced) = nameRun (q.comments, q.cursor))
    (stops : q.current.kind = .ident → q.peekKind = .equals ∨ q.peekKind = .colon)
    (ran : parseDirectiveBody (parseNested room) pos name leading read q = .ok found r) :
    Filing r ∧ (∃ seen, Walks p r seen ∧ kept seen = r.comments) ∧
      found.1.leadingComments = leading := by
  rw [parseDirectiveBody, run_get] at ran
  split at ran
  · rename_i opens
    obtain ⟨block, q', parsed, ran⟩ := bind_ok ran
    obtain ⟨filing', -⟩ := parseBlockVal_files (parseNested_files room) opens block q' filing parsed
    obtain ⟨r', moved, empty, closes, inside⟩ := parseBlockVal_leaves filing.strict parsed
    have walks := walks_block directive names opens closes inside
    have pending : q'.comments = (significant r'.lex).comments := by
      rw [moved, advanced_comments, empty, List.nil_append]
    cases matched : findMatchingBrace q.lex.input q.current.pos.offset with
    | none =>
      rw [matched] at ran
      cases ran
    | some close =>
      rw [matched] at ran
      cases ran
      refine ⟨filing', ⟨_, moved ▸ walks, ?_⟩, rfl⟩
      rw [kept_append, kept_between, kept_plain, pending, List.nil_append]
  · rename_i opens
    cases ran
    exact ⟨filing, ⟨_, walks_bare directive names stops opens, kept_plain _⟩, rfl⟩

theorem parseDirective_files (directive : p.current.kind = .atDirective) :
    FilesFrom (parseDirective (parseNested room))
      (fun found shelves => found.1.shelves = shelves) p := by
  refine filesFrom_flush ?_
  refine filesFrom_get ?_
  refine filesFrom_softWhen _ _ _ ?_
  intro found r filing ran
  obtain ⟨read, q, prefixes, ran⟩ := bind_ok ran
  obtain ⟨filing, names, stops⟩ := parsePrefixes_names filing rfl prefixes
  obtain ⟨filing, ⟨seen, walks, pending⟩, leading⟩ :=
    parseDirectiveBody_files directive filing names stops ran
  refine ⟨filing, seen, [], walks, ?_, ?_⟩
  · rw [pending]
    exact .nothing _
  · change [Shelf.list found.1.leadingComments] = _
    rw [leading]

theorem findMatchingBrace_past {input : Bytes} {open_ close : Nat}
    (matched : findMatchingBrace input open_ = some close) : open_ + 1 ≤ close := by
  obtain ⟨later, -⟩ := BraceMatch.scan_append (input.drop (open_ + 1)) [] {} 0 (open_ + 1) (Nat.zero_le _)
  rw [findMatchingBrace] at matched
  split at matched
  · rename_i found
    cases matched
    rw [found] at later
    exact later
  · cases matched

theorem captureBraceBody_ok (filing : Filing p) (opens : p.current.kind = .lBrace)
    (ran : captureBraceBody label p = .ok captured q) :
    ∃ close, findMatchingBrace p.cursor.lex.input p.cursor.current.pos.offset = some close ∧
      Filing q ∧ q.cursor = .first (p.cursor.beyond close) ∧
      q.comments = p.comments ++ (significant (p.cursor.beyond close)).comments := by
  rw [captureBraceBody, run_get] at ran
  cases matched : findMatchingBrace p.lex.input p.current.pos.offset with
  | none =>
    rw [matched] at ran
    cases ran
  | some close =>
    rw [matched] at ran
    cases ran
    have past := findMatchingBrace_past matched
    have here := filing.brace opens
    have forward : p.lex.repositionTo (close + 1) = p.cursor.beyond close := by
      rw [Lexer.repositionTo, if_neg (by omega)]
      rfl
    refine ⟨close, matched, ?_, ?_, ?_⟩
    · refine filing_advanced filing.strict ?_ filing.texts
      change Whole (p.lex.repositionTo (close + 1))
      rw [forward]
      exact filing.whole
    · rw [advanced_first, ← forward]
    · rw [advanced_comments, ← forward]

theorem walks_unbraced (proto : p.current.kind = .atProto)
    (literal : p.advanced.current.kind = .string ∨ p.advanced.current.kind = .bytes) :
    Walks p p.advanced.advanced
      (plain (significant p.lex).comments ++ plain (significant p.advanced.lex).comments) := by
  have noBrace : p.cursor.advanced.current.kind ≠ .lBrace := by
    change p.advanced.current.kind ≠ _
    rcases literal with kind | kind <;> rw [kind] <;> simp
  have noIdent : p.cursor.advanced.current.kind ≠ .ident := by
    change p.advanced.current.kind ≠ _
    rcases literal with kind | kind <;> rw [kind] <;> simp
  have first : Walks p p.advanced (plain (significant p.lex).comments) := fun _ =>
    outsideFrom_unbraced (c := p.cursor) proto noBrace noIdent
  refine first.trans (walks_advanced ?_)
  rcases literal with kind | kind <;> rw [kind] <;> simp [TokenKind.Ordinary]

def LeavesPending (p r : Parser) : Prop :=
  Filing r ∧ ∃ seen, Walks p r seen ∧ p.comments ++ kept seen = r.comments

theorem anonymous_pending (proto : p.current.kind = .atProto) (filing : Filing p)
    (brace : p.advanced.current.kind = .lBrace)
    (capture : captureBraceBody label p.advanced = .ok captured r) : LeavesPending p r := by
  obtain ⟨close, matched, filing, cursor, pending⟩ :=
    captureBraceBody_ok filing.advanced brace capture
  refine ⟨filing, plain p.cursor.passed ++
    plain (significant (p.cursor.advanced.beyond close)).comments, fun found => ?_, ?_⟩
  · rw [cursor]
    exact outsideFrom_anonymous (c := p.cursor) proto brace matched
  · rw [pending, kept_append, kept_plain, kept_plain, advanced_comments, List.append_assoc]
    rfl

theorem named_pending (proto : p.current.kind = .atProto) (filing : Filing p)
    (ident : p.advanced.current.kind = .ident) (brace : p.advanced.advanced.current.kind = .lBrace)
    (capture : captureBraceBody label p.advanced.advanced = .ok captured r) :
    LeavesPending p r := by
  obtain ⟨close, matched, filing, cursor, pending⟩ :=
    captureBraceBody_ok filing.advanced.advanced brace capture
  refine ⟨filing, plain p.cursor.passed ++ (plain p.cursor.advanced.passed ++
    plain (significant (p.cursor.advanced.advanced.beyond close)).comments), fun found => ?_, ?_⟩
  · rw [← cursor_current, advanced_cursor, advanced_cursor] at brace
    rw [advanced_cursor, advanced_cursor] at matched cursor
    rw [cursor]
    exact outsideFrom_named (c := p.cursor) proto ident brace matched
  · simp only [pending, advanced_passed, advanced_cursor, kept_append, kept_plain, List.append_assoc]

theorem unbraced_pending (proto : p.current.kind = .atProto) (filing : Filing p)
    (literal : p.advanced.current.kind = .string ∨ p.advanced.current.kind = .bytes) :
    LeavesPending p p.advanced.advanced := by
  refine ⟨filing.advanced.advanced, _, walks_unbraced proto literal, ?_⟩
  rw [kept_append, kept_plain, kept_plain, advanced_comments, advanced_comments, List.append_assoc]

theorem parseProtoNamed_ok {name : Bytes} (ran : parseProtoNamed pos leading name q = .ok found r) :
    q.current.kind = .lBrace ∧ (∃ label captured, captureBraceBody label q = .ok captured r) ∧
      found.1.leadingComments = leading := by
  rw [parseProtoNamed, run_get] at ran
  split at ran
  · cases ran
  · rename_i brace
    obtain ⟨captured, r', capture, ran⟩ := bind_ok ran
    cases ran
    exact ⟨not_not.mp brace, ⟨_, captured, capture⟩, rfl⟩

theorem parseProtoBody_ok (ran : parseProtoBody pos leading q = .ok found r) :
    found.1.leadingComments = leading ∧
      ((q.current.kind = .lBrace ∧ ∃ label captured, captureBraceBody label q = .ok captured r) ∨
        (q.current.kind = .ident ∧ q.advanced.current.kind = .lBrace ∧
          ∃ label captured, captureBraceBody label q.advanced = .ok captured r) ∨
        ((q.current.kind = .string ∨ q.current.kind = .bytes) ∧ r = q.advanced)) := by
  rw [parseProtoBody, run_get] at ran
  cases kind : q.current.kind <;> simp only [kind] at ran
  case lBrace =>
    obtain ⟨captured, r', capture, ran⟩ := bind_ok ran
    cases ran
    exact ⟨rfl, .inl ⟨rfl, _, captured, capture⟩⟩
  case ident =>
    obtain ⟨_, q', one, ran⟩ := bind_ok ran
    cases one
    obtain ⟨brace, captures, leading⟩ := parseProtoNamed_ok ran
    exact ⟨leading, .inr (.inl ⟨rfl, brace, captures⟩)⟩
  case string =>
    cases ran
    exact ⟨rfl, .inr (.inr ⟨.inl rfl, rfl⟩)⟩
  case bytes =>
    cases decoded : base64DecodeProto q.current.value with
    | error _ =>
      rw [decoded] at ran
      cases ran
    | ok _ =>
      rw [decoded] at ran
      cases ran
      exact ⟨rfl, .inr (.inr ⟨.inr rfl, rfl⟩)⟩
  all_goals cases ran

theorem parseProtoBody_pending (proto : p.current.kind = .atProto) (filing : Filing p)
    (ran : parseProtoBody pos leading p.advanced = .ok found r) :
    LeavesPending p r ∧ found.1.leadingComments = leading := by
  obtain ⟨leading, shape⟩ := parseProtoBody_ok ran
  refine ⟨?_, leading⟩
  obtain ⟨brace, _, _, capture⟩ | ⟨ident, brace, _, _, capture⟩ | ⟨literal, rfl⟩ := shape
  · exact anonymous_pending proto filing brace capture
  · exact named_pending proto filing ident brace capture
  · exact unbraced_pending proto filing literal

theorem parseProtoDirective_files (proto : p.current.kind = .atProto) :
    FilesFrom parseProtoDirective (fun found shelves => found.1.shelves = shelves) p := by
  refine filesFrom_flush ?_
  refine filesFrom_get ?_
  intro found r filing ran
  obtain ⟨_, q, one, ran⟩ := bind_ok ran
  cases one
  have proto : ({ p with comments := [] } : Parser).current.kind = .atProto := proto
  obtain ⟨⟨filing, seen, walks, pending⟩, leading⟩ := parseProtoBody_pending proto filing ran
  refine ⟨filing, seen, [], walks, ?_, ?_⟩
  · rw [pending]
    exact .nothing _
  · change [Shelf.list found.1.leadingComments] = _
    rw [leading]

theorem parseTypeDirective_files (type : p.current.kind = .atType) (doc : Document) :
    FilesFrom (parseTypeDirective doc) (fun result shelves =>
      (∃ typeUrl bodyOffset, result = { doc with typeUrl, bodyOffset }) ∧ shelves = []) p := by
  refine filesFrom_advance (by rw [type]; simp [TokenKind.Ordinary]) fun q => ?_
  refine filesFrom_get ?_
  by_cases ident : q.current.kind = .ident
  · split
    · exact filesFrom_fails fun strict => (soft_fails strict _ _).bind _
    · refine filesFrom_advance (by rw [ident]; simp [TokenKind.Ordinary]) ?_
      exact files_pure ⟨⟨_, _, rfl⟩, rfl⟩
  · rw [if_pos (by simp [ident])]
    exact filesFrom_fails fun strict => (soft_fails strict _ _).bind _

theorem recovering_files {α : Type} {directive : ParserM α} {keep : α → Document} {skip : Document}
    {spec : Document → List Shelf → Prop}
    (same : Stepwise directive)
    (files : FilesFrom directive (fun found => spec (keep found)) p) :
    FilesFrom (recovering directive keep skip) spec p := by
  intro doc q filing ran
  rw [recovering, run_attempt] at ran
  have mode := same.keeps mode_order p
  cases first : directive p with
  | ok found r =>
    rw [first] at ran
    cases ran
    exact files found q filing first
  | error failure r =>
    rw [first] at ran mode
    change recover failure skip r = _ at ran
    have strict : r.tolerant = false := mode.trans filing.strict
    rw [recover, run_get, if_pos (by simp [strict])] at ran
    cases ran

def Document.headShelves (doc : Document) : List Shelf :=
  .list doc.leadingComments :: (doc.directives.flatMap Directive.shelves ++
    doc.datasets.flatMap DatasetDirective.shelves ++ doc.protos.flatMap ProtoDirective.shelves)

theorem headShelves_directive (doc : Document) (directive : Directive) (bodyOffset : Nat) :
    (Document.headShelves { doc with directives := doc.directives ++ [directive], bodyOffset }).Perm
      (doc.headShelves ++ directive.shelves) := by
  simp only [Document.headShelves, List.flatMap_append, List.flatMap_singleton, List.append_assoc,
    List.cons_append]
  refine .cons _ (.append_left _ (List.perm_append_comm.trans ?_))
  rw [List.append_assoc]

theorem headShelves_dataset (doc : Document) (dataset : DatasetDirective) (bodyOffset : Nat) :
    (Document.headShelves { doc with datasets := doc.datasets ++ [dataset], bodyOffset }).Perm
      (doc.headShelves ++ dataset.shelves) := by
  simp only [Document.headShelves, List.flatMap_append, List.flatMap_singleton, List.append_assoc,
    List.cons_append]
  exact .cons _ (.append_left _ (.append_left _ List.perm_append_comm))

theorem headShelves_proto (doc : Document) (proto : ProtoDirective) (bodyOffset : Nat) :
    Document.headShelves { doc with protos := doc.protos ++ [proto], bodyOffset } =
      doc.headShelves ++ proto.shelves := by
  simp only [Document.headShelves, List.flatMap_append, List.flatMap_singleton, List.append_assoc,
    List.cons_append]

theorem directiveTurn_files (room : Nat) (doc : Document) :
    Files (directiveTurn (parseNested room) doc)
      (TurnFiles Document.headShelves Document.headShelves doc) := by
  have kept := parseNested_stepwise room
  intro p
  refine filesFrom_get ?_
  cases kind : p.current.kind
  case atType =>
    refine filesFrom_map (filesFrom_mono (parseTypeDirective_files kind doc) ?_)
    rintro _ _ ⟨⟨_, _, rfl⟩, rfl⟩
    rw [TurnFiles, List.append_nil]
    exact .refl _
  case atDirective =>
    refine filesFrom_map (recovering_files (parseDirective_stepwise kept) ?_)
    refine filesFrom_mono (parseDirective_files kind) ?_
    rintro found _ rfl
    exact headShelves_directive doc found.1 found.2
  case atDataset =>
    refine filesFrom_map (recovering_files (parseTableDirective_stepwise kept) ?_)
    refine filesFrom_mono (parseTableDirective_files (parseNested_files room) kind) ?_
    intro found shelves perm
    exact (headShelves_dataset doc found.1 found.2).trans (perm.append_left _)
  case atProto =>
    refine filesFrom_map (recovering_files (parseProtoDirective_stepwise) ?_)
    refine filesFrom_mono (parseProtoDirective_files kind) ?_
    rintro found _ rfl
    exact .of_eq (headShelves_proto doc found.1 found.2)
  all_goals
    refine files_pure ?_ p
    rw [TurnFiles, List.append_nil]

theorem entryTurn_files (room : Nat) (entries : List Entry) :
    Files (entryTurn (parseNested room) entries)
      (TurnFiles entriesShelves entriesShelves entries) := by
  intro p
  refine filesFrom_get ?_
  split
  · refine files_pure ?_ p
    rw [TurnFiles, List.append_nil]
  · refine filesFrom_bind (parseEntry_files (parseNested_files room) false p) ?_
    intro entry shelves perm
    refine files_pure ?_
    rw [TurnFiles, List.append_nil]
    exact entriesShelves_next perm

theorem parseEntries_finish {inner : Option Nested} {result : Document}
    (ran : parseEntries inner doc p = .ok result q) : q.current.kind = .eof ∧ q.comments = [] := by
  obtain ⟨_, p', -, ran⟩ := bind_ok ran
  obtain ⟨entries, r, loop, ran⟩ := bind_ok ran
  cases ran
  have ended : r.current.kind = .eof := ?_
  · exact ⟨ended, rfl⟩
  refine repeatWhile_done (fun _ (q : Parser) => q.current.kind = .eof) ?_ loop
  intro entries p result final turned
  rw [entryTurn, run_get] at turned
  split at turned
  · rename_i ended
    cases turned
    exact ended
  · obtain ⟨_, _, _, turned⟩ := bind_ok turned
    cases turned

theorem parseEntries_files (room : Nat) (doc : Document) :
    Files (parseEntries (parseNested room) doc)
      (fun result shelves => result.shelves.Perm (doc.headShelves ++ shelves)) := by
  intro p result q filing ran
  obtain fails | passes := checkStandalone_strict filing.strict doc
  · obtain ⟨failure, r, failed⟩ := fails.bind _
    rw [show parseEntries (parseNested room) doc p = _ from failed] at ran
    cases ran
  rw [parseEntries, run_bind_ok passes] at ran
  refine (filesFrom_bind (files_loop (entryTurn_files room) [] p) ?_ : FilesFrom _
    (fun result shelves => result.shelves.Perm (doc.headShelves ++ shelves)) p) result q filing ran
  intro entries shelves perm q
  refine filesFrom_flush (files_pure ?_ _)
  simp only [Document.shelves, Document.headShelves, List.append_assoc, List.cons_append]
  exact .cons _ (.append_left _ (.append_left _ (.append_left _ (perm.append_right _))))

theorem parseDocument_files :
    Files parseDocument (fun doc shelves => doc.shelves.Perm shelves) := by
  intro p
  refine filesFrom_flush (filesFrom_get ?_)
  refine filesFrom_bind (files_loop (directiveTurn_files _) _ _) ?_
  intro doc shelves perm q
  refine filesFrom_mono (parseEntries_files _ doc q) ?_
  intro result more same
  refine same.trans ?_
  rw [← List.cons_append]
  exact perm.append_right more

theorem parseDocument_finish (ran : parseDocument p = .ok doc q) :
    q.current.kind = .eof ∧ q.comments = [] := by
  obtain ⟨leading, p', -, ran⟩ := bind_ok ran
  rw [run_get] at ran
  obtain ⟨head, r, -, ran⟩ := bind_ok ran
  exact parseEntries_finish ran

def documentLexer (input : Bytes) (opts : ParseOptions) : Lexer :=
  .ofPiece input {} (selected opts.maxBytesLiteralLength maxBytesLiteralLength)

theorem parse_files {input : Bytes} {opts : ParseOptions} (parsed : parse input opts = .ok doc) :
    Filed Shelf.Holds (kept (commentsSeen (documentLexer input opts))) doc.shelves [] := by
  simp only [parse] at parsed
  split at parsed
  · cases parsed
  · generalize ran : parseDocument _ = run at parsed
    cases run with
    | error failure q => cases parsed
    | ok result q =>
      cases parsed
      have filing : Filing (Parser.start input (selected opts.maxNestingDepth maxNestingDepth)
          (selected opts.maxBytesLiteralLength maxBytesLiteralLength) {}) :=
        filing_advanced rfl rfl (by simp)
      obtain ⟨-, seen, shelves, walks, filed, perm⟩ := parseDocument_files _ doc q filing ran
      obtain ⟨ended, empty⟩ := parseDocument_finish ran
      have all : commentsSeen (documentLexer input opts) =
          plain (significant (documentLexer input opts)).comments ++ seen := by
        refine (walks _).trans ?_
        exact outsideFrom_eof (c := q.cursor) ended
      rw [empty] at filed
      rw [all, kept_append, kept_plain]
      exact filed.perm perm

theorem kept_all {seen : Seen} (none : ∀ mark ∈ seen, mark.2 = false) :
    kept seen = seen.map (·.1) := by
  rw [kept, List.filter_eq_self.mpr]
  intro mark member
  rw [none mark member, Bool.not_false]

theorem all_of_kept_length {seen : Seen} (same : (kept seen).length = (seen.map (·.1)).length) :
    ∀ mark ∈ seen, mark.2 = false := by
  rw [kept, List.length_map, List.length_map, List.length_filter_eq_length_iff] at same
  intro mark member
  simpa using same mark member

/-- A parse keeps every comment token outside the bodies of directives once, with its text and in
order, exactly when none stands between a directive's name and its block. -/
theorem parse_comments {input : Bytes} {opts : ParseOptions} {doc : Document}
    (parsed : parse input opts = .ok doc) :
    Filed Shelf.Holds ((commentsSeen (documentLexer input opts)).map (·.1)) doc.shelves [] ↔
      ∀ mark ∈ commentsSeen (documentLexer input opts), mark.2 = false := by
  have filed := parse_files parsed
  constructor
  · intro all
    have count := all.count Shelf.size Shelf.size_eq
    rw [filed.count Shelf.size Shelf.size_eq] at count
    exact all_of_kept_length count
  · intro none
    rw [← kept_all none]
    exact filed

def commented : Bytes := text "# a\nx = 1 # b\ny \x7b\n  # c\n\x7d\n# d\n"

theorem parse_comments_commented :
    ∃ doc, parse commented {} = .ok doc ∧
      Filed Shelf.Holds ((commentsSeen (documentLexer commented {})).map (·.1)) doc.shelves [] := by
  refine ⟨_, rfl, (parse_comments rfl).mpr ?_⟩
  decide +kernel

theorem parse_drops_comment :
    ∃ doc, parse (text "@foo # c\n\x7b a = 1 \x7d\n") {} = .ok doc ∧
      ((commentsSeen (documentLexer (text "@foo # c\n\x7b a = 1 \x7d\n") {})).map (·.1.text)) =
        [text "# c"] ∧
      doc.shelves = [.list [], .list [], .list []] := by
  refine ⟨_, rfl, ?_, rfl⟩
  decide +kernel

end Protowire.Pxf
