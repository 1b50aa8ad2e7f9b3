import Protowire.Pxf.Tolerant

/-!
Tolerant parsing against strict parsing. They give the same document and no errors exactly
when no list has an element that could be a key with a brace right after it.
-/

namespace Protowire.Pxf

open Support

variable {q : Parser} {inner : Option Nested} {doc found : Document}

section

variable {g : Ground} {p : Parser}

abbrev Plain {α : Type} (g : Ground) (program : ParserM α) (p : Parser) : Prop :=
  Agreement g DeadToken (fun _ => True) (fun _ _ => False) (program p) (program p.forgiving)

theorem prefixTurn_agrees (read : List Bytes × Nat) (p : Parser) (strict : Strict g p)
    (legal : Legal p) : Plain g (prefixTurn read) p := by
  have peeks : p.forgiving.peekKind = .equals ∨ p.forgiving.peekKind = .colon ↔
      p.peekKind = .equals ∨ p.peekKind = .colon :=
    or_congr (strict.forgiving_peekKind _ (.inl rfl))
      (strict.forgiving_peekKind _ (.inr (.inl rfl)))
  rw [Plain, prefixTurn, run_get, run_get, forgiving_current]
  by_cases ident : p.current.kind = .ident ∧ ¬(p.peekKind = .equals ∨ p.peekKind = .colon)
  · rw [if_pos ident, if_pos ⟨ident.1, mt peeks.mp ident.2⟩]
    exact strict.advance_then (fun stricter legal => .same stricter legal trivial)
      (fun mode illegal => ⟨mode, .inl illegal⟩) (marks_pure _)
  · rw [if_neg ident, if_neg fun found => ident ⟨found.1, mt peeks.mpr found.2⟩]
    exact .same strict legal trivial

theorem prefixTurn_stalls (read : List Bytes × Nat) (p : Parser) (mode : p.tolerant = false)
    (reason : ¬Legal p ∨ False) : Stalled (fun _ _ => False) (prefixTurn read p) := by
  have illegal := reason.resolve_right id
  rw [prefixTurn, run_get, if_neg fun found => by rw [not_not.mp illegal] at found; simp at found]
  exact ⟨mode, .inl illegal⟩

theorem prefixTurn_marks (read : List Bytes × Nat) :
    Marks DeadToken DeadToken (prefixTurn read) := by
  refine marks_of (prefixTurn_stepwise read) fun q mode dead => ?_
  rw [prefixTurn, run_get, if_neg fun found => by rcases dead.kind with kind | kind <;> simp [kind] at found]
  exact ⟨mode, .inr dead⟩

theorem parsePrefixes_agrees (strict : Strict g p) : Plain g parsePrefixes p := by
  rw [Plain, parsePrefixes, run_get, run_get, forgiving_current]
  refine strict.advance_then (fun stricter legal => ?_) (fun mode illegal => ?_) ?_
  · exact agreement_loop (fun _ => True) (fun _ _ => False)
      (fun read p strict legal _ => prefixTurn_agrees read p strict legal) prefixTurn_stalls
      prefixTurn_marks _ stricter legal trivial
  · exact stalled_loop (fun _ _ => False) prefixTurn_stalls mode (.inl illegal)
  · exact marks_loop prefixTurn_marks _

theorem directiveBlock_eq (strict : Strict g p) (flushed : p.comments = []) {d : Directive}
    (pos : d.pos = p.current.pos) {read : List Bytes × Nat} {r : Parser} {block : Value}
    (prefixed : parsePrefixes p = .ok read q)
    (parsed : parseBlockVal (parseNested g.depth) q = .ok block r) :
    directiveBlock g d = .ok block r := by
  have here : g.parser p.current.pos = { p with prevEnd := (g.lexer p.current.pos).currentPos } := by
    rw [strict.frame]
    simp only [Ground.parser, Parser.advanced, strict.stands, flushed, List.append_nil]
  have same : parsePrefixes (g.parser p.current.pos) = parsePrefixes p := by
    rw [here]
    rfl
  rw [directiveBlock, pos, run_bind_ok (same.trans prefixed)]
  exact parsed

theorem parseDirectiveBody_agrees (strict : Strict g p) (flushed : p.comments = [])
    {read : List Bytes × Nat} (prefixed : parsePrefixes p = .ok read q) (strict' : Strict g q)
    (legal : Legal q) (name : Bytes) (leading : List Comment) :
    Agreement g DeadToken (fun found => found.1.Clear g)
      (fun found q => ¬found.1.Clear g ∨ Follows q)
      (parseDirectiveBody (parseNested g.depth) p.current.pos name leading read q)
      (parseDirectiveBody (parseNested g.depth) p.current.pos name leading read q.forgiving) := by
  rw [parseDirectiveBody, run_get, run_get, forgiving_current, forgiving_input]
  split
  · refine (parseBlockVal_agrees (parseNested_agrees g g.depth) strict').bind ?_ ?_ ?_
    · intro block r parsed strict'' legal' sound
      cases findMatchingBrace q.lex.input q.current.pos.offset with
      | none => exact (err_fails _ _ _).agrees trivial
      | some close =>
        refine .same strict'' legal' fun block' r' _ found => ?_
        rw [directiveBlock_eq strict flushed rfl prefixed parsed] at found
        cases found
        exact sound.2.1
    · intro block r parsed mode reason
      cases findMatchingBrace q.lex.input q.current.pos.offset with
      | none => exact (err_fails _ _ _).stalled
      | some close =>
        refine ⟨mode, reason.imp_right fun flaw => flaw.follows.imp_left fun unclear clear => ?_⟩
        exact unclear (clear block r rfl (directiveBlock_eq strict flushed rfl prefixed parsed))
    · intro block
      split
      · exact fun _ _ => trivial
      · exact marks_pure _
  · exact .same strict' legal fun _ _ body => by simp at body

theorem parseDirectiveBody_stalls (mode : p.tolerant = false) (illegal : ¬Legal p) (pos : Position)
    (name : Bytes) (leading : List Comment) (read : List Bytes × Nat) :
    Stalled (fun found q => ¬found.1.Clear g ∨ Follows q)
      (parseDirectiveBody inner pos name leading read p) := by
  rw [parseDirectiveBody, run_get, if_neg (by rw [not_not.mp illegal]; simp)]
  exact ⟨mode, .inl illegal⟩

theorem parseDirectiveBody_marks (kept : NestedStepwise inner) (pos : Position) (name : Bytes)
    (leading : List Comment) (read : List Bytes × Nat) :
    Marks DeadToken DeadToken (parseDirectiveBody inner pos name leading read) := by
  refine marks_of (parseDirectiveBody_stepwise kept _ _ _ _) fun q mode dead => ?_
  rw [parseDirectiveBody, run_get, if_neg (by rcases dead.kind with kind | kind <;> simp [kind])]
  exact ⟨mode, .inr dead⟩

theorem parseDirective_agrees (strict : Strict g p) :
    Agreement g DeadToken (fun found => found.1.Clear g)
      (fun found q => ¬found.1.Clear g ∨ Follows q) (parseDirective (parseNested g.depth) p)
      (parseDirective (parseNested g.depth) p.forgiving) := by
  have kept := parseNested_stepwise g.depth
  refine flush_then strict fun leading q strict' _ flushed => ?_
  rw [run_get, run_get, forgiving_current]
  refine softWhen_then strict' _ _ _ ?_ ?_
  · exact .bind (parsePrefixes_stepwise) fun _ => parseDirectiveBody_stepwise kept _ _ _ _
  · refine (parsePrefixes_agrees strict').bind ?_ ?_ ?_
    · exact fun read r prefixed stricter legal _ =>
        parseDirectiveBody_agrees strict' flushed prefixed stricter legal _ _
    · exact fun read r _ mode reason =>
        parseDirectiveBody_stalls mode (reason.resolve_right id) _ _ _ _
    · exact fun read => parseDirectiveBody_marks kept _ _ _ _

def CellsClear (g : Ground) (cells : List (Option Value)) : Prop :=
  ∀ value, some value ∈ cells → value.Clear g

theorem cellsClear_append (cells : List (Option Value)) (cell : Option Value) :
    CellsClear g (cells ++ [cell]) ↔ CellsClear g cells ∧ ∀ v ∈ cell, v.Clear g := by
  simp [CellsClear, or_imp, forall_and, eq_comm]

def CellFlaw (g : Ground) (cell : Option Value) (p : Parser) : Prop :=
  (¬∀ v ∈ cell, v.Clear g) ∨ Follows p

section

variable {inner : Option Nested} (deep : DeepAgrees g inner)

include deep

theorem parseRowCell_agrees (strict : Strict g p) (legal : Legal p) :
    Agreement g DeadToken (fun cell => ∀ v ∈ cell, v.Clear g) (CellFlaw g)
      (parseRowCell inner p) (parseRowCell inner p.forgiving) := by
  rw [parseRowCell, run_get, run_get, forgiving_current]
  split
  · exact .same strict legal (by simp)
  refine flush_then strict fun pending q strict' _ _ => ?_
  refine (parseValue_agrees deep strict').attempt ?_ ?_ ?_ ?_ ?_
  · intro value r strict'' legal' sound
    exact .same (strict''.comments _) legal' (by simpa using sound.2.1)
  · intro value r mode reason
    exact ⟨mode, reason.imp_right fun flaw => flaw.follows.imp_left fun unclear => by simpa using unclear⟩
  · exact fun value => marks_bind (restoreComments_marks _) fun _ => marks_pure _
  · exact fun failure r _ => ⟨_, _, rfl⟩
  · exact fun failure r _ => trivial

omit deep in
theorem parseRowCell_fails (mode : p.tolerant = false) (illegal : ¬Legal p) :
    Fails (parseRowCell inner p) := by
  have flushed : flushComments p = .ok p.comments { p with comments := [] } := rfl
  have dead : Fails (parseValue inner { p with comments := [] }) :=
    parseValue_fails (p := { p with comments := [] }) mode inner (illegal_startsNoValue illegal)
  obtain ⟨failure, q, ran⟩ := dead
  rw [parseRowCell, run_get, if_neg (by rw [not_not.mp illegal]; simp), run_bind_ok flushed,
    run_attempt, ran]
  exact ⟨_, _, rfl⟩

theorem parseRowCell_marks : Marks DeadToken DeadToken (parseRowCell inner) := by
  have kept := deep.kept
  refine marks_of (parseRowCell_stepwise kept) fun q mode dead => ?_
  have flushed : flushComments q = .ok q.comments { q with comments := [] } := rfl
  rw [parseRowCell, run_get, if_neg (by rcases dead.kind with kind | kind <;> simp [kind]),
    run_bind_ok flushed, run_attempt]
  have ends : Ends DeadToken (parseValue inner { q with comments := [] }) :=
    parseValue_marks kept _ ⟨mode, .inr (.inl dead)⟩
  cases ran : parseValue inner { q with comments := [] } with
  | ok value r => rw [ran] at ends; exact ends
  | error _ _ => trivial

def cellsClean (g : Ground) : Turn (List (Option Value)) (List (Option Value)) → Prop
  | .next cells => CellsClear g cells
  | .done cells => CellsClear g cells

def cellsFlaw (g : Ground) : Turn (List (Option Value)) (List (Option Value)) → Parser → Prop
  | .next cells, p => ¬CellsClear g cells ∨ Follows p
  | .done cells, p => ¬CellsClear g cells ∨ Follows p

theorem cellTurn_agrees (cells : List (Option Value)) (p : Parser) (strict : Strict g p)
    (legal : Legal p) (clear : CellsClear g cells) :
    Agreement g DeadToken (cellsClean g) (cellsFlaw g) (cellTurn inner cells p)
      (cellTurn inner cells p.forgiving) := by
  rw [cellTurn, run_get, run_get, forgiving_current]
  split
  · refine strict.advance_then (fun stricter legal => ?_) (fun mode illegal => ?_) ?_
    · refine (parseRowCell_agrees deep stricter legal).bind ?_ ?_ fun _ => marks_pure _
      · intro cell q _ strict' legal' isClear
        exact .same strict' legal' ((cellsClear_append cells cell).mpr ⟨clear, isClear⟩)
      · intro cell q _ mode reason
        refine ⟨mode, reason.imp_right (.imp_left fun unclear all => ?_)⟩
        exact unclear ((cellsClear_append cells cell).mp all).2
    · exact ((parseRowCell_fails mode illegal).bind _).stalled
    · exact marks_bind (parseRowCell_marks deep) fun _ => marks_pure _
  · exact .same strict legal clear

omit deep in
theorem flaw_kind (reason : ¬Legal p ∨ Follows p) :
    p.current.kind = .illegal ∨ p.current.kind = .equals ∨ p.current.kind = .colon ∨
      p.current.kind = .lBrace := reason.imp_left not_not.mp

theorem cellTurn_stalls (cells : List (Option Value)) (p : Parser) (mode : p.tolerant = false)
    (reason : ¬Legal p ∨ ¬CellsClear g cells ∨ Follows p) :
    Stalled (cellsFlaw g) (cellTurn inner cells p) := by
  by_cases unclear : CellsClear g cells
  · have stuck : ¬Legal p ∨ Follows p := reason.imp_right (·.resolve_left (not_not.mpr unclear))
    rw [cellTurn, run_get, if_neg (by rcases flaw_kind stuck with kind | kind | kind | kind <;> simp [kind])]
    exact ⟨mode, reason⟩
  · refine stalled_of mode (cellTurn_stepwise deep.kept cells) ?_
    intro turned q ran
    rw [cellTurn, run_get] at ran
    split at ran
    · obtain ⟨_, _, _, rest⟩ := bind_ok ran
      obtain ⟨cell, _, _, last⟩ := bind_ok rest
      cases last
      exact .inl fun all => unclear ((cellsClear_append cells cell).mp all).1
    · cases ran
      exact .inl unclear

theorem cellTurn_marks (cells : List (Option Value)) :
    Marks DeadToken DeadToken (cellTurn inner cells) := by
  refine marks_of (cellTurn_stepwise deep.kept cells)
    fun q mode dead => ?_
  rw [cellTurn, run_get, if_neg (by rcases dead.kind with kind | kind <;> simp [kind])]
  exact ⟨mode, .inr dead⟩

omit deep in
theorem closeRow_agrees (strict : Strict g p) {cells : List (Option Value)}
    (legal : Legal p) (clear : CellsClear g cells) (pos : Position) (leading : List Comment)
    (expected : Nat) (readPast : Bool) :
    Agreement g DeadToken (fun found => found.1.Clear g) (fun found _ => ¬found.1.Clear g)
      (closeRow pos leading expected readPast cells p)
      (closeRow pos leading expected readPast cells p.forgiving) := by
  rw [closeRow, run_get, run_get, forgiving_current]
  split
  · exact (err_fails _ _ _).agrees trivial
  refine flush_then strict fun inside q strict' same _ => ?_
  by_cases arity : cells.length = expected
  · simp only [arity, ne_eq, not_true_eq_false, if_false]
    cases readPast with
    | true =>
      exact strict'.advance_then (fun stricter legal => .same stricter legal clear)
        (fun mode illegal => ⟨mode, .inl illegal⟩) (marks_pure _)
    | false => exact .same strict' (by rw [Legal, same]; exact legal) clear
  · simp only [arity, ne_eq, not_false_eq_true, if_true]
    cases readPast with
    | true =>
      exact strict'.advance_then (fun _ _ => (err_fails _ _ _).agrees trivial)
        (fun _ _ => (err_fails _ _ _).stalled) fun _ _ => trivial
    | false => exact (err_fails _ _ _).agrees trivial

omit deep in
theorem closeRow_stalls {cells : List (Option Value)} (mode : p.tolerant = false)
    (reason : ¬Legal p ∨ ¬CellsClear g cells ∨ Follows p) (pos : Position)
    (leading : List Comment) (expected : Nat) (readPast : Bool) :
    Stalled (fun found _ => ¬DatasetRow.Clear g found.1)
      (closeRow pos leading expected readPast cells p) := by
  by_cases closing : p.current.kind = .rParen
  · have unclear : ¬CellsClear g cells := by
      rcases reason with illegal | unclear | follows
      · exact absurd (by simp [Legal, closing]) illegal
      · exact unclear
      · simp [Follows, closing] at follows
    refine stalled_of mode (closeRow_stepwise _ _ _ _ _) fun found q ran => ?_
    rw [closeRow, run_get, if_neg (not_not.mpr closing)] at ran
    obtain ⟨_, _, _, rest⟩ := bind_ok ran
    obtain ⟨_, _, _, last⟩ := bind_ok rest
    split at last
    · cases last
    · cases last
      exact unclear
  · rw [closeRow, run_get, if_pos closing]
    exact (err_fails _ _ _).stalled

omit deep in
theorem closeRow_marks (pos : Position) (leading : List Comment) (expected : Nat)
    (readPast : Bool) (cells : List (Option Value)) :
    Marks DeadToken DeadToken (closeRow pos leading expected readPast cells) := by
  refine marks_of (closeRow_stepwise _ _ _ _ _) fun q mode dead => ?_
  rw [closeRow, run_get, if_pos (by rcases dead.kind with kind | kind <;> simp [kind])]
  trivial

theorem parseTableRow_agrees (strict : Strict g p) (expected : Nat) (readPast : Bool) :
    Agreement g DeadToken (fun found => found.1.Clear g) (fun found _ => ¬found.1.Clear g)
      (parseTableRow inner expected readPast p)
      (parseTableRow inner expected readPast p.forgiving) := by
  rw [parseTableRow, run_get, run_get, forgiving_current]
  refine flush_then strict fun leading q strict' _ _ => ?_
  have loops := marks_loop (cellTurn_marks deep)
  refine strict'.advance_then (fun stricter legal => ?_) (fun mode illegal => ?_) ?_
  · refine (parseRowCell_agrees deep stricter legal).bind ?_ ?_ ?_
    · intro first r _ strict'' legal' clear
      have start : CellsClear g [first] := (cellsClear_append [] first).mpr ⟨by simp [CellsClear], clear⟩
      refine (agreement_loop (cellsClean g) (cellsFlaw g) (cellTurn_agrees deep)
        (cellTurn_stalls deep) (cellTurn_marks deep) _ strict'' legal' start).bind ?_ ?_ ?_
      · exact fun cells t _ stricter legal clear => closeRow_agrees stricter legal clear _ _ _ _
      · exact fun cells t _ mode reason => closeRow_stalls mode reason _ _ _ _
      · exact fun cells => closeRow_marks _ _ _ _ _
    · intro first r _ mode reason
      have start : ¬Legal r ∨ ¬CellsClear g [first] ∨ Follows r :=
        reason.imp_right (.imp_left (mt fun all => ((cellsClear_append [] first).mp all).2))
      exact (stalled_loop (cellsFlaw g) (cellTurn_stalls deep) mode start).bind
        fun cells t _ mode reason => closeRow_stalls mode reason _ _ _ _
    · exact fun first => marks_bind (loops _) fun cells => closeRow_marks _ _ _ _ _
  · exact ((parseRowCell_fails mode illegal).bind _).stalled
  · exact marks_bind (parseRowCell_marks deep) fun first =>
      marks_bind (loops _) fun cells => closeRow_marks _ _ _ _ _

def rowsClean (g : Ground) : Turn (List DatasetRow × Nat) (List DatasetRow × Nat) → Prop
  | .next read => ∀ row ∈ read.1, row.Clear g
  | .done read => ∀ row ∈ read.1, row.Clear g

theorem rowTurn_agrees (expected : Nat) (read : List DatasetRow × Nat) (p : Parser)
    (strict : Strict g p) (legal : Legal p) (clear : ∀ row ∈ read.1, row.Clear g) :
    Agreement g DeadToken (rowsClean g) (fun turned _ => ¬rowsClean g turned)
      (rowTurn inner expected read p) (rowTurn inner expected read p.forgiving) := by
  rw [rowTurn, run_get, run_get, forgiving_current]
  split
  · refine (parseTableRow_agrees deep strict expected true).bind ?_ ?_ fun _ => marks_pure _
    · intro found q _ strict' legal' isClear
      refine .same strict' legal' fun row member => ?_
      rcases List.mem_append.mp member with old | new
      · exact clear row old
      · rw [List.mem_singleton.mp new]; exact isClear
    · exact fun found q _ mode reason => ⟨mode, reason.imp_right fun unclear all =>
        unclear (all found.1 (by simp))⟩
  · exact .same strict legal clear

theorem rowTurn_stalls (expected : Nat) (read : List DatasetRow × Nat) (p : Parser)
    (mode : p.tolerant = false) (reason : ¬Legal p ∨ ¬rowsClean g (.next read)) :
    Stalled (fun turned _ => ¬rowsClean g turned) (rowTurn inner expected read p) := by
  by_cases opened : p.current.kind = .lParen
  · have unclear := reason.resolve_left (not_not.mpr (by simp [Legal, opened]))
    refine stalled_of mode (rowTurn_stepwise deep.kept _ _) ?_
    intro turned q ran
    rw [rowTurn, run_get, if_pos opened] at ran
    obtain ⟨found, _, _, last⟩ := bind_ok ran
    cases last
    exact fun all => unclear fun row member => all row (List.mem_append_left _ member)
  · rw [rowTurn, run_get, if_neg opened]
    exact ⟨mode, reason⟩

theorem rowTurn_marks (expected : Nat) (read : List DatasetRow × Nat) :
    Marks DeadToken DeadToken (rowTurn inner expected read) := by
  refine marks_of (rowTurn_stepwise deep.kept _ _) fun q mode dead => ?_
  rw [rowTurn, run_get, if_neg (by rcases dead.kind with kind | kind <;> simp [kind])]
  exact ⟨mode, .inr dead⟩

theorem parseTableRows_agrees (strict : Strict g p) (expected : Nat) :
    Agreement g DeadToken (fun read => ∀ row ∈ read.1, row.Clear g)
      (fun read _ => ¬∀ row ∈ read.1, row.Clear g) (parseTableRows inner expected p)
      (parseTableRows inner expected p.forgiving) := by
  rw [parseTableRows, run_get, run_get, forgiving_current]
  refine strict.advance_then (fun stricter legal => ?_) (fun mode illegal => ?_) ?_
  · exact agreement_loop (rowsClean g) (fun turned _ => ¬rowsClean g turned)
      (rowTurn_agrees deep expected) (rowTurn_stalls deep expected) (rowTurn_marks deep expected)
      _ stricter legal (by simp [rowsClean])
  · exact stalled_loop (fun turned _ => ¬rowsClean g turned) (rowTurn_stalls deep expected)
      mode (.inl illegal)
  · exact marks_loop (rowTurn_marks deep expected) _

omit deep in
theorem columnTurn_agrees (columns : List (Bytes × Position)) (p : Parser) (strict : Strict g p) :
    Plain g (columnTurn columns) p := by
  rw [Plain, columnTurn, run_get, run_get, forgiving_current]
  split
  · exact (err_fails _ _ _).agrees trivial
  refine strict.advance_then (fun stricter legal => ?_) (fun mode illegal => ?_) ?_
  · rw [run_get, run_get, forgiving_current]
    by_cases comma : p.advanced.current.kind = .comma
    · rw [if_pos comma, if_pos comma]
      exact stricter.advance_then (fun strictest legal => .same strictest legal trivial)
        (fun mode illegal => ⟨mode, .inl illegal⟩) (marks_pure _)
    rw [if_neg comma, if_neg comma]
    by_cases closed : p.advanced.current.kind = .rParen
    · rw [if_pos closed, if_pos closed]
      exact .same stricter legal trivial
    · rw [if_neg closed, if_neg closed]
      exact (err_fails _ _ _).agrees trivial
  · rw [run_get, not_not.mp illegal]
    exact (err_fails _ _ _).stalled
  · refine marks_of ?_ fun q mode dead => ?_
    · refine .get fun q => ?_
      split
      · exact .bind (.step .advance) fun _ => .pure _
      split
      · exact .pure _
      · exact .step (.err _ _)
    · rw [run_get]
      rcases dead.kind with kind | kind <;> rw [kind] <;> trivial

omit deep in
theorem columnTurn_stalls (columns : List (Bytes × Position)) (p : Parser)
    (_ : p.tolerant = false) (reason : ¬Legal p ∨ False) :
    Stalled (fun _ _ => False) (columnTurn columns p) := by
  rw [columnTurn, run_get, if_pos (by rw [not_not.mp (reason.resolve_right id)]; simp)]
  exact (err_fails _ _ _).stalled

omit deep in
theorem columnTurn_marks (columns : List (Bytes × Position)) :
    Marks DeadToken DeadToken (columnTurn columns) := by
  refine marks_of (columnTurn_stepwise columns) fun q mode dead => ?_
  rw [columnTurn, run_get, if_pos (by rcases dead.kind with kind | kind <;> simp [kind])]
  trivial

omit deep in
theorem parseColumns_agrees (strict : Strict g p) (legal : Legal p) : Plain g parseColumns p := by
  rw [Plain, parseColumns, run_get, run_get, forgiving_current]
  split
  · exact (err_fails _ _ _).agrees trivial
  refine (agreement_loop (fun _ => True) (fun _ _ => False)
    (fun columns p strict _ _ => columnTurn_agrees columns p strict) columnTurn_stalls
    columnTurn_marks [] strict legal trivial).bind ?_ ?_ ?_
  · intro columns q _ strict' legal' _
    cases columnPathError (columns.map (·.1)) with
    | none => exact .same strict' legal' trivial
    | some found => exact (err_fails _ _ _).agrees trivial
  · intro columns q _ mode reason
    cases columnPathError (columns.map (·.1)) with
    | none => exact ⟨mode, reason⟩
    | some found => exact (err_fails _ _ _).stalled
  · intro columns
    cases columnPathError (columns.map (·.1)) with
    | none => exact marks_pure _
    | some found => exact fun _ _ => trivial

omit deep in
theorem parseColumns_fails (illegal : ¬Legal p) : Fails (parseColumns p) := by
  rw [parseColumns, run_get, if_pos (by rw [not_not.mp illegal]; simp)]
  exact err_fails _ _ _

omit deep in
theorem parseColumns_marks : Marks DeadToken DeadToken parseColumns := by
  refine marks_of (parseColumns_stepwise) fun q mode dead => ?_
  rw [parseColumns, run_get, if_pos (by rcases dead.kind with kind | kind <;> simp [kind])]
  trivial

omit deep in
theorem parseRowType_agrees (strict : Strict g p) (legal : Legal p) : Plain g parseRowType p := by
  rw [Plain, parseRowType, run_get, run_get, forgiving_current]
  split
  · exact strict.advance_then (fun stricter legal => .same stricter legal trivial)
      (fun mode illegal => ⟨mode, .inl illegal⟩) (marks_pure _)
  · exact .same strict legal trivial

omit deep in
theorem parseRowType_marks : Marks DeadToken DeadToken parseRowType := by
  refine marks_of (parseRowType_stepwise) fun q mode dead => ?_
  rw [parseRowType, run_get, if_neg (by rcases dead.kind with kind | kind <;> simp [kind])]
  exact ⟨mode, .inr dead⟩

omit deep in
theorem parseColumnList_agrees (strict : Strict g p) : Plain g parseColumnList p := by
  rw [Plain, parseColumnList, run_get, run_get, forgiving_current]
  split
  · exact (err_fails _ _ _).agrees trivial
  · exact strict.advance_then (fun stricter legal => parseColumns_agrees stricter legal)
      (fun _ illegal => (parseColumns_fails illegal).stalled) parseColumns_marks

omit deep in
theorem parseColumnList_fails (illegal : ¬Legal p) : Fails (parseColumnList p) := by
  rw [parseColumnList, run_get, if_pos (by rw [not_not.mp illegal]; simp)]
  exact err_fails _ _ _

omit deep in
theorem parseColumnList_marks : Marks DeadToken DeadToken parseColumnList := by
  refine marks_of (parseColumnList_stepwise) fun q mode dead => ?_
  rw [parseColumnList, run_get, if_pos (by rcases dead.kind with kind | kind <;> simp [kind])]
  trivial

omit deep in
theorem parseTableHeader_agrees (strict : Strict g p) (legal : Legal p) :
    Plain g parseTableHeader p := by
  refine (parseRowType_agrees strict legal).bind ?_ ?_ ?_
  · intro type q _ strict' _ _
    exact (parseColumnList_agrees strict').bind
      (fun columns r _ stricter legal' _ => .same stricter legal' trivial)
      (fun columns r _ mode reason => ⟨mode, reason⟩) fun _ => marks_pure _
  · exact fun type q _ _ reason =>
      ((parseColumnList_fails (reason.resolve_right id)).bind _).stalled
  · exact fun type => marks_bind parseColumnList_marks fun _ => marks_pure _

omit deep in
theorem parseTableHeader_fails (illegal : ¬Legal p) : Fails (parseTableHeader p) := by
  have noType : parseRowType p = .ok [] p := by
    rw [parseRowType, run_get, if_neg (by rw [not_not.mp illegal]; simp)]
    rfl
  rw [parseTableHeader, run_bind_ok noType]
  exact (parseColumnList_fails illegal).bind _

omit deep in
theorem parseTableHeader_marks : Marks DeadToken DeadToken parseTableHeader :=
  marks_bind parseRowType_marks fun _ =>
    marks_bind parseColumnList_marks fun _ => marks_pure _

theorem parseTableDirective_agrees (strict : Strict g p) :
    Agreement g DeadToken (fun found => found.1.Clear g) (fun found _ => ¬found.1.Clear g)
      (parseTableDirective inner p) (parseTableDirective inner p.forgiving) := by
  refine flush_then strict fun leading q strict' _ _ => ?_
  rw [run_get, run_get, forgiving_current]
  have rows (header : Bytes × List Bytes) : Stepwise (do
      let read ← parseTableRows inner header.2.length
      pure ((⟨q.current.pos, header.1, header.2, read.1, leading⟩, read.2) :
        DatasetDirective × Nat) : ParserM _) :=
    .bind (parseTableRows_stepwise deep.kept _)
      fun _ => .pure _
  refine strict'.advance_then (fun stricter legal => ?_) (fun mode illegal => ?_) ?_
  · -- The header ends on its `)`, so a tolerant parser that is marked there has recorded an error.
    have header : Agreement g (fun _ => False) _ _ _ _ :=
      (parseTableHeader_agrees stricter legal).narrow fun header r ran dead => by rcases dead.kind with kind | kind <;> simp [parseTableHeader_closes ran] at kind
    refine header.bind ?_ ?_ ?_
    · intro header r _ strict'' _ _
      exact (parseTableRows_agrees deep strict'' _).bind
        (fun read t _ strictest legal' clear => .same strictest legal' clear)
        (fun read t _ mode reason => ⟨mode, reason⟩) fun _ => marks_pure _
    · intro header r ran mode reason
      exact absurd (by simp [Legal, parseTableHeader_closes ran]) (reason.resolve_right id)
    · exact fun header q marked => Stepwise.ends (rows header) ⟨marked.1, marked.2.resolve_right id⟩
  · exact ((parseTableHeader_fails illegal).bind _).stalled
  · intro r marked
    have header : Ends (fun _ => False) _ := (parseTableHeader_marks r marked).narrow
      fun header q ran dead => by
        rcases dead.kind with kind | kind <;> simp [parseTableHeader_closes ran] at kind
    exact ends_bind header fun header q marked =>
      Stepwise.ends (rows header) ⟨marked.1, marked.2.resolve_right id⟩

end

theorem forgiving_repositionTo (l : Lexer) (target : Nat) :
    l.forgiving.repositionTo target = (l.repositionTo target).forgiving := by
  by_cases back : target < l.pos
  · rw [Lexer.repositionTo, Lexer.repositionTo, if_pos back, if_pos (show target < l.forgiving.pos from back)]
    rfl
  · rw [Lexer.repositionTo, Lexer.repositionTo, if_neg back, if_neg (show ¬target < l.forgiving.pos from back)]
    rfl

theorem Aligned.reposition (aligned : Aligned g p) (target : Nat) :
    Aligned g { p with lex := p.lex.repositionTo target } := by
  refine ⟨?_, ?_⟩
  · rw [aligned.frame]
  · have moved := repositionTo_movedTo p.lex target
    rw [aligned.lex] at moved ⊢
    exact lexer_movedTo moved

theorem captureBraceBody_agrees (strict : Strict g p) (label : Bytes) :
    Plain g (captureBraceBody label) p := by
  have forgiven (target : Nat) : { p.forgiving with lex := p.forgiving.lex.repositionTo target } =
      Parser.forgiving { p with lex := p.lex.repositionTo target } := by
    simp only [Parser.forgiving, forgiving_repositionTo]
  rw [Plain, captureBraceBody, run_get, run_get, forgiving_current, forgiving_input]
  cases findMatchingBrace p.lex.input p.current.pos.offset with
  | none => exact (err_fails _ _ _).agrees trivial
  | some close =>
    have moved : Plain g (do advance; pure (betweenBraces p.lex.input p.current.pos.offset close,
        close + 1)) _ := (strict.toAligned.reposition (close + 1)).advance_then (fun stricter legal => .same stricter legal trivial)
      (fun mode illegal => ⟨mode, .inl illegal⟩) (marks_pure _)
    rw [Plain, ← forgiven] at moved
    exact moved

theorem base64DecodeLenient_of_proto {s decoded : Bytes} (read : base64DecodeProto s = .ok decoded) :
    (base64DecodeLenient s).toOption ≠ none := by
  rw [base64DecodeProto] at read
  rw [base64DecodeLenient]
  cases first : decodeGo false true s with
  | ok _ => simp [Except.toOption]
  | error _ =>
    rw [first] at read
    simp only [List.findSome?, read]
    cases decodeGo false false s <;> simp [Except.toOption]

theorem parseProtoNamed_agrees (strict : Strict g p) (pos : Position) (leading : List Comment)
    (name : Bytes) : Plain g (parseProtoNamed pos leading name) p := by
  rw [Plain, parseProtoNamed, run_get, run_get, forgiving_current]
  split
  · exact (err_fails _ _ _).agrees trivial
  · exact (captureBraceBody_agrees strict _).bind
      (fun _ _ _ stricter legal _ => .same stricter legal trivial)
      (fun _ _ _ mode reason => ⟨mode, reason⟩) fun _ => marks_pure _

theorem parseProtoNamed_marks (pos : Position) (leading : List Comment) (name : Bytes) :
    Marks DeadToken DeadToken (parseProtoNamed pos leading name) := by
  refine marks_of (parseProtoNamed_stepwise _ _ _) fun q mode dead => ?_
  rw [parseProtoNamed, run_get, if_pos (by rcases dead.kind with kind | kind <;> simp [kind])]
  trivial

theorem parseProtoBody_agrees (strict : Strict g p) (pos : Position) (leading : List Comment) :
    Plain g (parseProtoBody pos leading) p := by
  rw [Plain, parseProtoBody, run_get, run_get, forgiving_current]
  cases p.current.kind
  case lBrace =>
    exact (captureBraceBody_agrees strict _).bind
      (fun _ _ _ stricter legal _ => .same stricter legal trivial)
      (fun _ _ _ mode reason => ⟨mode, reason⟩) fun _ => marks_pure _
  case ident =>
    refine strict.advance_then (fun stricter _ => parseProtoNamed_agrees stricter _ _ _)
      (fun mode illegal => ?_) (parseProtoNamed_marks _ _ _)
    rw [parseProtoNamed, run_get, if_pos (by rw [not_not.mp illegal]; simp)]
    exact (err_fails _ _ _).stalled
  case string =>
    exact strict.advance_then (fun stricter legal => .same stricter legal trivial)
      (fun mode illegal => ⟨mode, .inl illegal⟩) (marks_pure _)
  case bytes =>
    cases base64DecodeProto p.current.value with
    | error _ => exact (err_fails _ _ _).agrees trivial
    | ok decoded =>
      exact strict.advance_then (fun stricter legal => .same stricter legal trivial)
        (fun mode illegal => ⟨mode, .inl illegal⟩) (marks_pure _)
  all_goals exact (err_fails _ _ _).agrees trivial

theorem parseProtoBody_marks (pos : Position) (leading : List Comment) :
    Marks DeadToken DeadToken (parseProtoBody pos leading) := by
  refine marks_of (parseProtoBody_stepwise _ _) fun q mode dead => ?_
  rw [parseProtoBody, run_get]
  rcases dead with illegal | ⟨bytes, undecodable⟩
  · rw [illegal]; trivial
  · rw [bytes]
    cases decoded : base64DecodeProto q.current.value with
    | error _ => trivial
    | ok _ => exact absurd undecodable (base64DecodeLenient_of_proto decoded)

theorem parseProtoDirective_agrees (strict : Strict g p) : Plain g parseProtoDirective p := by
  refine flush_then strict fun leading q strict' _ _ => ?_
  rw [run_get, run_get, forgiving_current]
  refine strict'.advance_then (fun stricter _ => parseProtoBody_agrees stricter _ _)
    (fun mode illegal => ?_) (parseProtoBody_marks _ _)
  rw [parseProtoBody, run_get, not_not.mp illegal]
  exact (err_fails _ _ _).stalled

def HeadFlaw (g : Ground) (doc : Document) (p : Parser) : Prop := ¬doc.HeadClear g ∨ Follows p

theorem recovering_agrees {α : Type} {directive : ParserM α} {clean : α → Prop}
    {flaw : α → Parser → Prop}
    (agrees : Agreement g DeadToken clean flaw (directive p) (directive p.forgiving))
    (mode : p.tolerant = false)
    (same : Stepwise directive) (keep : α → Document)
    (skip : Document) (cleans : ∀ found, clean found → (keep found).HeadClear g)
    (flaws : ∀ found q, flaw found q → HeadFlaw g (keep found) q) :
    Agreement g DeadInside (Document.HeadClear g) (HeadFlaw g) (recovering directive keep skip p)
      (recovering directive keep skip p.forgiving) := by
  refine agrees.attempt ?_ ?_ ?_ ?_ ?_
  · exact fun found q strict legal isClean => .same strict legal (cleans found isClean)
  · exact fun found q mode reason => ⟨mode, reason.imp_right (flaws found q)⟩
  · exact fun found q marked => Marked.mono (fun _ => .inl) marked
  · intro failure q ran
    have kept := same.keeps mode_order p
    rw [ran] at kept
    change Fails (recover failure skip q)
    rw [recover, run_get, if_pos (by simp [show q.tolerant = false from kept.trans mode])]
    exact ⟨_, _, rfl⟩
  · intro failure q ran
    have kept := same.keeps mode_order p.forgiving
    rw [ran] at kept
    change Ends DeadInside (recover failure skip q)
    rw [recover, run_get, if_neg (by simp [show q.tolerant = true from kept])]
    exact ends_report (fun _ => .bind (syncTopLevel_stepwise) fun _ => .pure _) kept _ _

theorem noTypeName_ends (doc : Document) (mode : q.tolerant = true) (pos : Position) (msg : Bytes) :
    Ends DeadInside ((do soft pos msg; syncTopLevel; pure doc : ParserM Document) q) :=
  ends_soft (fun _ => .bind (syncTopLevel_stepwise) fun _ => .pure _) mode _ _

theorem parseTypeName_agrees (strict : Strict g p) (clear : doc.HeadClear g) :
    Agreement g DeadInside (Document.HeadClear g) (HeadFlaw g) (parseTypeName doc p)
      (parseTypeName doc p.forgiving) := by
  rw [parseTypeName, run_get, run_get, forgiving_current, strict.forgiving_startsEntry]
  by_cases named : p.current.kind = .ident
  · rw [if_neg (by simp [named, strict.mode])]
    by_cases starts : p.currentStartsEntry = true
    · -- The strict parser takes the body's first key for the type's name, and then refuses
      -- what follows the key.
      rw [if_pos (by simp [starts])]
      refine .of_stalled ⟨strict.advanced.mode, .inr (.inr ?_)⟩ (noTypeName_ends doc rfl _ _)
      simp only [Parser.currentStartsEntry, Bool.and_eq_true, Bool.or_eq_true,
        decide_eq_true_eq] at starts
      exact or_assoc.mp starts.2
    · rw [if_neg (by simp [named, starts])]
      exact strict.advance_then (fun stricter legal => .same stricter legal clear)
        (fun mode illegal => ⟨mode, .inl illegal⟩) fun q marked => Marked.mono (fun _ => .inl) marked
  · rw [if_pos (by simp [named]), if_pos (by simp [named])]
    exact ((soft_fails strict.mode _ _).bind _).agrees (noTypeName_ends doc rfl _ _)

theorem parseTypeDirective_agrees (strict : Strict g p) (clear : doc.HeadClear g) :
    Agreement g DeadInside (Document.HeadClear g) (HeadFlaw g) (parseTypeDirective doc p)
      (parseTypeDirective doc p.forgiving) := by
  refine strict.advance_then (fun stricter _ => parseTypeName_agrees stricter clear)
    (fun mode illegal => ?_) (marks_of (parseTypeName_stepwise doc) fun q mode dead => ?_)
  · rw [parseTypeName, run_get, if_pos (by rw [not_not.mp illegal]; simp)]
    exact ((soft_fails mode _ _).bind _).stalled
  · rw [parseTypeName, run_get, if_pos (by rcases dead.kind with kind | kind <;> simp [kind])]
    exact noTypeName_ends doc mode _ _

def headClean (g : Ground) : Turn Document Document → Prop
  | .next doc => doc.HeadClear g
  | .done doc => doc.HeadClear g

def headFlaw (g : Ground) : Turn Document Document → Parser → Prop
  | .next doc, p => HeadFlaw g doc p
  | .done doc, p => HeadFlaw g doc p

theorem headClear_directive (clear : doc.HeadClear g) (d : Directive) (bodyOffset : Nat) :
    Document.HeadClear g { doc with directives := doc.directives ++ [d], bodyOffset } ↔ d.Clear g := by
  refine ⟨fun all => all.1 d (by simp), fun isClear => ⟨fun d' member => ?_, clear.2⟩⟩
  rcases List.mem_append.mp member with old | new
  · exact clear.1 d' old
  · rw [List.mem_singleton.mp new]; exact isClear

theorem headClear_dataset (clear : doc.HeadClear g) (dataset : DatasetDirective) (bodyOffset : Nat) :
    Document.HeadClear g { doc with datasets := doc.datasets ++ [dataset], bodyOffset } ↔
      dataset.Clear g := by
  refine ⟨fun all => all.2 dataset (by simp), fun isClear => ⟨clear.1, fun other member => ?_⟩⟩
  rcases List.mem_append.mp member with old | new
  · exact clear.2 other old
  · rw [List.mem_singleton.mp new]; exact isClear

theorem directiveTurn_agrees (doc : Document) (p : Parser) (strict : Strict g p) (legal : Legal p)
    (clear : doc.HeadClear g) :
    Agreement g DeadInside (headClean g) (headFlaw g) (directiveTurn (parseNested g.depth) doc p)
      (directiveTurn (parseNested g.depth) doc p.forgiving) := by
  have deep := parseNested_agrees g g.depth
  have kept := deep.kept
  have next {program : ParserM Document}
      (agrees : Agreement g DeadInside (Document.HeadClear g) (HeadFlaw g) (program p)
        (program p.forgiving)) :
      Agreement g DeadInside (headClean g) (headFlaw g) ((.next <$> program) p)
        ((.next <$> program) p.forgiving) := agrees.map _ (fun _ => id) fun _ _ => id
  rw [directiveTurn, run_get, run_get, forgiving_current]
  cases p.current.kind
  case atType => exact next (parseTypeDirective_agrees strict clear)
  case atDirective =>
    refine next (recovering_agrees (parseDirective_agrees strict) strict.mode
      (parseDirective_stepwise kept) _ _ ?_ ?_)
    · exact fun found => (headClear_directive clear found.1 found.2).mpr
    · exact fun found q => .imp_left (mt (headClear_directive clear found.1 found.2).mp)
  case atDataset =>
    refine next (recovering_agrees (parseTableDirective_agrees deep strict) strict.mode
      (parseTableDirective_stepwise kept) _ _ ?_ ?_)
    · exact fun found => (headClear_dataset clear found.1 found.2).mpr
    · exact fun found q unclear => .inl (mt (headClear_dataset clear found.1 found.2).mp unclear)
  case atProto =>
    exact next (recovering_agrees (parseProtoDirective_agrees strict) strict.mode
      (parseProtoDirective_stepwise) _ _ (fun _ _ => clear)
      fun _ _ => False.elim)
  all_goals exact .same strict legal clear

theorem headClear_of_grown {grown : Document} (directives : doc.directives ⊆ grown.directives)
    (datasets : doc.datasets ⊆ grown.datasets) (clear : grown.HeadClear g) : doc.HeadClear g :=
  ⟨fun d member => clear.1 d (directives member), fun d member => clear.2 d (datasets member)⟩

theorem recovering_ok {α : Type} {directive : ParserM α} {keep : α → Document} {skip : Document}
    (ran : recovering directive keep skip p = .ok doc q) :
    doc = skip ∨ ∃ found r, directive p = .ok found r ∧ doc = keep found := by
  rw [recovering, run_attempt] at ran
  cases first : directive p with
  | ok found r =>
    rw [first] at ran
    cases ran
    exact .inr ⟨found, _, rfl, rfl⟩
  | error failure r =>
    rw [first] at ran
    change recover failure skip r = _ at ran
    rw [recover, run_get] at ran
    split at ran
    · cases ran
    · obtain ⟨_, _, _, rest⟩ := bind_ok ran
      obtain ⟨_, _, _, last⟩ := bind_ok rest
      cases last
      exact .inl rfl

theorem parseTypeDirective_ok (ran : parseTypeDirective doc p = .ok found q) :
    found.directives = doc.directives ∧ found.datasets = doc.datasets := by
  obtain ⟨_, r, _, named⟩ := bind_ok ran
  rw [parseTypeName, run_get] at named
  split at named
  · obtain ⟨_, _, _, rest⟩ := bind_ok named
    obtain ⟨_, _, _, last⟩ := bind_ok rest
    cases last
    exact ⟨rfl, rfl⟩
  · obtain ⟨_, _, _, last⟩ := bind_ok named
    cases last
    exact ⟨rfl, rfl⟩

theorem directiveTurn_grows {turned : Turn Document Document}
    (ran : directiveTurn inner doc p = .ok turned q) :
    ∃ grown, (turned = .next grown ∨ turned = .done grown) ∧
      doc.directives ⊆ grown.directives ∧ doc.datasets ⊆ grown.datasets := by
  rw [directiveTurn, run_get] at ran
  cases kind : p.current.kind
  case atType =>
    rw [kind] at ran
    obtain ⟨grown, found, rfl⟩ := map_ok ran
    obtain ⟨directives, datasets⟩ := parseTypeDirective_ok found
    exact ⟨grown, .inl rfl, by rw [directives]; simp, by rw [datasets]; simp⟩
  case atDirective | atDataset | atProto =>
    rw [kind] at ran
    obtain ⟨grown, found, rfl⟩ := map_ok ran
    refine ⟨grown, .inl rfl, ?_⟩
    obtain rfl | ⟨_, _, _, rfl⟩ := recovering_ok found <;> simp
  all_goals
    rw [kind] at ran
    cases ran
    exact ⟨doc, .inr rfl, by simp, by simp⟩

theorem directiveTurn_stalls (doc : Document) (p : Parser) (mode : p.tolerant = false)
    (reason : ¬Legal p ∨ HeadFlaw g doc p) :
    Stalled (headFlaw g) (directiveTurn (parseNested g.depth) doc p) := by
  have kept := parseNested_stepwise g.depth
  by_cases clear : doc.HeadClear g
  · have stuck : ¬Legal p ∨ Follows p := reason.imp_right (·.resolve_left (not_not.mpr clear))
    have done : directiveTurn (parseNested g.depth) doc p = .ok (.done doc) p := by
      rcases flaw_kind stuck with kind | kind | kind | kind <;>
        rw [directiveTurn, run_get, kind] <;> rfl
    rw [done]
    exact ⟨mode, reason⟩
  · refine stalled_of mode (directiveTurn_stepwise kept doc) ?_
    intro turned q ran
    obtain ⟨grown, rfl | rfl, directives, datasets⟩ := directiveTurn_grows ran
    all_goals exact .inl fun all => clear (headClear_of_grown directives datasets all)

theorem directiveTurn_marks (kept : NestedStepwise inner) (doc : Document) :
    Marks DeadInside DeadInside (directiveTurn inner doc) := by
  refine marks_of (directiveTurn_stepwise kept doc) fun q mode dead => ?_
  have done : directiveTurn inner doc q = .ok (.done doc) q := by
    rcases deadInside_kind dead with kind | kind | kind <;>
      rw [directiveTurn, run_get, kind] <;> rfl
  rw [done]
  exact ⟨mode, .inr dead⟩

theorem softWhen_agrees {clean : Unit → Prop} {flaw : Unit → Parser → Prop} {dead : Token → Prop}
    (strict : Strict g p) (legal : Legal p) (isClean : clean ()) (condition : Bool) (pos : Position)
    (msg : Bytes) : Agreement g dead clean flaw (softWhen condition pos msg p)
      (softWhen condition pos msg p.forgiving) := by
  cases condition with
  | true =>
    rw [softWhen, if_pos rfl, soft_tolerant (forgiving_tolerant p)]
    exact (soft_fails strict.mode pos msg).agrees ⟨rfl, .inl (by simp)⟩
  | false => exact .same strict legal isClean

theorem checkStandalone_agrees (strict : Strict g p) (legal : Legal p) (doc : Document) :
    Agreement g DeadInside (fun _ => True) (fun _ _ => False) (checkStandalone doc p)
      (checkStandalone doc p.forgiving) := by
  unfold checkStandalone
  cases doc.datasets with
  | nil => exact .same strict legal trivial
  | cons first rest =>
    refine softWhen_then strict _ _ _ (.get fun _ => softWhen_stepwise _ _ _) ?_
    rw [run_get, run_get, forgiving_current]
    exact softWhen_agrees strict legal trivial _ _ _

theorem checkStandalone_marks (doc : Document) : Marks DeadInside DeadInside (checkStandalone doc) := by
  have checks (condition : Bool) (pos : Position) (msg : Bytes) :
      Marks DeadInside DeadInside (softWhen condition pos msg) := by
    intro q marked
    cases condition with
    | true =>
      rw [softWhen, if_pos rfl, soft_tolerant marked.1]
      exact ⟨marked.1, .inl (by simp)⟩
    | false => exact marked
  unfold checkStandalone
  cases doc.datasets with
  | nil => exact marks_pure _
  | cons first rest =>
    exact marks_bind (checks _ _ _) fun _ => marks_get fun q marked => checks _ _ _ q marked

section

variable {inner : Option Nested} (deep : DeepAgrees g inner)

include deep

theorem entryTurn_stalls (entries : List Entry) (p : Parser) (mode : p.tolerant = false)
    (reason : ¬Legal p ∨ ¬EntriesClear g entries ∨ Follows p) :
    Stalled (entriesFlaw g) (entryTurn inner entries p) := by
  rw [entryTurn, run_get]
  split
  · rename_i ended
    exact ⟨mode, .inr (unclear_of_flaw (.inr ended) reason)⟩
  · exact nextEntry_stalls mode (parseEntry_stepwise deep.kept _)
      (fun noKey _ => parseEntry_fails mode inner false noKey) reason

theorem entryTurn_agrees (entries : List Entry) (p : Parser) (strict : Strict g p) (legal : Legal p)
    (clear : EntriesClear g entries) :
    Agreement g DeadInside (entriesClean g) (entriesFlaw g) (entryTurn inner entries p)
      (entryTurn inner entries p.forgiving) := by
  rw [entryTurn, run_get, run_get, forgiving_current]
  split
  · exact .same strict legal clear
  · exact (nextEntry_agrees clear (parseEntry_agrees deep strict _)).mono fun _ => .inl

theorem parseEntries_agrees (strict : Strict g p) (legal : Legal p) (clear : doc.HeadClear g) :
    Agreement g DeadInside (Document.Clear g) (fun doc _ => ¬doc.Clear g)
      (parseEntries inner doc p) (parseEntries inner doc p.forgiving) := by
  have turns := entryTurn_marks deep.kept
  have closes (entries : List Entry) : Marks DeadInside DeadInside (do
      let trailingComments ← flushComments
      pure { doc with entries, trailingComments } : ParserM Document) :=
    marks_bind flushComments_marks fun _ => marks_pure _
  refine (checkStandalone_agrees strict legal doc).bind ?_ ?_ ?_
  · intro _ q _ strict' legal' _
    refine (agreement_loop (entriesClean g) (entriesFlaw g) (entryTurn_agrees deep)
      (entryTurn_stalls deep) turns [] strict' legal'
      (by simp [entriesClean, EntriesClear])).bind ?_ ?_ closes
    · exact fun entries r _ stricter legal isClear =>
        .same (stricter.comments []) legal ⟨clear, isClear⟩
    · exact fun entries r _ mode reason => ⟨mode, reason.imp_right fun unclear all => unclear all.2⟩
  · intro _ q ran mode reason
    have illegal := reason.resolve_right id
    refine ((Fails.loop ?_).bind _).stalled
    rw [entryTurn, run_get, if_neg (by rw [not_not.mp illegal]; simp)]
    exact (parseEntry_fails mode inner false (illegal_startsKey illegal)).bind _
  · exact fun _ => marks_bind (marks_loop turns []) closes

theorem parseEntries_stalls (mode : p.tolerant = false) (reason : ¬Legal p ∨ HeadFlaw g doc p) :
    Stalled (fun doc _ => ¬Document.Clear g doc) (parseEntries inner doc p) := by
  by_cases clear : doc.HeadClear g
  · have stuck : ¬Legal p ∨ Follows p := reason.imp_right (·.resolve_left (not_not.mpr clear))
    have noKey : p.current.kind.startsKey = false := stuck.elim illegal_startsKey Follows.startsKey
    rcases checkStandalone_strict mode doc with fails | same
    · exact (fails.bind _).stalled
    · rw [parseEntries, run_bind_ok same]
      refine ((Fails.loop ?_).bind _).stalled
      rw [entryTurn, run_get, if_neg (by rcases flaw_kind stuck with kind | kind | kind | kind <;> simp [kind])]
      exact (parseEntry_fails mode inner false noKey).bind _
  · refine stalled_of mode ?_ fun found q ran => ?_
    · exact .bind (checkStandalone_stepwise doc) fun _ => .bind (.loop
          (entryTurn_stepwise deep.kept) []) fun _ =>
          .bind (.step .flushComments) fun _ => .pure _
    · obtain ⟨_, _, _, looped⟩ := bind_ok ran
      obtain ⟨entries, _, _, flushed⟩ := bind_ok looped
      obtain ⟨trailing, _, _, last⟩ := bind_ok flushed
      cases last
      exact fun all => clear all.1

end

theorem parseEntries_ends (ran : parseEntries inner doc p = .ok found q) :
    q.current.kind = .eof := by
  obtain ⟨_, _, _, looped⟩ := bind_ok ran
  obtain ⟨entries, r, loop, flushed⟩ := bind_ok looped
  obtain ⟨trailing, t, flush, last⟩ := bind_ok flushed
  cases flush
  cases last
  refine repeatWhile_done (fun _ q => q.current.kind = .eof) ?_ loop
  intro entries p entries' r turned
  rw [entryTurn, run_get] at turned
  split at turned
  · rename_i ended
    cases turned
    exact ended
  · obtain ⟨_, _, _, going⟩ := bind_ok turned
    cases going

theorem parseDocument_ends (ran : parseDocument p = .ok found q) : q.current.kind = .eof := by
  obtain ⟨_, _, _, started⟩ := bind_ok ran
  rw [run_get] at started
  obtain ⟨doc, _, _, entries⟩ := bind_ok started
  exact parseEntries_ends entries

theorem parseEntries_marks (kept : NestedStepwise inner) (doc : Document) :
    Marks DeadInside DeadInside (parseEntries inner doc) :=
  marks_bind (checkStandalone_marks doc) fun _ =>
    marks_bind (marks_loop (entryTurn_marks kept) []) fun _ =>
      marks_bind flushComments_marks fun _ => marks_pure _

theorem parseDocument_agrees (strict : Strict g p) (legal : Legal p) :
    Agreement g DeadInside (Document.Clear g) (fun doc _ => ¬doc.Clear g) (parseDocument p)
      (parseDocument p.forgiving) := by
  have deep := parseNested_agrees g g.depth
  have kept := deep.kept
  refine flush_then strict fun leading q strict' same _ => ?_
  rw [run_get, run_get, forgiving_maxDepth, strict'.depth]
  refine (agreement_loop (headClean g) (headFlaw g) directiveTurn_agrees
    directiveTurn_stalls (directiveTurn_marks kept) _ strict' (by rw [Legal, same]; exact legal)
    (by simp [headClean, Document.HeadClear])).bind ?_ ?_ (parseEntries_marks kept)
  · exact fun doc r _ stricter legal clear => parseEntries_agrees deep stricter legal clear
  · exact fun doc r _ mode reason => parseEntries_stalls deep mode reason

theorem parseDocument_stalls (strict : Strict g p) (illegal : ¬Legal p) :
    Stalled (fun doc _ => ¬Document.Clear g doc) (parseDocument p) := by
  have flushed : flushComments p = .ok p.comments { p with comments := [] } := rfl
  rw [parseDocument, run_bind_ok flushed, run_get, strict.depth]
  refine Stalled.bind (stalled_loop (headFlaw g) directiveTurn_stalls
    (p := { p with comments := [], maxDepth := g.depth }) strict.mode (.inl illegal)) ?_
  exact fun doc q _ mode reason => parseEntries_stalls (parseNested_agrees g g.depth) mode reason

theorem parseDocument_marks : Marks DeadInside DeadInside parseDocument :=
  marks_bind flushComments_marks fun _ => marks_get fun q marked =>
    have kept := parseNested_stepwise q.maxDepth
    marks_bind (marks_loop (directiveTurn_marks kept) _) (parseEntries_marks kept) q marked

end

def Ground.of (input : Bytes) (opts : ParseOptions) : Ground where
  input := input
  limit := selected opts.maxBytesLiteralLength maxBytesLiteralLength
  depth := selected opts.maxNestingDepth maxNestingDepth

def Ground.unread (g : Ground) : Parser := { lex := g.lexer {}, maxDepth := g.depth }

theorem Ground.unread_aligned (g : Ground) : Aligned g g.unread := ⟨rfl, rfl⟩

theorem takeErrors_ne_nil {errs : List Error} (found : errs ≠ []) : takeErrors errs ≠ [] := by
  intro none
  have length := List.length_insertionSort (fun a b : Error => a.pos.offset ≤ b.pos.offset) errs
  rw [takeErrors] at none
  rw [none] at length
  exact found (List.length_eq_zero_iff.mp length.symm)

theorem start_agrees (g : Ground) :
    Agreement g DeadInside (Document.Clear g) (fun doc _ => ¬doc.Clear g)
      (parseDocument g.unread.advanced) (parseDocument g.unread.forgiving.advanced) :=
  g.unread_aligned.advance_then
    (fun strict legal => parseDocument_agrees strict legal)
    (fun _ illegal => parseDocument_stalls g.unread_aligned.advanced illegal)
    fun q marked => parseDocument_marks q (marked.mono fun _ => .inl)

theorem errors_of_ends {p : Parser} (ends : Ends DeadInside (parseDocument p)) :
    (tolerantResult (parseDocument p)).errors ≠ [] := by
  cases ran : parseDocument p with
  | error failure q => exact takeErrors_ne_nil (by simp)
  | ok doc q =>
    rw [ran] at ends
    refine takeErrors_ne_nil (ends.2.resolve_right fun dead => ?_)
    rcases deadInside_kind dead with kind | kind | kind <;>
      simp [parseDocument_ends ran] at kind

/-- Where a parse succeeds, a tolerant one gives the same document and no errors exactly when no
list has an element that could be a key with a brace right after it. Where a parse fails, a
tolerant one returns an error. -/
theorem parseTolerant_agrees_iff (input : Bytes) (opts : ParseOptions) :
    (∀ doc, parse input opts = .ok doc →
      (parseTolerant input opts = ⟨doc, []⟩ ↔ doc.Clear (Ground.of input opts))) ∧
    ∀ failure, parse input opts = .error failure → (parseTolerant input opts).errors ≠ [] := by
  by_cases fits : selected opts.maxMessageSize maxMessageSize < input.length
  · rw [parse, if_pos fits, parseTolerant, if_pos fits]
    exact ⟨by rintro doc ⟨⟩, by simp⟩
  rw [parse, if_neg fits, parseTolerant, if_neg fits]
  change (∀ doc, strictResult (parseDocument (Ground.of input opts).unread.advanced) = .ok doc →
      (tolerantResult (parseDocument (Ground.of input opts).unread.forgiving.advanced) = ⟨doc, []⟩ ↔
        doc.Clear (Ground.of input opts))) ∧
    ∀ failure, strictResult (parseDocument (Ground.of input opts).unread.advanced) = .error failure →
      (tolerantResult (parseDocument (Ground.of input opts).unread.forgiving.advanced)).errors ≠ []
  have agrees := start_agrees (Ground.of input opts)
  have errors := errors_of_ends (p := (Ground.of input opts).unread.forgiving.advanced)
  generalize ran : parseDocument (Ground.of input opts).unread.advanced = run at agrees ⊢
  generalize parseDocument (Ground.of input opts).unread.forgiving.advanced = other at agrees errors ⊢
  cases agrees with
  | same strict legal clear =>
    refine ⟨?_, by rintro _ ⟨⟩⟩
    rintro doc ⟨⟩
    have silent : (Parser.forgiving _).errs = [] := strict.silent
    exact iff_of_true (by rw [tolerantResult, silent]; rfl) clear
  | flawed mode reason ends =>
    refine ⟨?_, by rintro _ ⟨⟩⟩
    rintro doc ⟨⟩
    have unclear := reason.resolve_left (not_not.mpr (by simp [Legal, parseDocument_ends ran]))
    exact iff_of_false (fun same => errors ends (by rw [same])) unclear
  | failed ends => exact ⟨by rintro doc ⟨⟩, fun _ _ => errors ends⟩

/-- An identifier in a list is taken for the key of the block after it: `Parse` accepts the
document, `ParseTolerant` reports three errors. -/
theorem parseTolerant_list_key : (parse (text "x = [a \x7b\x7d]") {}).toOption.isSome = true ∧
      (parseTolerant (text "x = [a \x7b\x7d]") {}).errors.length = 3 := by
  decide

end Protowire.Pxf
