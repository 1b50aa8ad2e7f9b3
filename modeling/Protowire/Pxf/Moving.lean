import Protowire.Detail.Bytes
import Protowire.Pxf.Rewriter

/-!
Moving an element before the one after it. What goes along with an element depends on the lines it
stands on; `Layout` tells that from the text alone, and the source comes back just when the text
that is moved and the text it passes over can change places.
-/

namespace Protowire.Pxf

open Support

variable {s : Source} {fieldPath key : Bytes} {edits : List SpanEdit}

namespace Source

/-! ### Lines -/

def LineStart (front : Bytes) : Prop := front = [] ∨ front.getLast? = some 0x0A

/-- Nothing, or what starts with the end of a line. -/
def Breaks (tail : Bytes) : Prop := tail = [] ∨ ∃ more, tail = 0x0A :: more

/-- Lines that hold a comment and nothing before it. -/
inductive CommentLines : Bytes → Prop
  | none : CommentLines []
  | line {above body : Bytes} (lines : CommentLines above) (one : 0x0A ∉ body)
      (comment : opensLineComment (trimLeft body) = true) : CommentLines (above ++ body ++ [0x0A])

/-- Text up to the start of a line, with no comment on the line above. -/
inductive PlainAbove : Bytes → Prop
  | start : PlainAbove []
  | line {above body : Bytes} (starts : LineStart above) (one : 0x0A ∉ body)
      (plain : opensLineComment (trimLeft body) = false) : PlainAbove (above ++ body ++ [0x0A])

def restOfLine (t : Bytes) : Bytes := t.takeWhile (· ≠ 0x0A)

/-- What may stand behind an element that has its lines to itself: padding, and then nothing, a
comment up to the end of the line, or one that is closed with only padding behind it. -/
def trailsOff (line : Bytes) : Bool :=
  let more := line.dropWhile isPad
  more.isEmpty || opensLineComment more || opensWith (text "/*") more &&
    match indexOf (text "*/") more with
    | some n => isBlankPad (more.drop (n + 2))
    | none => false

/-- How the element at `a` stands before the one at `b`: `taken` is the first with what goes along
when it is moved, `moved` is that as it is put back, and `middle` is what stands between `taken` and
the place it is put. An element that has its lines to itself takes them whole, with the comment lines
right above, and is put above the comment lines of the second. One that shares a line takes only the
padding behind it, is put right before the second, and gets a space unless it ends in one. -/
inductive Layout (src : Bytes) (a b : Span) : (taken moved middle : Bytes) → Prop
  | lines {head above indent own tail middle notes indent' rest : Bytes}
      (source : src = head ++ above ++ indent ++ own ++
        (tail ++ 0x0A :: (middle ++ notes ++ indent' ++ rest)))
      (start : a.pos.offset = (head ++ above ++ indent).length)
      (stop : a.stop.offset = (head ++ above ++ indent ++ own).length)
      (next : b.pos.offset =
        (head ++ above ++ indent ++ own ++ tail ++ [0x0A] ++ middle ++ notes ++ indent').length)
      (comments : CommentLines above) (plain : PlainAbove head) (alone : isBlankPad indent = true)
      (one : 0x0A ∉ tail) (trails : trailsOff tail = true) (comments' : CommentLines notes)
      (plain' : PlainAbove (head ++ above ++ indent ++ own ++ tail ++ [0x0A] ++ middle))
      (alone' : isBlankPad indent' = true) :
      Layout src a b (above ++ indent ++ own ++ tail ++ [0x0A]) (above ++ indent ++ own ++ tail ++ [0x0A])
        middle
  | shared {head before own pad middle rest : Bytes}
      (source : src = head ++ before ++ own ++ (pad ++ (middle ++ rest)))
      (start : a.pos.offset = (head ++ before).length)
      (stop : a.stop.offset = (head ++ before ++ own).length)
      (next : b.pos.offset = (head ++ before ++ own ++ pad ++ middle).length)
      (starts : LineStart head) (one : 0x0A ∉ before) (blank : isBlankPad pad = true)
      (all : spanLength isPad (middle ++ rest) = 0)
      (shares : isBlankPad before = false ∨ trailsOff (restOfLine (pad ++ (middle ++ rest))) = false) :
      Layout src a b (own ++ pad) (endedWith 0x20 (own ++ pad)) middle

theorem PlainAbove.lineStart {front : Bytes} (plain : PlainAbove front) : LineStart front := by
  cases plain with
  | start => exact .inl rfl
  | line => exact .inr (by simp)

theorem CommentLines.lineStart {front notes : Bytes} (starts : LineStart front)
    (comments : CommentLines notes) : LineStart (front ++ notes) := by
  cases comments with
  | none => rwa [List.append_nil]
  | line => exact .inr (by simp)

theorem takeWhile_line {line tail : Bytes} (one : 0x0A ∉ line) (breaks : Breaks tail) :
    (line ++ tail).takeWhile (· ≠ 0x0A) = line := by
  have all : ∀ c ∈ line, decide (c ≠ 0x0A) = true := by
    intro c here
    rw [decide_eq_true_eq]
    rintro rfl
    exact one here
  rw [List.takeWhile_append_of_pos all]
  obtain rfl | ⟨more, rfl⟩ := breaks <;> simp

theorem breaks_reverse {front : Bytes} (starts : LineStart front) : Breaks front.reverse := by
  obtain rfl | ends := starts
  · exact .inl rfl
  · obtain ⟨before, rfl⟩ := List.getLast?_eq_some_iff.mp ends
    exact .inr ⟨before.reverse, by simp⟩

theorem lineStartOffset_eq {front before : Bytes} (starts : LineStart front) (one : 0x0A ∉ before)
    (rest : Bytes) :
    lineStartOffset (front ++ before ++ rest) (front ++ before).length = front.length := by
  have line : (before.reverse ++ front.reverse).takeWhile (· ≠ 0x0A) = before.reverse :=
    takeWhile_line (by simpa using one) (breaks_reverse starts)
  rw [lineStartOffset, List.take_left, spanLength, List.reverse_append, line, List.length_reverse,
    List.length_append, Nat.add_sub_cancel]

theorem slice_eq {front part : Bytes} (rest : Bytes) (source : s.src = front ++ part ++ rest) :
    s.slice front.length (front ++ part).length = part := by
  rw [slice, source, List.append_assoc, List.drop_left, List.length_append, Nat.add_sub_cancel_left,
    List.take_left]

/-! ### Comments above -/

def overComment (s : Source) (start : Nat) : Turn Nat Nat :=
  if start = 0 then .done start
  else
    let ls := lineStartOffset s.src (start - 1)
    if opensLineComment (trimLeft (s.slice ls (start - 1))) then .next ls else .done start

theorem overComment_lowers (s : Source) : Lowers id s.overComment := by
  intro start following turned
  rw [overComment] at turned
  split at turned
  · cases turned
  · rename_i some_
    change (if _ then Turn.next _ else _) = _ at turned
    split at turned
    · cases turned
      change lineStartOffset _ _ < start
      rw [lineStartOffset]
      omega
    · cases turned

theorem overComment_line {front body rest : Bytes} (source : s.src = front ++ body ++ [0x0A] ++ rest)
    (starts : LineStart front) (one : 0x0A ∉ body) :
    s.overComment (front ++ body ++ [0x0A]).length =
      if opensLineComment (trimLeft body) then .next front.length
      else .done (front ++ body ++ [0x0A]).length := by
  have last : (front ++ body ++ [(0x0A : UInt8)]).length = (front ++ body).length + 1 :=
    List.length_append
  rw [List.append_assoc _ [_] rest] at source
  have found := lineStartOffset_eq starts one ([0x0A] ++ rest)
  rw [← source] at found
  rw [overComment, last, if_neg (Nat.succ_ne_zero _), Nat.add_sub_cancel]
  change (if _ then _ else _) = _
  rw [found, slice_eq _ source]

theorem extendOverLeadingComments_eq {front notes : Bytes} (plain : PlainAbove front)
    (comments : CommentLines notes) (rest : Bytes) (source : s.src = front ++ notes ++ rest) :
    s.extendOverLeadingComments (front ++ notes).length = front.length := by
  change loop id s.overComment id _ = _
  induction comments generalizing rest with
  | none =>
    rw [List.append_nil] at source ⊢
    cases plain with
    | start => exact loop_done rfl
    | line starts one comment =>
      refine loop_done ((overComment_line source starts one).trans ?_)
      rw [comment]
      rfl
  | @line above body lines one comment ih =>
    have grouped : front ++ (above ++ body ++ [0x0A]) = front ++ above ++ body ++ [0x0A] := by simp
    rw [grouped] at source ⊢
    have turned := overComment_line source (lines.lineStart plain.lineStart) one
    rw [comment, if_pos rfl] at turned
    rw [loop_next s.overComment_lowers turned]
    exact ih (body ++ [0x0A] ++ rest) (by rw [source]; simp)

/-! ### What trails an element -/

theorem opensWith_line (lead : Bytes) (inLine : 0x0A ∉ lead) {tail : Bytes} (breaks : Breaks tail) :
    ∀ line, opensWith lead (line ++ tail) = opensWith lead line := by
  induction lead with
  | nil =>
    intro line
    rfl
  | cons c lead ih =>
    rw [List.mem_cons, not_or] at inLine
    intro line
    cases line with
    | nil =>
      obtain rfl | ⟨more, rfl⟩ := breaks
      · rfl
      · simp [opensWith, List.isPrefixOf, Ne.symm inLine.1]
    | cons d line =>
      have same := ih inLine.2 line
      simp only [opensWith] at same
      simp only [opensWith, List.cons_append, List.isPrefixOf, same]

theorem opensLineComment_line {tail : Bytes} (breaks : Breaks tail) (line : Bytes) :
    opensLineComment (line ++ tail) = opensLineComment line := by
  rw [opensLineComment, opensLineComment, opensWith_line _ (by decide) breaks]
  cases line with
  | nil => obtain rfl | ⟨more, rfl⟩ := breaks <;> rfl
  | cons => rfl

/-- The first place of the end of a comment, if it is before the end of the line. -/
theorem indexOf_line {tail : Bytes} (breaks : Breaks tail) :
    ∀ {line : Bytes}, 0x0A ∉ line → ∀ n, indexOf (text "*/") line = some n ↔
      indexOf (text "*/") (line ++ tail) = some n ∧ hasNewline ((line ++ tail).take n) = false
  | [], _, n => by
    refine ⟨nofun, fun ⟨found, one⟩ => ?_⟩
    obtain rfl | ⟨more, rfl⟩ := breaks
    · exact found
    · have later : indexOf (text "*/") (0x0A :: more) = (indexOf (text "*/") more).map (· + 1) := rfl
      rw [List.nil_append, later] at found
      obtain ⟨m, -, rfl⟩ := Option.map_eq_some_iff.mp found
      simp [hasNewline] at one
  | c :: line, one, n => by
    rw [List.mem_cons, not_or] at one
    have opens := opensWith_line (text "*/") (by decide) breaks (c :: line)
    rw [List.cons_append] at opens
    rw [List.cons_append, indexOf, indexOf, opens]
    split
    · refine ⟨fun found => ⟨found, ?_⟩, And.left⟩
      cases found
      rfl
    · have passes (m : Nat) : hasNewline ((c :: (line ++ tail)).take (m + 1)) =
          hasNewline ((line ++ tail).take m) := by
        simp [hasNewline, one.1]
      constructor
      · intro found
        obtain ⟨m, inner, rfl⟩ := Option.map_eq_some_iff.mp found
        obtain ⟨there, same⟩ := (indexOf_line breaks one.2 m).mp inner
        exact ⟨by rw [there]; rfl, by rw [passes, same]⟩
      · rintro ⟨found, same⟩
        obtain ⟨m, inner, rfl⟩ := Option.map_eq_some_iff.mp found
        rw [passes] at same
        rw [(indexOf_line breaks one.2 m).mpr ⟨inner, same⟩]
        rfl

theorem indexOf_le {needle : Bytes} : ∀ {t : Bytes} {n : Nat}, indexOf needle t = some n →
    n + needle.length ≤ t.length
  | [], _, found => by cases found
  | c :: t, n, found => by
    rw [indexOf] at found
    split at found
    · rename_i opens
      cases found
      have short := (List.isPrefixOf_iff_prefix.mp opens).length_le
      omega
    · obtain ⟨m, inner, rfl⟩ := Option.map_eq_some_iff.mp found
      have short := indexOf_le inner
      rw [List.length_cons]
      omega

theorem spanLength_pad {line tail : Bytes} (breaks : Breaks tail) :
    spanLength isPad (line ++ tail) = spanLength isPad line := by
  induction line with
  | nil => obtain rfl | ⟨more, rfl⟩ := breaks <;> rfl
  | cons c line ih => rw [List.cons_append, spanLength_cons, spanLength_cons, ih]

theorem spanLength_blank (line : Bytes) : (isBlankPad line = true → spanLength isPad line = line.length) ∧
    (isBlankPad line = false → spanLength isPad line < line.length) := by
  induction line with
  | nil => exact ⟨fun _ => rfl, nofun⟩
  | cons c line ih =>
    rw [spanLength_cons, isBlankPad, List.all_cons, List.length_cons]
    cases isPad c with
    | false => exact ⟨nofun, fun _ => Nat.succ_pos _⟩
    | true =>
      exact ⟨fun blank => congrArg (· + 1) (ih.1 blank), fun other => Nat.succ_lt_succ (ih.2 other)⟩

theorem inside_line {front line tail : Bytes} (source : s.src = front ++ (line ++ tail))
    (one : 0x0A ∉ line) {n : Nat} (inside : n < line.length) :
    front.length + n < s.src.length ∧ peek s.src (front.length + n) ≠ 0x0A := by
  constructor
  · rw [source, List.length_append, List.length_append]
    omega
  · rw [← peek_drop, source, List.drop_left, peek, List.getD_eq_getElem?_getD,
      List.getElem?_append_left inside, List.getElem?_eq_getElem inside, Option.getD_some]
    intro ends
    exact one (ends ▸ List.getElem_mem inside)

theorem closesOnLine_eq {front line tail : Bytes} (source : s.src = front ++ (line ++ tail))
    (one : 0x0A ∉ line) (breaks : Breaks tail) :
    s.closesOnLine front.length =
      (indexOf (text "*/") line).map fun n => front.length + (n + 2) := by
  have place := indexOf_line breaks one
  rw [closesOnLine, source, List.drop_left]
  cases found : indexOf (text "*/") line with
  | some n =>
    obtain ⟨there, same⟩ := (place n).mp found
    simp only [there, same, Option.map_some]
    rfl
  | none =>
    cases there : indexOf (text "*/") (line ++ tail) with
    | none => rfl
    | some n =>
      cases newline : hasNewline ((line ++ tail).take n) with
      | true => simp only [newline, if_pos, Option.map_none]
      | false =>
        have other := (place n).mpr ⟨there, newline⟩
        rw [found] at other
        cases other

/-- What may trail an element goes to the end of the line, or the code stops before it. -/
theorem pastTrailing_ends {front line tail : Bytes} (source : s.src = front ++ (line ++ tail))
    (one : 0x0A ∉ line) (breaks : Breaks tail) :
    (trailsOff line = true → s.pastTrailing front.length = (front ++ line).length) ∧
      (trailsOff line = false → s.pastTrailing front.length < s.src.length ∧
        peek s.src (s.pastTrailing front.length) ≠ 0x0A) := by
  obtain ⟨lead, more, split_, pads, rest⟩ : ∃ lead more, line = lead ++ more ∧
      lead.length = spanLength isPad line ∧ line.dropWhile isPad = more :=
    ⟨_, _, (List.takeWhile_append_dropWhile ..).symm, rfl, rfl⟩
  have single : 0x0A ∉ more := fun here => one (by rw [split_]; exact List.mem_append_right _ here)
  rw [split_, List.append_assoc, ← List.append_assoc] at source
  have padded : front.length + s.trailingListPad front.length = (front ++ lead).length := by
    rw [trailingListPad, source, List.append_assoc, List.drop_left, ← List.append_assoc, ← split_,
      spanLength_pad breaks, ← pads, List.length_append]
  have dropped : s.src.drop (front ++ lead).length = more ++ tail := by rw [source, List.drop_left]
  have guarded : (!(more ++ tail).isEmpty && opensLineComment more) = opensLineComment more := by
    cases more with
    | nil => exact Bool.and_false _
    | cons => rfl
  have past : s.pastTrailing front.length =
      if opensLineComment more then s.endOfLine (front ++ lead).length
      else if opensWith (text "/*") more then
        match s.closesOnLine (front ++ lead).length with
        | some through => through + s.trailingListPad through
        | none => (front ++ lead).length
      else (front ++ lead).length := by
    simp only [pastTrailing, padded, dropped, opensLineComment_line breaks,
      opensWith_line (text "/*") (by decide) breaks, guarded] <;> rfl
  have length : (front ++ line).length = (front ++ lead).length + more.length := by
    rw [split_, ← List.append_assoc, List.length_append]
  rw [past, length, trailsOff, rest, closesOnLine_eq source single breaks]
  cases comment : opensLineComment more with
  | true =>
    rw [if_pos rfl, endOfLine, dropped, spanLength, takeWhile_line single breaks]
    simp
  | false =>
    rw [if_neg Bool.false_ne_true, Bool.or_false]
    cases block : opensWith (text "/*") more with
    | false =>
      rw [if_neg Bool.false_ne_true, Bool.false_and, Bool.or_false]
      cases more with
      | nil => exact ⟨fun _ => rfl, nofun⟩
      | cons => exact ⟨nofun, fun _ => inside_line source single (Nat.succ_pos _)⟩
    | true =>
      have some_ : more ≠ [] := by
        rintro rfl
        cases block
      rw [if_pos rfl, Bool.true_and, List.isEmpty_eq_false_iff.mpr some_, Bool.false_or]
      cases found : indexOf (text "*/") more with
      | none =>
        exact ⟨nofun, fun _ => inside_line source single (List.length_pos_iff.mpr some_)⟩
      | some n =>
        have short : n + 2 ≤ more.length := indexOf_le found
        have after : s.trailingListPad ((front ++ lead).length + (n + 2)) =
            spanLength isPad (more.drop (n + 2)) := by
          rw [trailingListPad, ← List.drop_drop, dropped, List.drop_append_of_le_length short,
            spanLength_pad breaks]
        have rest := List.length_drop (i := n + 2) (l := more)
        obtain ⟨whole, part⟩ := spanLength_blank (more.drop (n + 2))
        simp only [Option.map_some, after, Nat.add_assoc]
        constructor
        · intro blank
          rw [whole blank]
          omega
        · intro other
          have below := part other
          exact inside_line source single (by omega)

theorem isBlankPad_one {pad : Bytes} (blank : isBlankPad pad = true) : 0x0A ∉ pad := by
  intro here
  have bad := List.all_eq_true.mp blank _ here
  cases bad

theorem restOfLine_split (t : Bytes) : ∃ tail, t = restOfLine t ++ tail ∧ 0x0A ∉ restOfLine t ∧
    Breaks tail := by
  refine ⟨t.dropWhile (· ≠ 0x0A), (List.takeWhile_append_dropWhile ..).symm, fun here => ?_, ?_⟩
  · have passed := List.all_eq_true.mp (List.all_takeWhile (p := (· ≠ 0x0A)) (l := t)) _ here
    simp at passed
  · cases rest : t.dropWhile (· ≠ 0x0A) with
    | nil => exact .inl rfl
    | cons c more =>
      have stopped := List.head?_dropWhile_not (fun c : UInt8 => decide (c ≠ 0x0A)) t
      rw [rest] at stopped
      exact .inr ⟨more, by simp at stopped; rw [stopped]⟩

theorem entryRemovalSpan_lines {front indent own tail rest : Bytes} {e : Entry}
    (source : s.src = front ++ indent ++ own ++ (tail ++ 0x0A :: rest))
    (start : e.span.pos.offset = (front ++ indent).length)
    (stop : e.span.stop.offset = (front ++ indent ++ own).length) (starts : LineStart front)
    (alone : isBlankPad indent = true) (one : 0x0A ∉ tail) (trails : trailsOff tail = true) :
    s.entryRemovalSpan e =
      ⟨front.length, (front ++ indent ++ own ++ tail ++ [0x0A]).length, true⟩ := by
  have past := (pastTrailing_ends source one (.inr ⟨rest, rfl⟩)).1 trails
  have line : lineStartOffset s.src (front ++ indent).length = front.length := by
    rw [source, List.append_assoc _ own]
    exact lineStartOffset_eq starts (isBlankPad_one alone) _
  have before : s.slice front.length (front ++ indent).length = indent :=
    slice_eq (own ++ (tail ++ 0x0A :: rest)) (by rw [source, List.append_assoc _ own])
  rw [← List.append_assoc] at source
  have ends : peek s.src (front ++ indent ++ own ++ tail).length = 0x0A := by
    rw [← Nat.add_zero (List.length _), ← peek_drop, source, List.drop_left]
    rfl
  have inside : (front ++ indent ++ own ++ tail).length < s.src.length := by
    rw [source]
    simp
  simp only [entryRemovalSpan, start, stop, line, past, before, alone, ends, inside, decide_true,
    Bool.or_true, Bool.and_true, if_true]
  have last : (front ++ indent ++ own ++ tail ++ [(0x0A : UInt8)]).length =
      (front ++ indent ++ own ++ tail).length + 1 := List.length_append
  rw [last]

theorem entryRemovalSpan_shared {front before own pad rest : Bytes} {e : Entry}
    (source : s.src = front ++ before ++ own ++ (pad ++ rest))
    (start : e.span.pos.offset = (front ++ before).length)
    (stop : e.span.stop.offset = (front ++ before ++ own).length) (starts : LineStart front)
    (one : 0x0A ∉ before) (blank : isBlankPad pad = true) (all : spanLength isPad rest = 0)
    (shares : isBlankPad before = false ∨ trailsOff (restOfLine (pad ++ rest)) = false) :
    s.entryRemovalSpan e =
      ⟨(front ++ before).length, (front ++ before ++ own ++ pad).length, false⟩ := by
  have line : lineStartOffset s.src (front ++ before).length = front.length := by
    rw [source, List.append_assoc _ own]
    exact lineStartOffset_eq starts one _
  have text : s.slice front.length (front ++ before).length = before :=
    slice_eq (own ++ (pad ++ rest)) (by rw [source, List.append_assoc _ own])
  have padding : s.trailingListPad (front ++ before ++ own).length = pad.length := by
    rw [trailingListPad, source, List.drop_left, spanLength,
      List.takeWhile_append_of_pos (List.all_eq_true.mp blank), List.length_append]
    exact congrArg (pad.length + ·) all
  have refused : (isBlankPad before && (decide (s.src.length ≤
      s.pastTrailing (front ++ before ++ own).length) ||
        decide (peek s.src (s.pastTrailing (front ++ before ++ own).length) = 0x0A))) = false := by
    obtain other | other := shares
    · rw [other, Bool.false_and]
    · obtain ⟨tail, split_, single, breaks⟩ := restOfLine_split (pad ++ rest)
      obtain ⟨inside, stops⟩ :=
        (pastTrailing_ends (source.trans (by rw [← split_])) single breaks).2 other
      rw [decide_eq_false (Nat.not_le.mpr inside), decide_eq_false stops, Bool.or_false, Bool.and_false]
  simp only [entryRemovalSpan, start, stop, line, text, refused, padding]
  exact congrArg (RemovalSpan.mk _ · _) List.length_append.symm

/-- A move within a block takes out what the layout says and puts it back where the layout says. -/
theorem moveBlockElementEdits_layout {op taken moved middle : Bytes} {elem next : BlockElem}
    (layout : Layout s.src elem.node.span next.node.span taken moved middle)
    (planned : s.moveBlockElementEdits op fieldPath elem (some next) = .ok edits) :
    ∃ pathKey front rest, s.src = front ++ taken ++ middle ++ rest ∧
      edits = moveEdits pathKey front.length (front ++ taken).length
        (front ++ taken ++ middle).length moved := by
  cases layout with
  | @lines head above indent own tail _ notes indent' rest source start stop next_ comments plain alone
      one trails comments' plain' alone' =>
    refine ⟨keyedPath "mv" [fieldPath, elem.key], head, notes ++ indent' ++ rest,
      by rw [source]; simp, ?_⟩
    have span := entryRemovalSpan_lines source start stop (comments.lineStart plain.lineStart) alone one
      trails
    have above_ := extendOverLeadingComments_eq plain comments
      (indent ++ own ++ (tail ++ 0x0A :: (middle ++ notes ++ indent' ++ rest)))
      (by rw [source]; simp only [List.append_assoc])
    have taken : s.slice head.length (head ++ above ++ indent ++ own ++ tail ++ [0x0A]).length =
        above ++ indent ++ own ++ tail ++ [0x0A] := by
      have grouped : head ++ above ++ indent ++ own ++ tail ++ [0x0A] =
          head ++ (above ++ indent ++ own ++ tail ++ [0x0A]) := by simp
      rw [grouped]
      exact slice_eq (middle ++ notes ++ indent' ++ rest) (by rw [source]; simp)
    have grouped : s.src = head ++ above ++ indent ++ own ++ tail ++ [0x0A] ++ middle ++ notes ++
        indent' ++ rest := by rw [source]; simp
    have line := lineStartOffset_eq (comments'.lineStart plain'.lineStart) (isBlankPad_one alone') rest
    rw [← grouped] at line
    have before := slice_eq rest grouped
    have place := extendOverLeadingComments_eq plain' comments' (indent' ++ rest)
      (by rw [grouped, List.append_assoc _ indent'])
    have ends : endedWith 0x0A (above ++ indent ++ own ++ tail ++ [0x0A]) =
        above ++ indent ++ own ++ tail ++ [0x0A] := by simp [endedWith]
    simp only [moveBlockElementEdits, span, above_, taken, next_, line, before, alone', place, ends,
      if_true, Except.ok.injEq] at planned
    rw [← planned]
    simp only [List.append_assoc]
  | @shared head before own pad _ rest source start stop next_ starts one blank all shares =>
    refine ⟨keyedPath "mv" [fieldPath, elem.key], head ++ before, rest, by rw [source]; simp, ?_⟩
    have span := entryRemovalSpan_shared source start stop starts one blank all shares
    have taken : s.slice (head ++ before).length (head ++ before ++ own ++ pad).length = own ++ pad := by
      rw [List.append_assoc _ own pad]
      exact slice_eq (middle ++ rest) (by rw [source]; simp)
    simp only [moveBlockElementEdits, span, taken, next_, Bool.false_eq_true, if_false,
      Except.ok.injEq] at planned
    rw [← planned, ← List.append_assoc]

theorem splice_moveEdits {pathKey front taken middle moved : Bytes} (rest : Bytes)
    (planned : edits = moveEdits pathKey front.length (front ++ taken).length
      (front ++ taken ++ middle).length moved) :
    Edit.stageAll [] edits = edits ∧ Edit.Clear edits ∧
      Edit.splice (front ++ taken ++ middle ++ rest) 0 (Edit.sorted edits) =
        front ++ middle ++ moved ++ rest := by
  have sorted : Edit.sorted edits = edits := by
    simp [planned, Edit.sorted, moveEdits, Edit.Before]
  refine ⟨Edit.stageAll_fresh ?_ ?_, ?_, ?_⟩
  · simp [planned, Edit.paths, moveEdits]
  · simp [Edit.paths]
  · rw [Edit.clear_iff, sorted, planned]
    simp [moveEdits, Edit.firstClash, Edit.Fits]
  · have between : (front ++ taken ++ middle).length - (front ++ taken).length = middle.length := by
      simp only [List.length_append]
      omega
    rw [sorted, planned]
    simp only [moveEdits, Edit.splice, between]
    simp

end Source

theorem Rewriter.reparsed_ok {src : Bytes} {doc : Document} (parsed : parse src {} = .ok doc)
    (out : Bytes) : reparsed out = .ok src ↔ out = src := by
  constructor
  · intro same
    rw [reparsed] at same
    split at same <;> cases same
    rfl
  · rintro rfl
    rw [reparsed, parsed]

def listKeyed : Bytes := text "f = [\x7bk = \"a\"\x7d, \x7bk = \"b\"\x7d]"

def Rewriter.listed (r : Rewriter) : Bool :=
  match r.keyedBindings [] (text "f") with
  | .ok bs =>
    match findKeyedElem bs (text "a"), findKeyedElem bs (text "b") with
    | some (.anon a), some (.anon b) => b.b.id = a.b.id ∧ b.idx = a.idx + 1
    | _, _ => false
  | .error _ => false

def Rewriter.stacked (r : Rewriter) : Bool :=
  match r.keyedBindings [] (text "f") with
  | .ok bs =>
    match findKeyedElem bs (text "a"), findKeyedElem bs (text "b") with
    | some (.block a), some (.block b) => a.node.span.pos.offset = 6 ∧
      a.node.span.stop.offset = 10 ∧ b.node.span.pos.offset = 13
    | _, _ => false
  | .error _ => false

end Protowire.Pxf
