import Mathlib.Data.List.Induction
import Protowire.Pxf.Reading

/-!
The place of a lexer in its input. It counts lines and columns as it reads, and a mark or a new
position brings back a count made earlier. What it reports is what counting over again from the
start of the input gives, as far as an `int` holds that: the counts themselves are kept without
bound here, and wrapping them where they are reported is wrapping them at every step.
-/

namespace Protowire.Pxf

def Position.counted (start : Position) (s : Bytes) : Position where
  line := start.line + s.count 0x0A
  column := if 0x0A ∈ s then (s.reverse.takeWhile (· ≠ 0x0A)).length + 1 else start.column + s.length
  offset := start.offset + s.length

theorem Position.after_append (here : Position) (s t : Bytes) :
    here.after (s ++ t) = (here.after s).after t := by
  induction s generalizing here with
  | nil => rfl
  | cons c s ih =>
    rw [List.cons_append, after, after]
    split
    · exact ih _
    · exact ih _

theorem Position.after_eq_counted (start : Position) (s : Bytes) :
    start.after s = start.counted s := by
  induction s using List.reverseRecOn with
  | nil => rfl
  | append_singleton s c ih =>
    rw [after_append, ih]
    by_cases feed : c = 0x0A
    · simp [after, counted, feed, Nat.add_assoc]
    · have other : ¬(10 : UInt8) = c := fun eq => feed eq.symm
      by_cases earlier : (0x0A : UInt8) ∈ s
      · simp [after, counted, feed, other, earlier, Nat.add_assoc]
      · simp [after, counted, feed, other, earlier, Nat.add_assoc]

/-- A position as the code holds it. -/
structure IntPosition where
  line : Int32
  column : Int32
  offset : Int32
deriving DecidableEq

def IntPosition.after (here : IntPosition) : Bytes → IntPosition
  | [] => here
  | c :: rest =>
    if c = 0x0A then IntPosition.after ⟨here.line + 1, 1, here.offset + 1⟩ rest
    else IntPosition.after ⟨here.line, here.column + 1, here.offset + 1⟩ rest

def Position.ints (p : Position) : IntPosition :=
  ⟨Int32.ofNat p.line, Int32.ofNat p.column, Int32.ofNat p.offset⟩

theorem Position.ints_after (p : Position) (s : Bytes) : (p.after s).ints = p.ints.after s := by
  induction s generalizing p with
  | nil => rfl
  | cons c s ih =>
    rw [after, IntPosition.after]
    split
    · rw [ih, ints, ints, Int32.ofNat_add, Int32.ofNat_add]
      rfl
    · rw [ih, ints, ints, Int32.ofNat_add, Int32.ofNat_add]
      rfl

def Position.Fits (p : Position) : Prop :=
  p.line < 2 ^ 31 ∧ p.column < 2 ^ 31 ∧ p.offset < 2 ^ 31

def IntPosition.Tells (p : IntPosition) (c : Position) : Prop :=
  p.line.toInt = c.line ∧ p.column.toInt = c.column ∧ p.offset.toInt = c.offset

theorem toInt_ofNat_iff (n : Nat) : (Int32.ofNat n).toInt = n ↔ n < 2 ^ 31 := by
  constructor
  · intro same
    have below := (Int32.ofNat n).toInt_lt
    omega
  · intro small
    exact Int32.toInt_ofNat_of_lt small

/-- A count as it is reported: wrapped, and so the right one just where it fits. -/
structure IntPosition.Reports (p : IntPosition) (c : Position) : Prop where
  wrapped : p = c.ints
  right : p.Tells c ↔ c.Fits

theorem Position.ints_reports (p : Position) : p.ints.Reports p :=
  ⟨rfl, by simp only [IntPosition.Tells, ints, Fits, toInt_ofNat_iff]⟩

namespace Lexer

/-- `CurrentPos`, on the `int`s of the code. -/
def reported (l : Lexer) : IntPosition :=
  ⟨Int32.ofNat l.line, Int32.ofNat l.column, Int32.ofNat l.start.offset + Int32.ofNat l.pos⟩

theorem reported_eq (l : Lexer) : l.reported = l.currentPos.ints := by
  rw [reported, ← Int32.ofNat_add]
  rfl

structure Mark where
  pos : Nat
  line : Nat
  column : Nat

def getMark (l : Lexer) : Mark := ⟨l.pos, l.line, l.column⟩

def rewind (l : Lexer) (m : Mark) : Lexer :=
  { l with pos := m.pos, line := m.line, column := m.column }

def placeOf (l : Lexer) (off : Nat) : Position := l.start.counted (l.input.take off)

def Placed (l : Lexer) : Prop := l.pos ≤ l.input.length ∧ l.currentPos = l.placeOf l.pos

inductive Call where
  | next
  | mark
  | rewind (index : Nat)
  | repositionTo (target : Int32)

def seekSteps (target : Int32) (pos : Nat) : Bytes → Nat
  | [] => 0
  | _ :: rest => if Int32.ofNat pos < target then seekSteps target (pos + 1) rest + 1 else 0

/-- `RepositionTo` on the `int`s of the code. -/
def seek (l : Lexer) (target : Int32) : Lexer :=
  let from_ := if target < Int32.ofNat l.pos then l.rewind ⟨0, l.start.line, l.start.column⟩ else l
  from_.advance (seekSteps target from_.pos from_.rest)

structure Run where
  lex : Lexer
  marks : List Mark := []

def Run.call (r : Run) : Call → Run
  | .next => { r with lex := r.lex.next.2.1 }
  | .mark => { r with marks := r.marks ++ [r.lex.getMark] }
  | .rewind index =>
    match r.marks[index]? with
    | some m => { r with lex := r.lex.rewind m }
    | none => r
  | .repositionTo target => { r with lex := r.lex.seek target }

variable {l l' : Lexer}

theorem advance_pos (l : Lexer) (n : Nat) : (l.advance n).pos = l.pos + min n l.rest.length := by
  rw [advance, List.length_take]

theorem pos_advance_le (placed : l.Placed) (n : Nat) : (l.advance n).pos ≤ l.input.length := by
  have := placed.1
  rw [advance_pos, rest, List.length_drop]
  omega

theorem currentPos_after (placed : l.Placed) (n : Nat) :
    l.currentPos.after (l.rest.take n) = l.placeOf (l.pos + n) := by
  rw [placed.2, placeOf, placeOf, ← Position.after_eq_counted, ← Position.after_eq_counted,
    ← Position.after_append, rest, ← List.take_add]

theorem advance_placed (placed : l.Placed) (n : Nat) : (l.advance n).Placed := by
  refine ⟨pos_advance_le placed n, ?_⟩
  have read := currentPos_after placed (min n l.rest.length)
  rw [← List.take_eq_take_min] at read
  have offset : l.start.offset + (l.advance n).pos = (l.currentPos.after (l.rest.take n)).offset := by
    have within := pos_advance_le placed n
    rw [advance_pos] at within ⊢
    rw [read]
    simp only [placeOf, Position.counted, List.length_take]
    rw [Nat.min_eq_left within]
  change _ = l.placeOf (l.advance n).pos
  rw [advance_pos, ← read, currentPos]
  change Position.mk _ _ (l.start.offset + (l.advance n).pos) = _
  rw [offset]
  rfl

theorem skipSpaces_placed (placed : l.Placed) : l.skipSpaces.Placed := advance_placed placed _

theorem rewind_start_placed (l : Lexer) :
    (l.rewind ⟨0, l.start.line, l.start.column⟩).Placed := by
  refine ⟨Nat.zero_le _, ?_⟩
  simp [currentPos, rewind, placeOf, Position.counted]

theorem seek_placed (placed : l.Placed) (target : Int32) : (l.seek target).Placed := by
  rw [seek]
  apply advance_placed
  split
  · exact rewind_start_placed l
  · exact placed

theorem seek_movedTo (l : Lexer) (target : Int32) : l.MovedTo (l.seek target) := by
  rw [seek]
  split <;> rfl

theorem ofNat_lt_iff {m n : Nat} (m_fits : m < 2 ^ 31) (n_fits : n < 2 ^ 31) :
    Int32.ofNat m < Int32.ofNat n ↔ m < n := by
  rw [Int32.lt_iff_toInt_lt, (toInt_ofNat_iff m).mpr m_fits, (toInt_ofNat_iff n).mpr n_fits]
  omega

theorem seekSteps_eq {target pos : Nat} (fits : target < 2 ^ 31) (left : Bytes)
    (short : pos + left.length < 2 ^ 31) :
    seekSteps (Int32.ofNat target) pos left = min (target - pos) left.length := by
  induction left generalizing pos with
  | nil => simp [seekSteps]
  | cons c rest ih =>
    rw [List.length_cons] at short ⊢
    simp only [seekSteps, ih (show pos + 1 + rest.length < 2 ^ 31 by omega),
      ofNat_lt_iff (show pos < 2 ^ 31 by omega) fits]
    split <;> omega

/-- Over an input that an `int` measures, the two are one. -/
theorem seek_eq (within : l.pos ≤ l.input.length) (short : l.input.length < 2 ^ 31) {target : Nat}
    (fits : target < 2 ^ 31) : l.seek (Int32.ofNat target) = l.repositionTo target := by
  have steps (from_ : Lexer) (same : from_.input = l.input) (inside : from_.pos ≤ l.input.length) :
      from_.advance (seekSteps (Int32.ofNat target) from_.pos from_.rest) =
        from_.advance (target - from_.pos) := by
    have room : from_.pos + from_.rest.length = l.input.length := by
      rw [rest, same, List.length_drop]
      omega
    rw [seekSteps_eq fits _ (by omega), advance, advance, ← List.take_eq_take_min]
  simp only [seek, repositionTo, ofNat_lt_iff fits (show l.pos < 2 ^ 31 by omega)]
  split
  · exact steps _ rfl (Nat.zero_le _)
  · exact steps l rfl within

theorem next_placed (placed : l.Placed) : l.next.2.1.Placed := by
  simp only [next]
  split
  · exact skipSpaces_placed placed
  · exact advance_placed (skipSpaces_placed placed) _

theorem rewind_of_movedTo (moved : l.MovedTo l') (m : Mark) : l'.rewind m = l.rewind m := by
  rw [moved, rewind, rewind]

structure Run.Kept (r : Run) (first : Lexer) : Prop where
  same : first.MovedTo r.lex
  placed : r.lex.Placed
  marks : ∀ m ∈ r.marks, (first.rewind m).Placed

theorem Run.call_kept {first : Lexer} {r : Run} (kept : r.Kept first) (call : Call) :
    (r.call call).Kept first := by
  obtain ⟨same, placed, marks⟩ := kept
  cases call with
  | next => exact ⟨same.trans r.lex.next_movedTo, next_placed placed, marks⟩
  | mark =>
    refine ⟨same, placed, fun m member => ?_⟩
    obtain earlier | now := List.mem_append.mp member
    · exact marks m earlier
    · rw [List.mem_singleton.mp now, ← rewind_of_movedTo same]
      exact placed
  | rewind index =>
    rw [call]
    split
    · next m found =>
        refine ⟨same.trans rfl, ?_, marks⟩
        change (r.lex.rewind m).Placed
        rw [rewind_of_movedTo same]
        exact marks m (List.mem_of_getElem? found)
    · exact ⟨same, placed, marks⟩
  | repositionTo target => exact ⟨same.trans (seek_movedTo _ _), seek_placed placed _, marks⟩

theorem Run.calls_kept (calls : List Call) {first : Lexer} {r : Run} (kept : r.Kept first) :
    (calls.foldl Run.call r).Kept first := by
  induction calls generalizing r with
  | nil => exact kept
  | cons call calls ih => exact ih (call_kept kept call)

def nexts (l : Lexer) : Nat → Lexer
  | 0 => l
  | n + 1 => (l.nexts n).next.2.1

def tokenRange (l : Lexer) (n : Nat) : Nat × Nat :=
  ((l.nexts n).skipSpaces.pos, (l.nexts (n + 1)).pos)

theorem next_pos (l : Lexer) : l.skipSpaces.pos ≤ l.next.2.1.pos := by
  simp only [next]
  split
  · exact Nat.le_refl _
  · exact Nat.le_add_right _ _

theorem next_pos_lt (notEof : l.next.1.kind ≠ .eof) : l.skipSpaces.pos < l.next.2.1.pos := by
  have kind := notEof
  simp only [next] at kind ⊢
  split
  · next empty => simp [empty] at kind
  · next nonempty =>
      cases opens : l.skipSpaces.rest with
      | nil => simp [opens] at nonempty
      | cons c rest =>
        have width := scan_width l.skipSpaces.tolerant l.skipSpaces.maxBytesLiteral c rest
        rw [advance_pos, opens, List.length_cons]
        omega

theorem skipSpaces_gap (l : Lexer) :
    l.pos ≤ l.skipSpaces.pos ∧
      ((l.input.take l.skipSpaces.pos).drop l.pos).all isSpace = true := by
  refine ⟨Nat.le_add_right _ _, ?_⟩
  have gap : (l.input.take l.skipSpaces.pos).drop l.pos = l.rest.takeWhile isSpace := by
    rw [skipSpaces, advance_pos, List.drop_take, Nat.add_sub_cancel_left, ← rest,
      ← List.take_eq_take_min, spanLength]
    exact (List.prefix_iff_eq_take.mp (List.takeWhile_prefix isSpace)).symm
  rw [gap]
  exact List.all_takeWhile

theorem nexts_kept (placed : l.Placed) (n : Nat) : l.MovedTo (l.nexts n) ∧ (l.nexts n).Placed := by
  induction n with
  | zero => exact ⟨.refl l, placed⟩
  | succ n ih => exact ⟨ih.1.trans (l.nexts n).next_movedTo, next_placed ih.2⟩

theorem next_token_pos (l : Lexer) : l.next.1.pos = l.skipSpaces.currentPos := by
  simp only [next]
  split <;> rfl

theorem next_errors (placed : l.Placed) {e : Error} (member : e ∈ l.next.2.2) :
    ∃ off, e.pos = l.placeOf off := by
  simp only [next] at member
  split at member
  · cases member
  · obtain ⟨⟨offset, msg⟩, _, rfl⟩ := List.mem_map.mp member
    exact ⟨_, currentPos_after (skipSpaces_placed placed) offset⟩

theorem placeOf_of_movedTo (moved : l.MovedTo l') : l'.placeOf = l.placeOf := by
  rw [moved]
  rfl

/-- After any calls, the lexer is where counting from the start of the input says it is, and so is
every token it goes on to read and every error it reports, each count reported rightly just where it
fits. The tokens take up ranges of bytes one after the other, none of them empty before the end of
the input, with only spaces between them. -/
theorem keeps_place (input : Bytes) (start : Position) (limit : Nat) (tolerant : Bool)
    (calls : List Call) :
    let l := (calls.foldl Run.call { lex := { ofPiece input start limit with tolerant } }).lex
    let place := fun off => start.counted (input.take off)
    l.reported.Reports (place l.pos) ∧
      ∀ n, let found := (l.nexts n).next
        let range := l.tokenRange n
        found.1.pos.ints.Reports (place range.1) ∧ found.2.1.reported.Reports (place range.2) ∧
          (∀ e ∈ found.2.2, ∃ off, e.pos.ints.Reports (place off)) ∧
          range.1 ≤ range.2 ∧ range.2 ≤ input.length ∧ (found.1.kind ≠ .eof → range.1 < range.2) ∧
          range.2 ≤ (l.tokenRange (n + 1)).1 ∧
          ((input.take (l.tokenRange (n + 1)).1).drop range.2).all isSpace = true := by
  intro l place
  have kept : (calls.foldl Run.call { lex := { ofPiece input start limit with tolerant } }).Kept
      { ofPiece input start limit with tolerant } :=
    Run.calls_kept calls ⟨rfl, rewind_start_placed _, by simp⟩
  have whole (n : Nat) : { ofPiece input start limit with tolerant }.MovedTo (l.nexts n) :=
    kept.same.trans (nexts_kept kept.placed n).1
  have same (n : Nat) : (l.nexts n).placeOf = place := placeOf_of_movedTo (whole n)
  have input_eq (n : Nat) : (l.nexts n).input = input := by rw [whole n]; rfl
  have reports {p : Position} {off : Nat} (here : p = place off) : p.ints.Reports (place off) :=
    here ▸ p.ints_reports
  refine ⟨l.reported_eq ▸ reports (same 0 ▸ kept.placed.2), fun n => ?_⟩
  have placed := (nexts_kept kept.placed n).2
  have placed' := (nexts_kept kept.placed (n + 1)).2
  refine ⟨?_, ?_, ?_, next_pos _, ?_, next_pos_lt, ?_⟩
  · apply reports
    rw [next_token_pos, ← same n]
    exact (skipSpaces_placed placed).2
  · rw [reported_eq]
    apply reports
    rw [← same (n + 1)]
    exact placed'.2
  · intro e member
    obtain ⟨off, here⟩ := next_errors placed member
    exact ⟨off, reports (here.trans (congrFun (same n) off))⟩
  · rw [← input_eq (n + 1)]
    exact placed'.1
  · rw [← input_eq (n + 1)]
    exact skipSpaces_gap (l.nexts (n + 1))

/-- A row that far into its stream is reported before the stream begins. -/
theorem reported_wraps :
    let start : Position := ⟨3, 1, 2 ^ 31 - 1⟩
    let l := (ofPiece (text "a") start 9).next.2.1
    (start.counted (text "a")).offset = 2 ^ 31 ∧ l.reported.offset.toInt = -(2 : Int) ^ 31 := by
  decide

end Lexer

end Protowire.Pxf
