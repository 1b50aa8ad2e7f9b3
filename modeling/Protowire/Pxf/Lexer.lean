import Protowire.Detail.Bytes
import Protowire.Pxf.LexerCore

/-!
What a scanner takes and reports: every token takes at least one byte, a strict lexer reports
nothing, and a tolerant one reads every token a strict one reads.
-/

namespace Protowire.Pxf

theorem le_pastDigits (s : Bytes) (at_ : Nat) : at_ ≤ pastDigits s at_ := Nat.le_add_right _ _

theorem unfinished_width {tolerant : Bool} {message : Bytes} {width least : Nat} {kept : Scan}
    (strict : least ≤ width) (keeps : least ≤ kept.width) :
    least ≤ (Scan.unfinished tolerant message width kept).width := by
  unfold Scan.unfinished
  split
  · exact keeps
  · exact strict

theorem scanStringBody_width (tolerant : Bool) (s : Bytes) :
    ∀ skip at_ sb reports, at_ ≤ (scanStringBody tolerant skip at_ sb reports s).width := by
  induction s with
  | nil => intro skip at_ sb reports; exact unfinished_width (Nat.le_refl _) (Nat.le_refl _)
  | cons c rest ih =>
    intro skip at_ sb reports
    unfold scanStringBody
    split
    · exact Nat.le_of_succ_le (ih _ _ _ _)
    · split
      · exact Nat.le_succ at_
      · split
        · split
          · exact unfinished_width (Nat.le_succ at_) (Nat.le_succ at_)
          · split
            · exact Nat.le_of_succ_le (ih _ _ _ _)
            · split
              · exact Nat.le_of_succ_le (ih _ _ _ _)
              · simp only [Scan.illegal]; omega
        · split
          · split <;> exact Nat.le_refl _
          · exact Nat.le_of_succ_le (ih _ _ _ _)

theorem scanBytesBody_width (tolerant : Bool) (limit : Nat) (body s : Bytes) :
    ∀ count, 2 ≤ (scanBytesBody tolerant limit body count s).width := by
  induction s with
  | nil =>
    intro count
    exact unfinished_width (Nat.le_add_right 2 count) (Nat.le_add_right 2 count)
  | cons c rest ih =>
    intro count
    simp only [scanBytesBody]
    repeat' split
    all_goals first
      | exact ih _
      | simp only [Scan.illegal]; omega

theorem scanNumberToken_width (kind : TokenKind) (s : Bytes) (width : Nat) :
    width ≤ (scanNumberToken kind s width).width := by
  simp only [scanNumberToken]
  split <;> omega

theorem le_pastPoint (s : Bytes) (at_ : Nat) : at_ ≤ pastPoint s at_ := by
  unfold pastPoint
  split
  · exact Nat.le_of_succ_le (le_pastDigits s _)
  · exact Nat.le_refl _

theorem le_pastExponent (s : Bytes) (at_ : Nat) : at_ ≤ pastExponent s at_ := by
  unfold pastExponent
  split
  · refine Nat.le_trans ?_ (le_pastDigits s _)
    split <;> omega
  · exact Nat.le_refl _

theorem le_pastFraction (s : Bytes) (at_ : Nat) : at_ ≤ pastFraction s at_ := by
  unfold pastFraction
  split
  · exact Nat.le_of_succ_le (le_pastDigits s _)
  · exact Nat.le_refl _

theorem scanFloat_width (s : Bytes) (at_ : Nat) : at_ ≤ (scanFloat s at_).width :=
  Nat.le_trans (le_pastPoint s at_)
    (Nat.le_trans (le_pastExponent s _) (scanNumberToken_width .float s _))

theorem scanTimestamp_width (s : Bytes) (at_ : Nat) : at_ ≤ (scanTimestamp s at_).width := by
  simp only [scanTimestamp]
  split <;> exact Nat.le_add_right _ _

theorem scanDuration_width (s : Bytes) (at_ : Nat) : at_ ≤ (scanDuration s at_).width := by
  simp only [scanDuration]
  split <;> exact Nat.le_add_right _ _

theorem scanMagnitude_width (neg : Bool) (s : Bytes) (digitStart : Nat) :
    pastDigits s digitStart ≤ (scanMagnitude neg s digitStart).width := by
  simp only [scanMagnitude]
  split
  · exact scanTimestamp_width s _
  · refine Nat.le_trans (le_pastFraction s _) ?_
    split
    · exact scanDuration_width s _
    · split
      · exact scanFloat_width s _
      · exact scanNumberToken_width .int s _

theorem scanNumber_width (c : UInt8) (s : Bytes) (opens : c = 0x2D ∨ c = 0x2B ∨ isDigit c) :
    0 < (scanNumber (c :: s)).width := by
  rw [scanNumber]
  split
  · split
    · exact Nat.succ_pos 3
    · split
      · exact Nat.one_pos
      · split
        · exact Nat.one_pos
        · exact Nat.le_trans (le_pastDigits _ 1) (scanMagnitude_width _ _ _)
  · rename_i unsigned
    have digit : isDigit c = true := by
      rw [peek_zero] at unsigned
      tauto
    refine Nat.lt_of_lt_of_le ?_ (scanMagnitude_width _ _ _)
    simp [pastDigits, spanLength_cons, digit]

theorem goIllegalRune_width (s : Bytes) : 0 < (goIllegalRune s).2 := by
  simp only [goIllegalRune]
  split
  · exact Nat.one_pos
  · rename_i rune width found
    split at found
    · cases found; exact Nat.one_pos
    · simp only [decodeRune] at found
      split at found
      · cases found; exact Nat.succ_pos 1
      · repeat' split at found
        all_goals cases found
        all_goals exact Nat.succ_pos _

theorem leadOf_cons (c : UInt8) (s : Bytes) :
    match leadOf (c :: s) with
    | .lineComment => c ≠ 0x0A
    | .number => c = 0x2D ∨ c = 0x2B ∨ isDigit c
    | .ident => isIdentStart c
    | _ => True := by
  have lead : leadOf (c :: s) = leadOf (c :: s) := rfl
  conv at lead => rhs; rw [leadOf, peek_zero]
  by_cases newline : c = 0x0A
  · rw [if_pos newline] at lead
    rw [lead]; trivial
  rw [if_neg newline] at lead
  by_cases hash : c = 0x23
  · rw [if_pos hash] at lead
    rw [lead]; exact newline
  rw [if_neg hash] at lead
  by_cases slashes : c = 0x2F ∧ peek (c :: s) 1 = 0x2F
  · rw [if_pos slashes] at lead
    rw [lead]; exact newline
  rw [if_neg slashes] at lead
  repeat' split at lead
  all_goals rw [lead]
  all_goals trivial

theorem scan_width (tolerant : Bool) (limit : Nat) (c : UInt8) (s : Bytes) :
    0 < (scan tolerant limit (c :: s)).width := by
  have lead := leadOf_cons c s
  rw [scan]
  split
  · exact Nat.one_pos
  · rename_i found
    rw [found] at lead
    simp [scanLineComment, Scan.verbatim, spanLength_cons, lead]
  · rw [scanBlockComment]
    split
    · exact Nat.succ_pos _
    · refine unfinished_width ?_ (Nat.succ_pos _)
      omega
  · rw [scanTripleString]
    split
    · exact Nat.succ_pos _
    · refine unfinished_width ?_ (Nat.succ_pos _)
      omega
  · exact scanStringBody_width tolerant _ 0 1 [] []
  · exact Nat.lt_of_lt_of_le (Nat.succ_pos 1) (scanBytesBody_width tolerant limit _ _ 0)
  · exact Nat.one_pos
  · simp only [scanDirective]
    repeat' split
    all_goals simp only [Scan.illegal]; omega
  · rename_i found
    rw [found] at lead
    exact scanNumber_width c s lead
  · rename_i found
    rw [found] at lead
    have part : isIdentPart c = true := by simp [isIdentPart, lead]
    simp only [scanIdent]
    repeat' split
    all_goals simp [Scan.verbatim, spanLength_cons, part]
  · exact goIllegalRune_width (c :: s)

/-- What a tolerant lexer makes of the bytes `s` that a strict one refuses: it refuses them too,
it reports them, or it leaves the parser a bytes literal that does not decode. -/
inductive Flawed (s : Bytes) (found : Scan) : Prop
  | illegal (kind : found.kind = .illegal)
  | comment (reports : found.reports ≠ []) (kind : found.kind = .comment)
      (all : found.width = s.length)
  | reported (reports : found.reports ≠ []) (kind : found.kind = .string ∨ found.kind = .bytes)
  | undecodable (kind : found.kind = .bytes)
      (fails : (base64DecodeLenient found.value).toOption = none)

inductive Forgives (s : Bytes) (strict tolerant : Scan) : Prop
  | same (legal : strict.kind ≠ .illegal) (silent : strict.reports = [])
      (equal : tolerant = strict)
  | flawed (illegal : strict.kind = .illegal) (silent : strict.reports = [])
      (flawed : Flawed s tolerant)

theorem Forgives.refl {s : Bytes} {found : Scan} (silent : found.reports = []) :
    Forgives s found found := by
  by_cases illegal : found.kind = .illegal
  · exact .flawed illegal silent (.illegal illegal)
  · exact .same illegal silent rfl

theorem unfinished_forgives {s message : Bytes} {width : Nat} {kept : Scan}
    (kind : (kept.kind = .comment ∧ kept.width = s.length) ∨ kept.kind = .string ∨
      kept.kind = .bytes) :
    Forgives s (Scan.unfinished false message width kept)
      (Scan.unfinished true message width kept) := by
  have reports : (Scan.unfinished true message width kept).reports ≠ [] := by
    simp [Scan.unfinished]
  rcases kind with ⟨comment, all⟩ | kind
  · exact .flawed rfl rfl (.comment reports comment all)
  · exact .flawed rfl rfl (.reported reports kind)

theorem scanBlockComment_forgives (s : Bytes) :
    Forgives s (scanBlockComment false s) (scanBlockComment true s) := by
  unfold scanBlockComment
  split
  · exact .same (by simp [Scan.verbatim]) rfl rfl
  · exact unfinished_forgives (.inl ⟨rfl, rfl⟩)

theorem scanTripleString_forgives (s : Bytes) :
    Forgives s (scanTripleString false s) (scanTripleString true s) := by
  unfold scanTripleString
  split
  · exact .same (by simp) rfl rfl
  · exact unfinished_forgives (.inr (.inl rfl))

theorem scanStringBody_reported (s : Bytes) : ∀ skip at_ sb reports, reports ≠ [] →
    (scanStringBody true skip at_ sb reports s).kind = .string ∧
      (scanStringBody true skip at_ sb reports s).reports ≠ [] := by
  induction s with
  | nil =>
    intro skip at_ sb reports some
    simp [scanStringBody, Scan.unfinished]
  | cons c rest ih =>
    intro skip at_ sb reports some
    unfold scanStringBody
    split
    · exact ih _ _ _ _ some
    · split
      · exact ⟨rfl, some⟩
      · split
        · split
          · simp [Scan.unfinished]
          · split
            · exact ih _ _ _ _ some
            · exact ih _ _ _ _ (by simp)
        · split
          · simp
          · exact ih _ _ _ _ some

theorem scanStringBody_forgives (whole s : Bytes) : ∀ skip at_ sb,
    Forgives whole (scanStringBody false skip at_ sb [] s) (scanStringBody true skip at_ sb [] s) := by
  induction s with
  | nil => intro skip at_ sb; exact unfinished_forgives (.inr (.inl rfl))
  | cons c rest ih =>
    intro skip at_ sb
    unfold scanStringBody
    split
    · exact ih _ _ _
    · split
      · exact .same (by simp) rfl rfl
      · split
        · split
          · exact unfinished_forgives (.inr (.inl rfl))
          · split
            · exact ih _ _ _
            · -- A bad escape ends the strict token and marks the tolerant one.
              rename_i esc after _ message kept width _
              have reported := scanStringBody_reported (esc :: after) (1 + width) (at_ + 1)
                (sb ++ kept) ([] ++ [(at_ + 1, message)]) (by simp)
              exact .flawed rfl rfl (.reported reported.2 (.inl reported.1))
        · split
          · exact .flawed rfl rfl (.reported (by simp) (.inl rfl))
          · exact ih _ _ _

theorem scanBytesBody_forgives (whole : Bytes) (limit : Nat) (body s : Bytes) : ∀ count,
    Forgives whole (scanBytesBody false limit body count s) (scanBytesBody true limit body count s) := by
  induction s with
  | nil => intro count; exact unfinished_forgives (.inr (.inr rfl))
  | cons c rest ih =>
    intro count
    unfold scanBytesBody
    split
    · exact .flawed rfl rfl (.illegal rfl)
    · split
      · by_cases fails : (base64DecodeLenient (body.take count)).toOption = none
        · simp only [fails, Option.isNone_none, Bool.not_false, Bool.and_true, Bool.not_true,
            Bool.false_eq_true, if_true, if_false]
          exact .flawed rfl rfl (.undecodable rfl fails)
        · have decodes : (base64DecodeLenient (body.take count)).toOption.isNone = false := by
            rw [Option.isNone_eq_false_iff, Option.isSome_iff_ne_none]
            exact fails
          simp only [decodes, Bool.and_false, Bool.false_eq_true, if_false]
          exact .same (by simp) rfl rfl
      · split
        · exact .flawed rfl rfl (.reported (by simp) (.inr rfl))
        · exact ih _

theorem scanMagnitude_reports (neg : Bool) (s : Bytes) (digitStart : Nat) :
    (scanMagnitude neg s digitStart).reports = [] := by
  simp only [scanMagnitude, scanTimestamp, scanDuration, scanFloat, scanNumberToken]
  repeat' split
  all_goals rfl

theorem scanNumber_reports (s : Bytes) : (scanNumber s).reports = [] := by
  rw [scanNumber]
  repeat' split
  all_goals first
    | exact scanMagnitude_reports _ _ _
    | rfl

theorem scanDirective_reports (s : Bytes) : (scanDirective s).reports = [] := by
  simp only [scanDirective]
  repeat' split
  all_goals rfl

theorem scanIdent_reports (s : Bytes) : (scanIdent s).reports = [] := by
  simp only [scanIdent]
  repeat' split
  all_goals rfl

theorem scan_forgives (limit : Nat) (s : Bytes) :
    Forgives s (scan false limit s) (scan true limit s) := by
  simp only [scan]
  cases leadOf s with
  | blockComment => exact scanBlockComment_forgives s
  | tripleString => exact scanTripleString_forgives s
  | string => exact scanStringBody_forgives s _ 0 1 []
  | bytes => exact scanBytesBody_forgives s limit _ _ 0
  | directive => exact .refl (scanDirective_reports s)
  | number => exact .refl (scanNumber_reports s)
  | ident => exact .refl (scanIdent_reports s)
  | newline | lineComment | punctuation | other => exact .refl rfl

namespace Lexer

@[simp] theorem rest_advance (l : Lexer) (n : Nat) : (l.advance n).rest = l.rest.drop n := by
  simp only [rest, advance, List.drop_drop, List.length_take, List.length_drop]
  by_cases within : n ≤ l.input.length - l.pos
  · rw [Nat.min_eq_left within]
  · rw [Nat.min_eq_right (by omega), List.drop_eq_nil_of_le (by omega),
      List.drop_eq_nil_of_le (by omega)]

@[simp] theorem advance_zero (l : Lexer) : l.advance 0 = l := rfl

theorem rest_skipSpaces (l : Lexer) : l.skipSpaces.rest = l.rest.dropWhile isSpace := by
  rw [skipSpaces, rest_advance, drop_spanLength]

theorem skipSpaces_skipSpaces (l : Lexer) : l.skipSpaces.skipSpaces = l.skipSpaces := by
  have none_left : spanLength isSpace l.skipSpaces.rest = 0 := by
    rw [rest_skipSpaces, spanLength_dropWhile]
  rw [skipSpaces.eq_def l.skipSpaces, none_left, advance_zero]

theorem next_scan {l : Lexer} {c : UInt8} {rest : Bytes} (opens : l.rest = c :: rest)
    (start : isSpace c = false) :
    let found := scan l.tolerant l.maxBytesLiteral (c :: rest)
    l.next = ({ kind := found.kind, value := found.value, pos := l.currentPos, prec := found.prec },
      l.advance found.width,
      found.reports.map fun (offset, msg) => ⟨l.currentPos.after ((c :: rest).take offset), msg⟩) := by
  have none_ : spanLength isSpace l.rest = 0 := by
    rw [opens, spanLength_cons, start]
    rfl
  have same : l.skipSpaces = l := by rw [skipSpaces, none_, advance_zero]
  simp only [next, same, opens, List.isEmpty_cons, Bool.false_eq_true, if_false]

theorem next_rest (l : Lexer) :
    l.next.1.kind = .eof ∧ l.next.2.1.rest = [] ∨ l.next.2.1.rest.length < l.rest.length := by
  have spaces : l.skipSpaces.rest.length ≤ l.rest.length := by
    rw [rest_skipSpaces]
    exact (List.dropWhile_sublist _).length_le
  simp only [next]
  split
  · rename_i empty
    exact .inl ⟨rfl, List.isEmpty_iff.mp empty⟩
  · rename_i nonempty
    obtain ⟨c, rest, opens⟩ : ∃ c rest, l.skipSpaces.rest = c :: rest := by
      cases shape : l.skipSpaces.rest with
      | nil => simp [shape] at nonempty
      | cons c rest => exact ⟨c, rest, rfl⟩
    right
    have width := scan_width l.skipSpaces.tolerant l.skipSpaces.maxBytesLiteral c rest
    rw [rest_advance, List.length_drop]
    rw [opens] at spaces ⊢
    simp only [List.length_cons] at spaces ⊢
    omega

end Lexer

end Protowire.Pxf
