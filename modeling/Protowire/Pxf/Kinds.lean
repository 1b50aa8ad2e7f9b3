import Protowire.Pxf.Reading

/-!
Which kinds of token each scanner gives, told from how the token opens.
-/

namespace Protowire.Pxf

def Lead.gives : Lead → List TokenKind
  | .newline => [.newline]
  | .lineComment => [.comment]
  | .blockComment => [.comment, .illegal]
  | .tripleString | .string => [.string, .illegal]
  | .bytes => [.bytes, .illegal]
  | .punctuation kind => [kind]
  | .directive => [.illegal, .atType, .atDataset, .atProto, .atDirective]
  | .number => [.illegal, .float, .int, .timestamp, .duration]
  | .ident => [.bool, .null, .ident]
  | .other => [.illegal]

theorem unfinished_kind {tolerant : Bool} {message : Bytes} {width : Nat} {kept : Scan}
    {kinds : List TokenKind} (illegal : TokenKind.illegal ∈ kinds) (kind : kept.kind ∈ kinds) :
    (Scan.unfinished tolerant message width kept).kind ∈ kinds := by
  unfold Scan.unfinished
  split
  · exact kind
  · exact illegal

theorem scanStringBody_kind (tolerant : Bool) (s : Bytes) : ∀ skip at_ sb reports,
    (scanStringBody tolerant skip at_ sb reports s).kind ∈ [TokenKind.string, .illegal] := by
  induction s with
  | nil =>
    intro skip at_ sb reports
    exact unfinished_kind (by simp) (by simp)
  | cons c rest ih =>
    intro skip at_ sb reports
    unfold scanStringBody
    split
    · exact ih _ _ _ _
    split
    · simp
    split
    · split
      · exact unfinished_kind (by simp) (by simp)
      · split
        · exact ih _ _ _ _
        · split
          · exact ih _ _ _ _
          · simp [Scan.illegal]
    split
    · split <;> simp [Scan.illegal]
    · exact ih _ _ _ _

theorem scanBytesBody_kind (tolerant : Bool) (limit : Nat) (body s : Bytes) : ∀ count,
    (scanBytesBody tolerant limit body count s).kind ∈ [TokenKind.bytes, .illegal] := by
  induction s with
  | nil =>
    intro count
    exact unfinished_kind (by simp) (by simp)
  | cons c rest ih =>
    intro count
    unfold scanBytesBody
    split
    · simp [Scan.illegal]
    split
    · dsimp only
      split <;> simp [Scan.illegal]
    split
    · split <;> simp [Scan.illegal]
    · exact ih _

theorem scanMagnitude_kind (neg : Bool) (s : Bytes) (digitStart : Nat) :
    (scanMagnitude neg s digitStart).kind ∈ Lead.number.gives := by
  simp only [scanMagnitude, scanTimestamp, scanDuration, scanFloat, scanNumberToken]
  split
  · split <;> simp [Scan.illegal, Scan.verbatim, Lead.gives]
  split
  · split <;> simp [Scan.illegal, Scan.verbatim, Lead.gives]
  split <;> simp [Lead.gives]

theorem scanNumber_kind (s : Bytes) : (scanNumber s).kind ∈ Lead.number.gives := by
  simp only [scanNumber]
  split
  · split
    · simp [Scan.verbatim, Lead.gives]
    split
    · simp [Scan.illegal, Lead.gives]
    split
    · simp [Scan.illegal, Lead.gives]
    · exact scanMagnitude_kind _ _ _
  · exact scanMagnitude_kind _ _ _

theorem scan_kind (tolerant : Bool) (limit : Nat) (s : Bytes) :
    (scan tolerant limit s).kind ∈ (leadOf s).gives := by
  unfold scan
  cases leadOf s with
  | newline => simp [Lead.gives]
  | lineComment => simp [scanLineComment, Scan.verbatim, Lead.gives]
  | blockComment =>
    simp only [scanBlockComment]
    split
    · simp [Scan.verbatim, Lead.gives]
    · exact unfinished_kind (by simp [Lead.gives]) (by simp [Scan.verbatim, Lead.gives])
  | tripleString =>
    simp only [scanTripleString]
    split
    · simp [Lead.gives]
    · exact unfinished_kind (by simp [Lead.gives]) (by simp [Lead.gives])
  | string => exact scanStringBody_kind _ _ _ _ _ _
  | bytes => exact scanBytesBody_kind _ _ _ _ _
  | punctuation kind => simp [Scan.verbatim, Lead.gives]
  | directive =>
    simp only [scanDirective]
    split_ifs <;> simp [Scan.illegal, Lead.gives]
  | number => exact scanNumber_kind s
  | ident =>
    simp only [scanIdent]
    split_ifs <;> simp [Scan.verbatim, Lead.gives]
  | other => simp [Scan.illegal, Lead.gives]

theorem scan_brace {tolerant : Bool} {limit : Nat} {s : Bytes}
    (brace : (scan tolerant limit s).kind = .lBrace) : (scan tolerant limit s).width = 1 := by
  have given := scan_kind tolerant limit s
  rw [brace] at given
  unfold scan
  cases lead : leadOf s with
  | punctuation kind => rfl
  | _ => simp [lead, Lead.gives] at given

theorem scan_comment {tolerant : Bool} {limit : Nat} {s : Bytes}
    (comment : (scan tolerant limit s).kind = .comment) :
    (scan tolerant limit s).value = s.take (scan tolerant limit s).width := by
  have given := scan_kind tolerant limit s
  rw [comment] at given
  unfold scan at comment ⊢
  cases lead : leadOf s with
  | lineComment => rfl
  | blockComment =>
    rw [lead] at comment
    simp only [scanBlockComment] at comment ⊢
    split
    · rfl
    · rename_i none_
      rw [none_] at comment
      simp only [Scan.unfinished] at comment ⊢
      split
      · rfl
      · rename_i strict
        rw [if_neg strict] at comment
        cases comment
  | punctuation kind =>
    rw [lead] at given
    have isComment : kind = .comment := by simpa [Lead.gives, eq_comm] using given
    subst isComment
    rfl
  | _ => simp [lead, Lead.gives] at given

end Protowire.Pxf
