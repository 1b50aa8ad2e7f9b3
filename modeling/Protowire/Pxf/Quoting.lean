import Mathlib.Tactic.Ring
import Protowire.Detail.Runes
import Protowire.Pxf.EncodeCore
import Protowire.Pxf.Lexer

/-!
Quoted strings. The two writers escape different bytes; the string scanner reads what either
writes as the bytes it was written from.
-/

namespace Protowire.Pxf

def ReadsAs (written value : Bytes) : Prop :=
  ∀ tolerant at_ sb reports more,
    scanStringBody tolerant 0 at_ sb reports (written ++ more) =
      scanStringBody tolerant 0 (at_ + written.length) (sb ++ value) reports more

theorem readsAs_nil : ReadsAs [] [] := by
  intro tolerant at_ sb reports more
  simp

theorem ReadsAs.append {written value rest following : Bytes} (first : ReadsAs written value)
    (second : ReadsAs rest following) : ReadsAs (written ++ rest) (value ++ following) := by
  intro tolerant at_ sb reports more
  rw [List.append_assoc, first, second]
  simp [Nat.add_assoc]

theorem readsAs_ite {test : Prop} [Decidable test] {first second value : Bytes}
    (holds : test → ReadsAs first value) (fails : ¬test → ReadsAs second value) :
    ReadsAs (if test then first else second) value := by
  split
  · exact holds ‹_›
  · exact fails ‹_›

theorem readsAs_byte {c : UInt8} (notQuote : c ≠ 0x22) (notEscape : c ≠ 0x5C) (notBreak : c ≠ 0x0A) :
    ReadsAs [c] [c] := by
  intro tolerant at_ sb reports more
  rw [List.singleton_append, scanStringBody.eq_def]
  simp only [notQuote, notEscape, notBreak, if_false, List.length_singleton]

theorem readsAs_self {s : Bytes} (plain : ∀ c ∈ s, c ≠ 0x22 ∧ c ≠ 0x5C ∧ c ≠ 0x0A) : ReadsAs s s := by
  induction s with
  | nil => exact readsAs_nil
  | cons c rest ih =>
    obtain ⟨notQuote, notEscape, notBreak⟩ := plain c (by simp)
    exact (readsAs_byte notQuote notEscape notBreak).append
      (ih fun c member => plain c (by simp [member]))

theorem scanStringBody_skip (tolerant : Bool) (at_ : Nat) (sb : Bytes) (reports : List (Nat × Bytes))
    (s more : Bytes) :
    scanStringBody tolerant s.length at_ sb reports (s ++ more) =
      scanStringBody tolerant 0 (at_ + s.length) sb reports more := by
  induction s generalizing at_ with
  | nil => rfl
  | cons c rest ih =>
    rw [List.cons_append, List.length_cons, scanStringBody, ih]
    congr 1
    omega

theorem readsAs_escape {esc : UInt8} {digits value : Bytes}
    (good : ∀ more, readEscape esc (digits ++ more) = .good value digits.length) :
    ReadsAs (0x5C :: esc :: digits) value := by
  intro tolerant at_ sb reports more
  have skipped := scanStringBody_skip tolerant (at_ + 1) (sb ++ value) reports (esc :: digits) more
  simp only [List.cons_append, List.length_cons] at skipped ⊢
  rw [scanStringBody, if_neg (by decide), if_pos rfl, good]
  simp only [Nat.add_comm 1]
  rw [skipped]
  congr 1
  omega

theorem hexVal_hexDigit : ∀ value : Fin 16, hexVal (hexDigit value) = some value.val := by
  decide

theorem hexVal_digitOf (value : Nat) : hexVal (hexDigit (value % 16)) = some (value % 16) :=
  hexVal_hexDigit ⟨value % 16, Nat.mod_lt _ (by decide)⟩

theorem appendHex_length (value digits : Nat) : (appendHex value digits).length = digits := by
  induction digits with
  | zero => rfl
  | succ digits ih => rw [appendHex, List.length_cons, ih]

theorem appendHex_digits {value digits : Nat} {c : UInt8} (member : c ∈ appendHex value digits) :
    (hexVal c).isSome = true := by
  induction digits with
  | zero => simp [appendHex] at member
  | succ digits ih =>
    obtain rfl | later := List.mem_cons.mp member
    · rw [hexVal_digitOf]
      rfl
    · exact ih later

theorem hexDigitsValue_appendHex (value digits high : Nat) :
    hexDigitsValue high (appendHex value digits) = high * 16 ^ digits + value % 16 ^ digits := by
  induction digits generalizing high with
  | zero => simp [appendHex, hexDigitsValue, Nat.mod_one]
  | succ digits ih =>
    rw [appendHex, hexDigitsValue, hexVal_digitOf, ih, Option.getD_some, Nat.pow_succ,
      Nat.mod_mul]
    ring

theorem readHexRune_appendHex (value digits : Nat) (more : Bytes) :
    readHexRune digits (appendHex value digits ++ more) = (some (value % 16 ^ digits), digits) := by
  have length := appendHex_length value digits
  have all : (appendHex value digits).takeWhile (fun c => (hexVal c).isSome) =
      appendHex value digits :=
    List.takeWhile_eq_self_iff.mpr fun c member => appendHex_digits member
  rw [readHexRune, if_neg (by simp [length])]
  simp only [List.take_left' length, all, length, if_true, hexDigitsValue_appendHex]
  simp

theorem appendHex_byte (c : UInt8) :
    appendHex c.toNat 2 = [hexDigit (c.toNat / 16), hexDigit (c.toNat % 16)] := by
  have bound := c.toNat_lt
  simp only [appendHex, Nat.pow_one, Nat.pow_zero, Nat.div_one]
  rw [Nat.mod_eq_of_lt (by omega)]

theorem readRuneEscape_appendHex {rune digits : Nat} (fits : rune < 16 ^ digits)
    (valid : isValidRune rune = true) (kept more : Bytes) :
    readRuneEscape digits kept (appendHex rune digits ++ more) =
      .good (encodeRune rune) (appendHex rune digits).length := by
  simp only [readRuneEscape, readHexRune_appendHex, Nat.mod_eq_of_lt fits, valid, if_true,
    appendHex_length]

theorem readsAs_hexByte (c : UInt8) :
    ReadsAs (text "\\x" ++ [hexDigit (c.toNat / 16), hexDigit (c.toNat % 16)]) [c] := by
  have bound := c.toNat_lt
  have high := hexVal_digitOf (c.toNat / 16)
  rw [Nat.mod_eq_of_lt (by omega)] at high
  refine readsAs_escape fun more => ?_
  have byte : readHexByte ([hexDigit (c.toNat / 16), hexDigit (c.toNat % 16)] ++ more) = some c := by
    have same : (c.toNat / 16 * 16 + c.toNat % 16).toUInt8 = c := toUInt8_of_toNat (by omega)
    rw [readHexByte, List.cons_append, List.cons_append, if_neg (by simp), peek_succ, peek_zero,
      peek_zero, high, hexVal_digitOf]
    exact congrArg some same
  change readEscape 0x78 (hexDigit (c.toNat / 16) :: hexDigit (c.toNat % 16) :: more) = .good [c] 2
  rw [List.cons_append, List.cons_append, List.nil_append] at byte
  simp [readEscape, byte]

theorem encodeRune_ascii {c : UInt8} (ascii : c < 0x80) : encodeRune c.toNat = [c] := by
  have bound : c.toNat < 0x80 := ascii
  rw [encodeRune, if_pos (by omega)]
  simp

theorem readsAs_appendEscaped {rune : Nat} (valid : isValidRune rune = true)
    (plain : ∀ c ∈ encodeRune rune, c.toNat = rune ∨ 0x80 ≤ c) :
    ReadsAs (appendEscaped rune (encodeRune rune) 0x22) (encodeRune rune) := by
  have small {code : Nat} (same : rune = code) (ascii : code < 0x80) :
      encodeRune rune = [code.toUInt8] := by
    rw [same, encodeRune, if_pos (by omega)]
  rw [appendEscaped]
  refine readsAs_ite (fun quoted => ?_) fun unquoted => ?_
  · obtain quote | escape := quoted
    · rw [small quote (by decide), quote]
      exact readsAs_escape fun more => rfl
    · rw [small escape (by decide), escape]
      exact readsAs_escape fun more => rfl
  rw [not_or] at unquoted
  refine readsAs_ite (fun printed => ?_) fun _ => ?_
  · refine readsAs_self fun c member => ?_
    obtain ascii | wide := plain c member
    · refine ⟨fun same => unquoted.1 ?_, fun same => unquoted.2 ?_, fun same => ?_⟩
      · rw [← ascii, same]
      · rw [← ascii, same]
        rfl
      · rw [← ascii, same] at printed
        exact absurd printed (by decide)
    · refine ⟨?_, ?_, ?_⟩ <;> rintro rfl <;> exact absurd wide (by decide)
  iterate 7
    refine readsAs_ite (fun same => ?_) fun _ => ?_
    · rw [small same (by decide)]
      exact readsAs_escape fun more => rfl
  refine readsAs_ite (fun control => ?_) fun _ => ?_
  · have bound : rune < 0x80 := by omega
    obtain ⟨c, rfl⟩ : ∃ c : UInt8, rune = c.toNat := ⟨rune.toUInt8, by simp; omega⟩
    rw [encodeRune_ascii bound, appendHex_byte]
    exact readsAs_hexByte c
  have limit : rune ≤ 0x10FFFF := by
    simp only [isValidRune, Bool.and_eq_true, decide_eq_true_eq] at valid
    exact valid.1
  refine readsAs_ite (fun short => ?_) fun _ => ?_
  · exact readsAs_escape (readRuneEscape_appendHex short valid (text "\\u"))
  · have fits : rune < 16 ^ 8 := by omega
    exact readsAs_escape (readRuneEscape_appendHex fits valid (text "\\U"))

theorem readsAs_goQuoteBody (s : Bytes) : ReadsAs (goQuoteBody 0 s) s := by
  -- On the length: a rune of several bytes takes them all in one step.
  induction length : s.length using Nat.strongRecOn generalizing s with
  | ind n ih =>
    cases s with
    | nil => exact readsAs_nil
    | cons c rest =>
      rw [List.length_cons] at length
      rw [goQuoteBody]
      split
      · rename_i ascii
        have bound : c.toNat < 0x80 := ascii
        have first : ReadsAs (appendEscaped c.toNat (encodeRune c.toNat) 0x22)
            (encodeRune c.toNat) := by
          refine readsAs_appendEscaped ?_ fun d member => ?_
          · simp only [isValidRune, Bool.and_eq_true, Bool.or_eq_true, decide_eq_true_eq]
            omega
          · rw [encodeRune_ascii ascii, List.mem_singleton] at member
            exact .inl (by rw [member])
        rw [encodeRune_ascii ascii] at first
        exact first.append (ih rest.length (by omega) rest rfl)
      · cases decoded : decodeRune (c :: rest) with
        | none =>
          rw [appendHex_byte]
          exact (readsAs_hexByte c).append (ih rest.length (by omega) rest rfl)
        | some found =>
          obtain ⟨rune, width⟩ := found
          have wide := decodeRune_wide decoded
          have first : ReadsAs (appendEscaped rune (encodeRune rune) 0x22) (encodeRune rune) := by
            refine readsAs_appendEscaped wide.valid fun d member => .inr ?_
            rw [← wide.bytes] at member
            exact wide.plain d member
          have after : rest.drop (width - 1) = (c :: rest).drop width := by
            obtain ⟨past, rfl⟩ : ∃ past, width = past + 1 := ⟨width - 1, by have := wide.wide; omega⟩
            rfl
          have shorter : (rest.drop (width - 1)).length < n := by
            rw [List.length_drop]
            omega
          have joined := first.append (ih _ shorter (rest.drop (width - 1)) rfl)
          rw [← wide.bytes, after, List.take_append_drop, ← after] at joined
          simp only
          rw [goQuoteBody_skip]
          exact joined

theorem readsAs_emitStringByte (c : UInt8) : ReadsAs (emitStringByte c) [c] := by
  rw [emitStringByte]
  refine readsAs_ite (fun same => same ▸ readsAs_escape fun more => rfl) fun notQuote => ?_
  refine readsAs_ite (fun same => same ▸ readsAs_escape fun more => rfl) fun notEscape => ?_
  refine readsAs_ite (fun same => same ▸ readsAs_escape fun more => rfl) fun notBreak => ?_
  refine readsAs_ite (fun same => same ▸ readsAs_escape fun more => rfl) fun _ => ?_
  refine readsAs_ite (fun same => same ▸ readsAs_escape fun more => rfl) fun _ => ?_
  refine readsAs_ite (fun _ => readsAs_hexByte c) fun _ => ?_
  exact readsAs_byte notQuote notEscape notBreak

theorem readsAs_emitString (s : Bytes) : ReadsAs (s.flatMap emitStringByte) s := by
  induction s with
  | nil => exact readsAs_nil
  | cons c rest ih => exact (readsAs_emitStringByte c).append ih

theorem ReadsAs.head_ne {written value : Bytes} (reads : ReadsAs written value) :
    peek written 0 ≠ 0x22 := by
  intro quote
  cases written with
  | nil => exact absurd quote (by decide)
  | cons c rest =>
    -- A quote would end the string, where nothing follows it and the rest has no end.
    rw [peek_zero] at quote
    subst quote
    have kinds := congrArg Scan.kind (reads false 0 [] [] [])
    exact absurd kinds (by simp [scanStringBody, Scan.unfinished, Scan.illegal])

theorem next_quoted {l : Lexer} {written value more : Bytes} (reads : ReadsAs written value)
    (opens : l.rest = 0x22 :: written ++ [0x22] ++ more) (unquoted : more.head? ≠ some 0x22) :
    l.next.1.kind = .string ∧ l.next.1.value = value ∧ l.next.2.1.rest = more ∧ l.next.2.2 = [] := by
  have whole : l.rest = 0x22 :: (written ++ 0x22 :: more) := by
    rw [opens]
    simp
  have lead : leadOf (0x22 :: (written ++ 0x22 :: more)) = .string := by
    have single : ¬(peek (written ++ 0x22 :: more) 0 = 0x22 ∧ peek (written ++ 0x22 :: more) 1 = 0x22) := by
      rintro ⟨second, third⟩
      cases written with
      | nil =>
        cases more with
        | nil => exact absurd third (by decide)
        | cons c rest => exact unquoted (by simpa using third)
      | cons c rest => exact reads.head_ne second
    exact if_neg single
  have body : scan l.tolerant l.maxBytesLiteral (0x22 :: (written ++ 0x22 :: more)) =
      { kind := .string, value, width := 1 + written.length + 1 } := by
    rw [scan, lead]
    exact reads l.tolerant 1 [] [] (0x22 :: more)
  rw [Lexer.next_scan whole (by decide), body]
  refine ⟨rfl, rfl, ?_, rfl⟩
  have width : 1 + written.length + 1 = (0x22 :: (written ++ [0x22])).length := by
    simp
    omega
  have split : (0x22 :: (written ++ 0x22 :: more) : Bytes) = 0x22 :: (written ++ [0x22]) ++ more := by
    simp
  rw [Lexer.rest_advance, whole, split]
  exact List.drop_left' width.symm

/-- Any bytes, quoted in either way, are read back as one string token. -/
theorem quoted_readsBack (l : Lexer) (s more : Bytes)
    (quoted : l.rest = goQuote s ++ more ∨ l.rest = emitString s ++ more)
    (unquoted : more.head? ≠ some 0x22) :
    l.next.1.kind = .string ∧ l.next.1.value = s ∧ l.next.2.1.rest = more ∧ l.next.2.2 = [] := by
  obtain opens | opens := quoted
  · exact next_quoted (readsAs_goQuoteBody s) opens unquoted
  · exact next_quoted (readsAs_emitString s) opens unquoted

theorem quoted_readsBack_broken :
    ({ input := text "\"\\xff\\\"\\n\", x" } : Lexer).next.1.value = [0xFF, 0x22, 0x0A] :=
  (quoted_readsBack _ [0xFF, 0x22, 0x0A] (text ", x") (.inl (by decide +kernel)) (by decide)).2.1

end Protowire.Pxf
