import Protowire.Detail.Bytes
import Protowire.Detail.GoQuoteCore
import Protowire.Detail.Utf8

/-!
Runes and hex digits. A rune that is read from bytes is written as those bytes again.
-/

namespace Protowire

theorem toUInt8_of_toNat {n : Nat} {c : UInt8} (same : n = c.toNat) : n.toUInt8 = c := by
  rw [same]
  exact UInt8.ofNat_toNat

theorem continues_cons {c : UInt8} {rest : Bytes} {index : Nat} {lo hi : UInt8}
    (continued : continues (c :: rest) (index + 1) lo hi = true) :
    index < rest.length ∧ lo ≤ peek rest index ∧ peek rest index ≤ hi := by
  obtain ⟨inside, low, high⟩ := continues_eq_true.mp continued
  rw [peek_succ] at low high
  exact ⟨by simpa using inside, low, high⟩

structure WideRune (s : Bytes) (rune width : Nat) : Prop where
  bytes : s.take width = encodeRune rune
  inside : width ≤ s.length
  wide : 2 ≤ width
  high : 0x80 ≤ rune
  valid : isValidRune rune = true
  plain : ∀ c ∈ s.take width, 0x80 ≤ c

theorem wideRune_of {s rest : Bytes} {rune : Nat} (written : encodeRune rune = s)
    (wide : 2 ≤ s.length) (plain : ∀ c ∈ s, 0x80 ≤ c.toNat)
    (valid : 0x80 ≤ rune ∧ (rune < 0xD800 ∨ 0xDFFF < rune ∧ rune ≤ 0x10FFFF)) :
    WideRune (s ++ rest) rune s.length := by
  refine ⟨by rw [List.take_left' rfl, written], by simp, wide, valid.1, ?_, ?_⟩
  · simp only [isValidRune, Bool.and_eq_true, Bool.or_eq_true, decide_eq_true_eq]
    omega
  · rw [List.take_left' rfl]
    exact plain

theorem wideRune_two {a b : UInt8} (lead : 0xC2 ≤ a ∧ a ≤ 0xDF) (follows : 0x80 ≤ b ∧ b ≤ 0xBF)
    (rest : Bytes) :
    WideRune (a :: b :: rest) (a.toNat % 0x20 * 0x40 + b.toNat % 0x40) 2 := by
  simp only [UInt8.le_iff_toNat_le, UInt8.reduceToNat] at lead follows
  refine wideRune_of (s := [a, b]) ?_ (by simp) (by simp; omega) (by omega)
  rw [encodeRune, if_neg (by omega), if_pos (by omega),
    toUInt8_of_toNat (by omega : _ = a.toNat), toUInt8_of_toNat (by omega : _ = b.toNat)]

theorem second_bounds {a b low high lead lead' : UInt8}
    (second : (if a = lead then low else 0x80) ≤ b ∧ b ≤ (if a = lead' then high else 0xBF))
    (inside : 0x80 ≤ low ∧ high ≤ 0xBF) :
    (a.toNat = lead.toNat → low.toNat ≤ b.toNat) ∧ (a.toNat = lead'.toNat → b.toNat ≤ high.toNat) ∧
      0x80 ≤ b.toNat ∧ b.toNat ≤ 0xBF := by
  simp only [UInt8.toNat_inj, ← UInt8.le_iff_toNat_le]
  refine ⟨fun same => by simpa [same] using second.1, fun same => by simpa [same] using second.2,
    ?_, ?_⟩
  · refine Nat.le_trans ?_ second.1
    split
    · exact inside.1
    · exact Nat.le_refl _
  · refine Nat.le_trans second.2 ?_
    split
    · exact inside.2
    · exact Nat.le_refl _

theorem wideRune_three {a b c : UInt8} (lead : 0xE0 ≤ a ∧ a ≤ 0xEF)
    (second : (if a = 0xE0 then 0xA0 else 0x80) ≤ b ∧ b ≤ (if a = 0xED then 0x9F else 0xBF))
    (third : 0x80 ≤ c ∧ c ≤ 0xBF) (rest : Bytes) :
    WideRune (a :: b :: c :: rest)
      (a.toNat % 0x10 * 0x1000 + b.toNat % 0x40 * 0x40 + c.toNat % 0x40) 3 := by
  have bounds := second_bounds second (by decide)
  simp only [UInt8.le_iff_toNat_le, UInt8.reduceToNat] at lead third bounds
  refine wideRune_of (s := [a, b, c]) ?_ (by simp) (by simp; omega) (by omega)
  rw [encodeRune, if_neg (by omega), if_neg (by omega), if_pos (by omega),
    toUInt8_of_toNat (by omega : _ = a.toNat), toUInt8_of_toNat (by omega : _ = b.toNat),
    toUInt8_of_toNat (by omega : _ = c.toNat)]

theorem wideRune_four {a b c d : UInt8} (lead : 0xF0 ≤ a ∧ a ≤ 0xF4)
    (second : (if a = 0xF0 then 0x90 else 0x80) ≤ b ∧ b ≤ (if a = 0xF4 then 0x8F else 0xBF))
    (third : 0x80 ≤ c ∧ c ≤ 0xBF) (fourth : 0x80 ≤ d ∧ d ≤ 0xBF) (rest : Bytes) :
    WideRune (a :: b :: c :: d :: rest)
      (a.toNat % 0x08 * 0x40000 + b.toNat % 0x40 * 0x1000 + c.toNat % 0x40 * 0x40 +
        d.toNat % 0x40) 4 := by
  have bounds := second_bounds second (by decide)
  simp only [UInt8.le_iff_toNat_le, UInt8.reduceToNat] at lead third fourth bounds
  refine wideRune_of (s := [a, b, c, d]) ?_ (by simp) (by simp; omega) (by omega)
  rw [encodeRune, if_neg (by omega), if_neg (by omega), if_neg (by omega),
    toUInt8_of_toNat (by omega : _ = a.toNat), toUInt8_of_toNat (by omega : _ = b.toNat),
    toUInt8_of_toNat (by omega : _ = c.toNat), toUInt8_of_toNat (by omega : _ = d.toNat)]

theorem three_le_length : ∀ {s : Bytes}, 2 < s.length → ∃ b c d rest, s = b :: c :: d :: rest
  | b :: c :: d :: rest, _ => ⟨b, c, d, rest, rfl⟩

theorem decodeRune_wide {s : Bytes} {rune width : Nat} (decoded : decodeRune s = some (rune, width)) :
    WideRune s rune width := by
  cases s with
  | nil => simp [decodeRune, peek] at decoded
  | cons a rest =>
    have bounds {lo hi c : UInt8} : (decide (lo ≤ c) && decide (c ≤ hi)) = true → lo ≤ c ∧ c ≤ hi := by
      simp
    change (if 0xC2 ≤ a && a ≤ 0xDF && continues (a :: rest) 1 0x80 0xBF then _
      else if 0xE0 ≤ a && a ≤ 0xEF then if _ then _ else none
      else if 0xF0 ≤ a && a ≤ 0xF4 then if _ then _ else none
      else none) = _ at decoded
    by_cases two : (0xC2 ≤ a && a ≤ 0xDF && continues (a :: rest) 1 0x80 0xBF) = true
    · rw [if_pos two] at decoded
      obtain ⟨lead, follows⟩ := Bool.and_eq_true_iff.mp two
      obtain ⟨inside, follows⟩ := continues_cons follows
      obtain ⟨b, rest, rfl⟩ := List.exists_cons_of_length_pos inside
      cases decoded
      exact wideRune_two (bounds lead) follows rest
    · rw [if_neg two] at decoded
      by_cases lead : (0xE0 ≤ a && a ≤ 0xEF) = true
      · rw [if_pos lead] at decoded
        obtain ⟨continued, decoded⟩ := Option.ite_none_right_eq_some.mp decoded
        obtain ⟨second, third⟩ := Bool.and_eq_true_iff.mp continued
        obtain ⟨-, second⟩ := continues_cons second
        obtain ⟨inside, third⟩ := continues_cons third
        obtain ⟨b, rest, rfl⟩ := List.exists_cons_of_length_pos (Nat.zero_lt_of_lt inside)
        obtain ⟨c, rest, rfl⟩ := List.exists_cons_of_length_pos (Nat.lt_of_succ_lt_succ inside)
        cases decoded
        exact wideRune_three (bounds lead) second third rest
      · rw [if_neg lead] at decoded
        by_cases lead : (0xF0 ≤ a && a ≤ 0xF4) = true
        · rw [if_pos lead] at decoded
          obtain ⟨continued, decoded⟩ := Option.ite_none_right_eq_some.mp decoded
          obtain ⟨continued, fourth⟩ := Bool.and_eq_true_iff.mp continued
          obtain ⟨second, third⟩ := Bool.and_eq_true_iff.mp continued
          obtain ⟨-, second⟩ := continues_cons second
          obtain ⟨-, third⟩ := continues_cons third
          obtain ⟨inside, fourth⟩ := continues_cons fourth
          obtain ⟨b, c, d, rest, rfl⟩ := three_le_length inside
          cases decoded
          exact wideRune_four (bounds lead) second third fourth rest
        · rw [if_neg lead] at decoded
          cases decoded

theorem goQuoteBody_skip (skip : Nat) (s : Bytes) :
    goQuoteBody skip s = goQuoteBody 0 (s.drop skip) := by
  induction s generalizing skip with
  | nil => cases skip <;> rfl
  | cons c rest ih =>
    cases skip with
    | zero => rfl
    | succ skip =>
      rw [goQuoteBody, ih]
      rfl

theorem isValidRune_iff {rune : Nat} : isValidRune rune = true ↔ rune.isValidChar := by
  simp only [isValidRune, Nat.isValidChar, Bool.and_eq_true, Bool.or_eq_true, decide_eq_true_eq]
  omega

theorem encodeRune_char (ch : Char) : encodeRune ch.toNat = String.utf8EncodeChar ch := by
  have valid : ch.toNat.isValidChar := ch.valid
  have byte {m n : Nat} (same : m = n) : m.toUInt8 = UInt8.ofNat n := congrArg _ same
  unfold Nat.isValidChar at valid
  change encodeRune ch.toNat = if ch.toNat ≤ 0x7F then _ else if ch.toNat ≤ 0x7FF then _ else
    if ch.toNat ≤ 0xFFFF then _ else _
  rw [encodeRune]
  split
  · rfl
  split
  · simp only [List.cons.injEq, and_true]
    exact ⟨byte (by change _ = ch.toNat / 64 % 32 + 192; omega), byte (Nat.add_comm _ _)⟩
  split
  · simp only [List.cons.injEq, and_true]
    exact ⟨byte (by change _ = ch.toNat / 4096 % 16 + 224; omega), byte (Nat.add_comm _ _),
      byte (Nat.add_comm _ _)⟩
  · simp only [List.cons.injEq, and_true]
    exact ⟨byte (by change _ = ch.toNat / 262144 % 8 + 240; omega), byte (Nat.add_comm _ _),
      byte (Nat.add_comm _ _), byte (Nat.add_comm _ _)⟩

theorem encodeRune_character {rune : Nat} (valid : isValidRune rune = true) :
    Character (encodeRune rune) := by
  rw [isValidRune_iff, Nat.isValidChar] at valid
  have byte {n : Nat} (small : n < 256) : n.toUInt8.toNat = n := Nat.mod_eq_of_lt small
  rw [encodeRune]
  split
  · refine .one ?_
    rw [UInt8.lt_iff_toNat_lt, byte (by omega)]
    simp
    omega
  split
  · refine .two ?_ ?_ <;> simp only [Continues, UInt8.le_iff_toNat_le, UInt8.reduceToNat]
    · rw [byte (by omega)]
      omega
    · rw [byte (by omega)]
      omega
  split
  · refine .three ?_ ?_ ?_ <;>
      simp only [Continues, UInt8.le_iff_toNat_le, UInt8.reduceToNat, ← UInt8.toNat_inj]
    · rw [byte (by omega)]
      omega
    · rw [byte (by omega), byte (by omega)]
      split <;> split <;> simp only [UInt8.reduceToNat] <;> omega
    · rw [byte (by omega)]
      omega
  · refine .four ?_ ?_ ?_ ?_ <;>
      simp only [Continues, UInt8.le_iff_toNat_le, UInt8.reduceToNat, ← UInt8.toNat_inj]
    · rw [byte (by omega)]
      omega
    · rw [byte (by omega), byte (by omega)]
      split <;> split <;> simp only [UInt8.reduceToNat] <;> omega
    · rw [byte (by omega)]
      omega
    · rw [byte (by omega)]
      omega

theorem exists_char {rune : Nat} (valid : rune.isValidChar) : ∃ ch : Char, ch.toNat = rune :=
  ⟨Char.ofNatAux rune valid, rfl⟩

theorem Character.encodes {c : Bytes} (character : Character c) :
    ∃ ch : Char, c = String.utf8EncodeChar ch := by
  have wide {rune width : Nat} (known : WideRune c rune width) (whole : width = c.length) :
      ∃ ch : Char, c = String.utf8EncodeChar ch := by
    obtain ⟨ch, rfl⟩ := exists_char (isValidRune_iff.mp known.valid)
    have bytes := known.bytes
    rw [whole, List.take_length] at bytes
    exact ⟨ch, bytes.trans (encodeRune_char ch)⟩
  cases character with
  | one low =>
    rename_i c
    have small : c.toNat < 0x80 := low
    obtain ⟨ch, same⟩ : ∃ ch : Char, ch.toNat = c.toNat := exists_char (.inl (by omega))
    refine ⟨ch, ?_⟩
    rw [← encodeRune_char, same, encodeRune, if_pos (by omega), toUInt8_of_toNat rfl]
  | two lead second => exact wide (wideRune_two lead second []) rfl
  | three lead second third => exact wide (wideRune_three lead second third []) rfl
  | four lead second third fourth => exact wide (wideRune_four lead second third fourth []) rfl

def decodesFrom : Nat → Bytes → Bool
  | _, [] => true
  | skip + 1, _ :: rest => decodesFrom skip rest
  | 0, c :: rest =>
    if c < 0x80 then decodesFrom 0 rest
    else
      match decodeRune (c :: rest) with
      | none => false
      | some (_, width) => decodesFrom (width - 1) rest

theorem decodesFrom_eq (skip : Nat) (s : Bytes) : decodesFrom skip s = isValidUTF8From skip s := by
  induction s generalizing skip with
  | nil => cases skip <;> rfl
  | cons c rest ih =>
    cases skip with
    | succ skip => exact ih skip
    | zero =>
      have read : decodeRune (c :: rest) =
          if 0xC2 ≤ c && c ≤ 0xDF && continues (c :: rest) 1 0x80 0xBF then some (_, 2)
          else if 0xE0 ≤ c && c ≤ 0xEF then
            if continues (c :: rest) 1 (if c = 0xE0 then 0xA0 else 0x80)
                (if c = 0xED then 0x9F else 0xBF) && continues (c :: rest) 2 0x80 0xBF then
              some (_, 3)
            else none
          else if 0xF0 ≤ c && c ≤ 0xF4 then
            if continues (c :: rest) 1 (if c = 0xF0 then 0x90 else 0x80)
                (if c = 0xF4 then 0x8F else 0xBF) && continues (c :: rest) 2 0x80 0xBF &&
                continues (c :: rest) 3 0x80 0xBF then some (_, 4)
            else none
          else none := rfl
      simp only [decodesFrom, isValidUTF8From, read, Bool.and_eq_true, decide_eq_true_eq, ih]
      by_cases low : c < 0x80
      · rw [if_pos low, if_pos low]
      rw [if_neg low, if_neg low]
      by_cases two : 0xC2 ≤ c ∧ c ≤ 0xDF
      · have past : ¬ 0xE0 ≤ c ∧ ¬ 0xF0 ≤ c := by grind
        cases continues (c :: rest) 1 0x80 0xBF <;> simp [two, past]
      by_cases three : 0xE0 ≤ c ∧ c ≤ 0xEF
      · cases continues (c :: rest) 1 (if c = 0xE0 then 0xA0 else 0x80)
            (if c = 0xED then 0x9F else 0xBF) <;>
          cases continues (c :: rest) 2 0x80 0xBF <;> simp [two, three]
      by_cases four : 0xF0 ≤ c ∧ c ≤ 0xF4
      · cases continues (c :: rest) 1 (if c = 0xF0 then 0x90 else 0x80)
            (if c = 0xF4 then 0x8F else 0xBF) <;>
          cases continues (c :: rest) 2 0x80 0xBF <;>
          cases continues (c :: rest) 3 0x80 0xBF <;> simp [two, three, four]
      · simp [two, three, four]

/-- The accepted texts are the encodings of scalar values one after another, and those in which
the quoting code's walk meets a rune at every byte past ASCII. -/
theorem isValidUTF8_exact (s : Bytes) :
    (isValidUTF8 s = true ↔ ∃ chars : List Char, s = chars.flatMap String.utf8EncodeChar) ∧
      (isValidUTF8 s = true ↔ decodesFrom 0 s = true) := by
  refine ⟨⟨fun valid => ?_, ?_⟩, by rw [decodesFrom_eq, isValidUTF8]⟩
  · induction s, valid using validUTF8_induction with
    | nil => exact ⟨[], rfl⟩
    | append c rest character valid ih =>
      obtain ⟨ch, rfl⟩ := character.encodes
      obtain ⟨chars, rfl⟩ := ih
      exact ⟨ch :: chars, rfl⟩
  · rintro ⟨chars, rfl⟩
    induction chars with
    | nil => rfl
    | cons ch rest ih =>
      have valid : ch.toNat.isValidChar := ch.valid
      have character := encodeRune_character (isValidRune_iff.mpr valid)
      rw [List.flatMap_cons, ← encodeRune_char, isValidUTF8_append character]
      exact ih

end Protowire
