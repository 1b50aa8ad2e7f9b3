import Mathlib.Data.List.DropRight
import Mathlib.Data.List.GetD
import Mathlib.Data.List.Induction
import Protowire.Detail.GoQuoteCore

/-!
Valid UTF-8 is characters one after another, so a text can be cut only between two of them: before
a byte that does not continue a character.
-/

namespace Protowire

def Continues (c : UInt8) : Prop := 0x80 ≤ c ∧ c ≤ 0xBF

instance (c : UInt8) : Decidable (Continues c) := inferInstanceAs (Decidable (_ ∧ _))

set_option maxRecDepth 4000 in
theorem continues_table : ∀ c : Fin 256,
    (UInt8.ofNat c.val &&& 0xC0 = 0x80 ↔ Continues (UInt8.ofNat c.val)) := by
  decide

theorem continues_iff (c : UInt8) : c &&& 0xC0 = 0x80 ↔ Continues c := by
  have entry := continues_table ⟨c.toNat, c.toNat_lt⟩
  rwa [UInt8.ofNat_toNat] at entry

inductive Character : Bytes → Prop where
  | one {c : UInt8} (low : c < 0x80) : Character [c]
  | two {c d : UInt8} (lead : 0xC2 ≤ c ∧ c ≤ 0xDF) (second : Continues d) : Character [c, d]
  | three {c d e : UInt8} (lead : 0xE0 ≤ c ∧ c ≤ 0xEF)
      (second : (if c = 0xE0 then 0xA0 else 0x80) ≤ d ∧ d ≤ if c = 0xED then 0x9F else 0xBF)
      (third : Continues e) : Character [c, d, e]
  | four {c d e f : UInt8} (lead : 0xF0 ≤ c ∧ c ≤ 0xF4)
      (second : (if c = 0xF0 then 0x90 else 0x80) ≤ d ∧ d ≤ if c = 0xF4 then 0x8F else 0xBF)
      (third : Continues e) (fourth : Continues f) : Character [c, d, e, f]

@[simp] theorem isValidUTF8_nil : isValidUTF8 [] = true := rfl

theorem isValidUTF8_one {c : UInt8} (low : c < 0x80) (rest : Bytes) :
    isValidUTF8 (c :: rest) = isValidUTF8 rest := by
  rw [isValidUTF8, isValidUTF8From]
  simp only [if_pos low]
  rfl

theorem isValidUTF8_two {c : UInt8} (lead : 0xC2 ≤ c ∧ c ≤ 0xDF) (rest : Bytes) :
    isValidUTF8 (c :: rest) =
      (continues (c :: rest) 1 0x80 0xBF && isValidUTF8From 1 rest) := by
  have high : ¬ c < 0x80 := by grind
  rw [isValidUTF8, isValidUTF8From]
  simp only [if_neg high, lead.1, lead.2, decide_true, Bool.and_self, if_true]

theorem isValidUTF8_three {c : UInt8} (lead : 0xE0 ≤ c ∧ c ≤ 0xEF) (rest : Bytes) :
    isValidUTF8 (c :: rest) =
      (continues (c :: rest) 1 (if c = 0xE0 then 0xA0 else 0x80)
          (if c = 0xED then 0x9F else 0xBF) &&
        continues (c :: rest) 2 0x80 0xBF && isValidUTF8From 2 rest) := by
  have high : ¬ c < 0x80 := by grind
  have past : ¬ c ≤ 0xDF := by grind
  rw [isValidUTF8, isValidUTF8From]
  simp [if_neg high, lead.1, lead.2, past]

theorem isValidUTF8_four {c : UInt8} (lead : 0xF0 ≤ c ∧ c ≤ 0xF4) (rest : Bytes) :
    isValidUTF8 (c :: rest) =
      (continues (c :: rest) 1 (if c = 0xF0 then 0x90 else 0x80)
          (if c = 0xF4 then 0x8F else 0xBF) &&
        continues (c :: rest) 2 0x80 0xBF && continues (c :: rest) 3 0x80 0xBF &&
        isValidUTF8From 3 rest) := by
  have high : ¬ c < 0x80 := by grind
  have past : ¬ c ≤ 0xDF := by grind
  have past' : ¬ c ≤ 0xEF := by grind
  rw [isValidUTF8, isValidUTF8From]
  simp [if_neg high, lead.1, lead.2, past, past']

theorem isValidUTF8_append {c : Bytes} (character : Character c) (rest : Bytes) :
    isValidUTF8 (c ++ rest) = isValidUTF8 rest := by
  cases character with
  | one low => exact isValidUTF8_one low rest
  | two lead second =>
    rw [List.cons_append, isValidUTF8_two lead]
    simp [continues, peek, second.1, second.2, isValidUTF8From, isValidUTF8]
  | three lead second third =>
    rw [List.cons_append, isValidUTF8_three lead]
    simp [continues, peek, second.1, second.2, third.1, third.2, isValidUTF8From, isValidUTF8]
  | four lead second third fourth =>
    rw [List.cons_append, isValidUTF8_four lead]
    simp [continues, peek, second.1, second.2, third.1, third.2, fourth.1, fourth.2,
      isValidUTF8From, isValidUTF8]

theorem continues_eq_true {s : Bytes} {index : Nat} {lo hi : UInt8} :
    continues s index lo hi = true ↔
      index < s.length ∧ lo ≤ peek s index ∧ peek s index ≤ hi := by
  simp [continues, and_assoc]

theorem exists_character {s : Bytes} (nonempty : s ≠ []) (valid : isValidUTF8 s = true) :
    ∃ c rest, s = c ++ rest ∧ Character c ∧ isValidUTF8 rest = true := by
  obtain ⟨c, rest, rfl⟩ := List.exists_cons_of_ne_nil nonempty
  by_cases low : c < 0x80
  · exact ⟨[c], rest, rfl, .one low, isValidUTF8_one low rest ▸ valid⟩
  by_cases double : 0xC2 ≤ c ∧ c ≤ 0xDF
  · rw [isValidUTF8_two double] at valid
    match rest, valid with
    | [], valid => simp [continues] at valid
    | d :: rest, valid =>
      simp only [Bool.and_eq_true, continues_eq_true] at valid
      exact ⟨[c, d], rest, rfl, .two double valid.1.2, valid.2⟩
  by_cases triple : 0xE0 ≤ c ∧ c ≤ 0xEF
  · rw [isValidUTF8_three triple] at valid
    match rest, valid with
    | [], valid => simp [continues] at valid
    | [d], valid => simp [continues] at valid
    | d :: e :: rest, valid =>
      simp only [Bool.and_eq_true, continues_eq_true] at valid
      exact ⟨[c, d, e], rest, rfl, .three triple valid.1.1.2 valid.1.2.2, valid.2⟩
  by_cases quadruple : 0xF0 ≤ c ∧ c ≤ 0xF4
  · rw [isValidUTF8_four quadruple] at valid
    match rest, valid with
    | [], valid => simp [continues] at valid
    | [d], valid => simp [continues] at valid
    | [d, e], valid => simp [continues] at valid
    | d :: e :: f :: rest, valid =>
      simp only [Bool.and_eq_true, continues_eq_true] at valid
      exact ⟨[c, d, e, f], rest, rfl,
        .four quadruple valid.1.1.1.2 valid.1.1.2.2 valid.1.2.2, valid.2⟩
  · rw [isValidUTF8, isValidUTF8From] at valid
    simp [low, double, triple, quadruple] at valid

theorem validUTF8_induction {motive : (s : Bytes) → isValidUTF8 s = true → Prop}
    (nil : motive [] rfl)
    (append : ∀ c rest (character : Character c) (valid : isValidUTF8 rest = true),
      motive rest valid → motive (c ++ rest) ((isValidUTF8_append character rest).trans valid))
    (s : Bytes) (valid : isValidUTF8 s = true) : motive s valid := by
  induction length : s.length using Nat.strongRecOn generalizing s with
  | ind n ih =>
    by_cases empty : s = []
    · subst empty
      exact nil
    · obtain ⟨c, rest, rfl, character, validRest⟩ := exists_character empty valid
      have shorter : rest.length < n := by
        cases character <;> simp at length <;> omega
      exact append c rest character validRest (ih _ shorter rest validRest rfl)

theorem Character.continues_at {c : Bytes} (character : Character c) {n : Nat} (inside : n < c.length) :
    Continues (c.getD n 0) ↔ n ≠ 0 := by
  cases character with
  | one low =>
    have : n = 0 := by simpa using inside
    subst this
    simp [Continues]
    grind
  | two lead second =>
    match n, inside with
    | 0, _ => simp [Continues]; grind
    | 1, _ => simpa using second
  | three lead second third =>
    match n, inside with
    | 0, _ => simp [Continues]; grind
    | 1, _ => simp [Continues]; grind
    | 2, _ => simpa using third
  | four lead second third fourth =>
    match n, inside with
    | 0, _ => simp [Continues]; grind
    | 1, _ => simp [Continues]; grind
    | 2, _ => simpa using third
    | 3, _ => simpa using fourth

theorem Character.take {c : Bytes} (character : Character c) {n : Nat} (positive : n ≠ 0)
    (inside : n < c.length) : isValidUTF8 (c.take n) = false := by
  cases character with
  | one low => simp at inside; omega
  | two lead second =>
    match n, inside with
    | 1, _ => simp [isValidUTF8_two lead, continues]
  | three lead second third =>
    match n, inside with
    | 1, _ => simp [isValidUTF8_three lead, continues]
    | 2, _ => simp [isValidUTF8_three lead, continues]
  | four lead second third fourth =>
    match n, inside with
    | 1, _ => simp [isValidUTF8_four lead, continues]
    | 2, _ => simp [isValidUTF8_four lead, continues]
    | 3, _ => simp [isValidUTF8_four lead, continues]

theorem isValidUTF8_take {s : Bytes} (valid : isValidUTF8 s = true) {n : Nat}
    (inside : n < s.length) : isValidUTF8 (s.take n) = true ↔ ¬ Continues (s.getD n 0) := by
  induction s, valid using validUTF8_induction generalizing n with
  | nil => cases inside
  | append c rest character valid ih =>
    rcases Nat.lt_or_ge n c.length with early | late
    · rw [List.take_append_of_le_length early.le, List.getD_append _ _ _ _ early,
        character.continues_at early]
      by_cases start : n = 0
      · simp [start]
      · simp [start, character.take start early]
    · rw [List.take_append, List.take_of_length_le late, isValidUTF8_append character,
        List.getD_append_right _ _ _ _ late]
      rw [List.length_append] at inside
      exact ih (by omega)

theorem isValidUTF8_rdropWhile {s : Bytes} (valid : isValidUTF8 s = true) :
    isValidUTF8 (s.rdropWhile (· = 0)) = true := by
  induction s using List.reverseRecOn with
  | nil => rfl
  | append_singleton front last ih =>
    rw [List.rdropWhile_concat]
    split
    · rename_i zero
      apply ih
      have cut := isValidUTF8_take valid (n := front.length) (by simp)
      rw [List.take_left, List.getD_append_right _ _ _ _ le_rfl] at cut
      rw [cut]
      simp_all [Continues]
    · exact valid

end Protowire
