import Mathlib.Data.List.Induction
import Mathlib.Data.Nat.Digits.Defs
import Mathlib.Tactic.Ring
import Protowire.Detail.BytesCore

/-!
Decimal numbers as text. What is written of a number is read back as it.
-/

namespace Protowire

@[simp] theorem digitsValue_nil (accumulated : Nat) : digitsValue accumulated [] = accumulated := rfl

theorem digitsValue_cons (accumulated : Nat) (c : UInt8) (rest : Bytes) :
    digitsValue accumulated (c :: rest) = digitsValue (accumulated * 10 + digitValue c) rest :=
  List.foldl_cons ..

theorem digitsValue_append (accumulated : Nat) (s t : Bytes) :
    digitsValue accumulated (s ++ t) = digitsValue (digitsValue accumulated s) t :=
  List.foldl_append

theorem digitValue_le (c : UInt8) (digit : isDigit c) : digitValue c ≤ 9 := by
  simp only [isDigit, Bool.and_eq_true, decide_eq_true_eq] at digit
  have bound : c.toNat ≤ 0x39 := UInt8.le_iff_toNat_le.mp digit.2
  simp only [digitValue]
  omega

theorem digit_ofNat {d : Nat} (small : d < 10) :
    isDigit (UInt8.ofNat (0x30 + d)) = true ∧ digitValue (UInt8.ofNat (0x30 + d)) = d := by
  have all : ∀ d < 10, isDigit (UInt8.ofNat (0x30 + d)) = true ∧
      digitValue (UInt8.ofNat (0x30 + d)) = d := by decide
  exact all d small

theorem digitsValue_high (high : Nat) (s : Bytes) :
    digitsValue high s = high * 10 ^ s.length + digitsValue 0 s := by
  induction s generalizing high with
  | nil => simp [digitsValue]
  | cons c rest ih =>
    rw [digitsValue_cons, digitsValue_cons, ih, ih (0 * 10 + digitValue c), List.length_cons,
      Nat.pow_succ]
    ring

theorem digitsValue_lt_pow {s : Bytes} (digits : ∀ c ∈ s, isDigit c = true) :
    digitsValue 0 s < 10 ^ s.length := by
  induction s with
  | nil => decide
  | cons c rest ih =>
    have digit := digitValue_le c (digits c (by simp))
    have below := ih fun c member => digits c (by simp [member])
    rw [digitsValue_cons, digitsValue_high, List.length_cons, Nat.pow_succ]
    calc (0 * 10 + digitValue c) * 10 ^ rest.length + digitsValue 0 rest
        < (0 * 10 + digitValue c) * 10 ^ rest.length + 10 ^ rest.length := by omega
      _ = (digitValue c + 1) * 10 ^ rest.length := by ring
      _ ≤ 10 * 10 ^ rest.length := Nat.mul_le_mul_right _ (by omega)
      _ = 10 ^ rest.length * 10 := Nat.mul_comm ..

theorem digitsValue_zeros (s : Bytes) (count : Nat) :
    digitsValue 0 (s ++ List.replicate count 0x30) = digitsValue 0 s * 10 ^ count := by
  have zeros : digitsValue 0 (List.replicate count 0x30) = 0 := by
    induction count with
    | zero => rfl
    | succ count ih => exact ih
  rw [digitsValue_append, digitsValue_high, zeros, List.length_replicate, Nat.add_zero]

theorem digitsValue_dropWhile (s : Bytes) :
    digitsValue 0 (s.dropWhile (· = 0x30)) = digitsValue 0 s := by
  induction s with
  | nil => rfl
  | cons c rest ih =>
    by_cases zero : c = 0x30
    · rw [List.dropWhile_cons_of_pos (by simp [zero]), ih, zero]
      rfl
    · rw [List.dropWhile_cons_of_neg (by simp [zero])]

theorem toDigits_code {n : Nat} {digit : Char} (listed : digit ∈ Nat.toDigits 10 n) :
    48 ≤ digit.toNat ∧ digit.toNat ≤ 57 := by
  have isDigit := Nat.isDigit_of_mem_toDigits (by decide) (by decide) listed
  simp only [Char.isDigit, Bool.and_eq_true, decide_eq_true_eq] at isDigit
  exact isDigit

theorem decimal_digit {n : Nat} {c : UInt8} (member : c ∈ decimal n) : 0x30 ≤ c ∧ c ≤ 0x39 := by
  obtain ⟨digit, listed, rfl⟩ := List.mem_map.mp member
  obtain ⟨low, high⟩ := toDigits_code listed
  constructor <;> rw [UInt8.le_iff_toNat_le] <;> simp <;> omega

theorem isDigit_decimal {n : Nat} {c : UInt8} (member : c ∈ decimal n) : isDigit c = true := by
  obtain ⟨low, high⟩ := decimal_digit member
  simp [isDigit, low, high]

theorem decimal_ne_nil (n : Nat) : decimal n ≠ [] := by
  rw [decimal, Ne, List.map_eq_nil_iff]
  exact Nat.toDigits_ne_nil

theorem decimal_length_le {n width : Nat} (below : n < 10 ^ width) (positive : 0 < width) :
    (decimal n).length ≤ width := by
  simpa [decimal] using Nat.toDigits_length 10 n width positive below

theorem digitsValue_decimal (n : Nat) : digitsValue 0 (decimal n) = n := by
  have digits (list : List Char) (codes : ∀ c ∈ list, 48 ≤ c.toNat ∧ c.toNat ≤ 57) (value : Nat) :
      digitsValue value (list.map fun c => c.toNat.toUInt8) = Nat.ofDigitChars 10 list value := by
    induction list generalizing value with
    | nil => rfl
    | cons c rest ih =>
      obtain ⟨low, high⟩ := codes c (by simp)
      have code : digitValue c.toNat.toUInt8 = c.toNat - '0'.toNat := by
        simp [digitValue]
        omega
      have following := ih (fun c member => codes c (by simp [member]))
      simp only [digitsValue, List.map_cons, List.foldl_cons, code, Nat.ofDigitChars] at following ⊢
      rw [following, Nat.mul_comm]
  rw [decimal, digits _ (fun c listed => toDigits_code listed),
    Nat.ofDigitChars_toDigits (by decide) (by decide)]

theorem decimal_injective {m n : Nat} (same : decimal m = decimal n) : m = n := by
  rw [← digitsValue_decimal m, same, digitsValue_decimal]

theorem decimal_append {n d : Nat} (positive : 0 < n) (digit : d < 10) :
    decimal (n * 10 + d) = decimal n ++ decimal d := by
  rw [Nat.mul_comm, decimal, ← Nat.toDigits_append_toDigits (by decide) positive digit,
    List.map_append, decimal, decimal]

theorem decimal_digitValue {c : UInt8} (digit : isDigit c = true) : decimal (digitValue c) = [c] := by
  have all : ∀ k : Fin 10, decimal k = [UInt8.ofNat (0x30 + k)] := by decide
  have small := digitValue_le c digit
  simp only [isDigit, Bool.and_eq_true, decide_eq_true_eq, UInt8.le_iff_toNat_le] at digit
  have code : 0x30 + digitValue c = c.toNat := by
    have low : 0x30 ≤ c.toNat := digit.1
    rw [digitValue]
    omega
  rw [all ⟨digitValue c, by omega⟩, code, UInt8.ofNat_toNat]

theorem eq_decimal {c : UInt8} (lead : c ≠ 0x30) (rest : Bytes)
    (digits : ∀ b ∈ c :: rest, isDigit b = true) :
    c :: rest = decimal (digitsValue 0 (c :: rest)) ∧ 0 < digitsValue 0 (c :: rest) := by
  induction rest using List.reverseRecOn with
  | nil =>
    have digit := digits c (by simp)
    have first : digitsValue 0 [c] = digitValue c := by simp [digitsValue]
    rw [first, decimal_digitValue digit]
    refine ⟨rfl, Nat.pos_of_ne_zero fun zero => lead ?_⟩
    have same := decimal_digitValue digit
    rw [zero] at same
    exact (List.head_eq_of_cons_eq same).symm
  | append_singleton rest b ih =>
    obtain ⟨front, positive⟩ := ih fun b member => digits b (by
      rw [← List.cons_append]
      exact List.mem_append_left _ member)
    have digit := digits b (by simp)
    have small := digitValue_le b digit
    have value : digitsValue 0 (c :: rest ++ [b]) =
        digitsValue 0 (c :: rest) * 10 + digitValue b := by
      rw [digitsValue_append, digitsValue_cons, digitsValue_nil]
    rw [← List.cons_append, value, decimal_append positive (by omega), decimal_digitValue digit, ← front]
    exact ⟨rfl, by omega⟩

end Protowire
