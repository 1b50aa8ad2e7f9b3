import Mathlib.Data.List.TakeWhile
import Protowire.Detail.Decimal
import Protowire.Detail.TimeCore

/-!
Digits of a fixed width, and fractions without their trailing zeros.
-/

namespace Protowire

theorem zeroPadded_digits {width n : Nat} {c : UInt8} (member : c ∈ zeroPadded width n) :
    isDigit c = true := by
  obtain zero | digit := List.mem_append.mp member
  · rw [List.eq_of_mem_replicate zero]
    decide
  · exact isDigit_decimal digit

theorem zeroPadded_length {width n : Nat} (below : n < 10 ^ width) (positive : 0 < width) :
    (zeroPadded width n).length = width := by
  have fits := decimal_length_le below positive
  rw [zeroPadded, List.length_append, List.length_replicate]
  omega

theorem digitsValue_zeroPadded (width n : Nat) : digitsValue 0 (zeroPadded width n) = n := by
  have zeros := digitsValue_zeros [] (width - (decimal n).length)
  rw [List.nil_append] at zeros
  rw [zeroPadded, digitsValue_append, zeros]
  simpa [digitsValue] using digitsValue_decimal n

theorem dropZeros_append (s : Bytes) :
    ∃ zeros, s = (s.reverse.dropWhile (· == 0x30)).reverse ++ List.replicate zeros 0x30 := by
  refine ⟨(s.reverse.takeWhile (· == 0x30)).length, ?_⟩
  have all : s.reverse.takeWhile (· == 0x30) =
      List.replicate (s.reverse.takeWhile (· == 0x30)).length 0x30 :=
    List.eq_replicate_iff.mpr ⟨rfl, fun c member => by simpa using List.mem_takeWhile_imp member⟩
  rw [← List.reverse_inj, List.reverse_append, List.reverse_reverse, List.reverse_replicate, ← all,
    List.takeWhile_append_dropWhile]

theorem fractionDigits_value {width n : Nat} (below : n < 10 ^ width) (positive : 0 < width) :
    (∀ c ∈ fractionDigits width n, isDigit c = true) ∧ (fractionDigits width n).length ≤ width ∧
      digitsValue 0 (fractionDigits width n) * 10 ^ width = n * 10 ^ (fractionDigits width n).length := by
  obtain ⟨zeros, split⟩ := dropZeros_append (zeroPadded width n)
  change zeroPadded width n = fractionDigits width n ++ List.replicate zeros 0x30 at split
  generalize fractionDigits width n = digits at split ⊢
  have length := zeroPadded_length below positive
  have value := digitsValue_zeroPadded width n
  rw [split, List.length_append, List.length_replicate] at length
  rw [split, digitsValue_zeros] at value
  refine ⟨fun c member => ?_, by omega, ?_⟩
  · exact zeroPadded_digits (by rw [split]; exact List.mem_append_left _ member)
  · calc digitsValue 0 digits * 10 ^ width = digitsValue 0 digits * 10 ^ zeros * 10 ^ digits.length := by
          rw [← length, Nat.pow_add]
          ring
      _ = n * 10 ^ digits.length := by rw [value]

theorem fractionDigits_ne_nil {width n : Nat} (below : n < 10 ^ width) (positive : 0 < width)
    (some_ : n ≠ 0) : fractionDigits width n ≠ [] := by
  intro empty
  have value := (fractionDigits_value below positive).2.2
  rw [empty] at value
  exact some_ (by simpa [digitsValue] using value.symm)

end Protowire
