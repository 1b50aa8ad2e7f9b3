import Protowire.Detail.BytesCore

/-!
Looking ahead in bytes, and runs at the head of them.
-/

namespace Protowire

@[simp] theorem peek_zero (c : UInt8) (s : Bytes) : peek (c :: s) 0 = c := rfl

@[simp] theorem peek_succ (c : UInt8) (s : Bytes) (index : Nat) :
    peek (c :: s) (index + 1) = peek s index := rfl

theorem peek_drop (s : Bytes) (start index : Nat) : peek (s.drop start) index = peek s (start + index) := by
  simp [peek, List.getD_eq_getElem?_getD]

theorem spanLength_cons (keep : UInt8 → Bool) (c : UInt8) (s : Bytes) :
    spanLength keep (c :: s) = if keep c then spanLength keep s + 1 else 0 := by
  simp only [spanLength, List.takeWhile_cons]
  split <;> rfl

theorem drop_spanLength (keep : UInt8 → Bool) (s : Bytes) :
    s.drop (spanLength keep s) = s.dropWhile keep := by
  induction s with
  | nil => rfl
  | cons c rest ih =>
    rw [spanLength_cons, List.dropWhile_cons]
    split
    · exact ih
    · rfl

theorem spanLength_dropWhile (keep : UInt8 → Bool) (s : Bytes) :
    spanLength keep (s.dropWhile keep) = 0 := by
  induction s with
  | nil => rfl
  | cons c rest ih =>
    rw [List.dropWhile_cons]
    split
    · exact ih
    · rename_i stop
      rw [spanLength_cons, if_neg stop]

end Protowire
