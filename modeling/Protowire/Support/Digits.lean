import Mathlib.Algebra.Group.Nat.Defs
import Mathlib.Tactic.Common
import Mathlib.Tactic.Ring

/-!
Numbers as bytes, in the two byte orders. A fixed number of bytes holds a number below the
power of 256 it stands for; a magnitude of no fixed length is read most significant byte first.
-/

namespace Support

def ofLittle : List UInt8 → Nat
  | [] => 0
  | b :: rest => b.toNat + 256 * ofLittle rest

def toLittle : Nat → Nat → List UInt8
  | 0, _ => []
  | width + 1, n => UInt8.ofNat (n % 256) :: toLittle width (n / 256)

def ofBig (high : Nat) (bytes : List UInt8) : Nat :=
  bytes.foldl (fun n b => n * 256 + b.toNat) high

@[simp] theorem length_toLittle (width n : Nat) : (toLittle width n).length = width := by
  induction width generalizing n with
  | zero => rfl
  | succ width ih => simp [toLittle, ih]

theorem ofLittle_toLittle (width n : Nat) : ofLittle (toLittle width n) = n % 256 ^ width := by
  induction width generalizing n with
  | zero => simp [toLittle, ofLittle, Nat.mod_one]
  | succ width ih =>
    have byte : (UInt8.ofNat (n % 256)).toNat = n % 256 := by simp
    rw [toLittle, ofLittle, ih, byte, Nat.pow_succ, Nat.mul_comm (256 ^ width), Nat.mod_mul]

theorem ofLittle_lt (bytes : List UInt8) : ofLittle bytes < 256 ^ bytes.length := by
  induction bytes with
  | nil => simp [ofLittle]
  | cons b rest ih =>
    have byte := b.toNat_lt
    rw [ofLittle, List.length_cons, Nat.pow_succ]
    omega

theorem ofBig_append (high : Nat) (front back : List UInt8) :
    ofBig high (front ++ back) = ofBig (ofBig high front) back := by
  simp [ofBig, List.foldl_append]

theorem ofBig_cons (high : Nat) (b : UInt8) (rest : List UInt8) :
    ofBig high (b :: rest) = ofBig (high * 256 + b.toNat) rest := rfl

theorem ofBig_reverse (bytes : List UInt8) : ofBig 0 bytes.reverse = ofLittle bytes := by
  induction bytes with
  | nil => rfl
  | cons b rest ih =>
    rw [List.reverse_cons, ofBig_append, ih, ofLittle, ofBig_cons, Nat.mul_comm, Nat.add_comm]
    rfl

theorem ofLittle_append (low high : List UInt8) :
    ofLittle (low ++ high) = ofLittle low + 256 ^ low.length * ofLittle high := by
  induction low with
  | nil => simp [ofLittle]
  | cons b rest ih =>
    rw [List.cons_append, ofLittle, ih, ofLittle, List.length_cons, Nat.pow_succ]
    ring

theorem ofLittle_drop (bytes : List UInt8) (k : Nat) :
    ofLittle (bytes.drop k) = ofLittle bytes / 256 ^ k := by
  induction k generalizing bytes with
  | zero => simp
  | succ k ih =>
    cases bytes with
    | nil => simp [ofLittle]
    | cons b rest =>
      have byte := b.toNat_lt
      have high : (b.toNat + 256 * ofLittle rest) / 256 = ofLittle rest := by omega
      rw [List.drop_succ_cons, ih, ofLittle, Nat.pow_succ, Nat.mul_comm (256 ^ k),
        ← Nat.div_div_eq_div_mul, high]

theorem ofLittle_take (bytes : List UInt8) (k : Nat) :
    ofLittle (bytes.take k) = ofLittle bytes % 256 ^ k := by
  by_cases short : bytes.length ≤ k
  · have bound : ofLittle bytes < 256 ^ k :=
      Nat.lt_of_lt_of_le (ofLittle_lt bytes) (Nat.pow_le_pow_right (by decide) short)
    rw [List.take_of_length_le short, Nat.mod_eq_of_lt bound]
  · have length : (bytes.take k).length = k := by
      rw [List.length_take]
      omega
    have bound := ofLittle_lt (bytes.take k)
    rw [length] at bound
    conv_rhs => rw [← List.take_append_drop k bytes, ofLittle_append, length]
    rw [Nat.add_mul_mod_self_left, Nat.mod_eq_of_lt bound]

theorem ofLittle_getD (bytes : List UInt8) (k : Nat) :
    (bytes.getD k 0).toNat = ofLittle bytes / 256 ^ k % 256 := by
  have head : bytes.getD k 0 = (bytes.drop k).headD 0 := by
    rw [List.headD_eq_head?_getD, List.head?_drop, List.getD_eq_getElem?_getD]
  rw [← ofLittle_drop, head]
  cases bytes.drop k with
  | nil => rfl
  | cons b rest =>
    have byte := b.toNat_lt
    simp only [List.headD_cons, ofLittle]
    omega

theorem ofBig_eq_reverse (bytes : List UInt8) : ofBig 0 bytes = ofLittle bytes.reverse := by
  rw [← ofBig_reverse, List.reverse_reverse]

theorem ofBig_high (high : Nat) (bytes : List UInt8) :
    ofBig high bytes = high * 256 ^ bytes.length + ofBig 0 bytes := by
  induction bytes generalizing high with
  | nil => simp [ofBig]
  | cons b rest ih =>
    rw [ofBig_cons, ih, ofBig_cons, ih (0 * 256 + b.toNat), List.length_cons, Nat.pow_succ]
    ring

theorem ofBig_lt (bytes : List UInt8) : ofBig 0 bytes < 256 ^ bytes.length := by
  rw [ofBig_eq_reverse, ← List.length_reverse]
  exact ofLittle_lt _

end Support
