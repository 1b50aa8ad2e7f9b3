import Mathlib.Algebra.Order.Ring.Nat
import Mathlib.Data.Nat.Bitwise
import Mathlib.Tactic.Common
import Mathlib.Tactic.Ring
import Protowire.Support.Digits
import Protowire.Support.Rounding

/-!
Natural numbers as 32-bit limbs, least significant first. The operations are the schoolbook ones,
a limb and a carry at a time; each has one lemma that says which number its limbs write. A
`BigNat` is limbs with no leading zero, so that two of them are equal when their numbers are.
-/

namespace Support

def limbsValue : List UInt32 → Nat
  | [] => 0
  | x :: rest => x.toNat + 2 ^ 32 * limbsValue rest

theorem toNat_ofNat32 (n : Nat) : (UInt32.ofNat n).toNat = n % 2 ^ 32 := by simp

theorem toNat_lt32 (x : UInt32) : x.toNat < 2 ^ 32 := x.toNat_lt

theorem limbsValue_lt (limbs : List UInt32) : limbsValue limbs < 2 ^ (32 * limbs.length) := by
  induction limbs with
  | nil => simp [limbsValue]
  | cons x rest ih =>
    have limb := toNat_lt32 x
    have power : 2 ^ (32 * (x :: rest).length) = 2 ^ 32 * 2 ^ (32 * rest.length) := by
      rw [List.length_cons, Nat.mul_succ, Nat.add_comm, Nat.pow_add]
    rw [limbsValue, power]
    omega

theorem limbsValue_append (low high : List UInt32) :
    limbsValue (low ++ high) = limbsValue low + 2 ^ (32 * low.length) * limbsValue high := by
  induction low with
  | nil => simp [limbsValue]
  | cons x rest ih =>
    have power : 2 ^ (32 * (x :: rest).length) = 2 ^ 32 * 2 ^ (32 * rest.length) := by
      rw [List.length_cons, Nat.mul_succ, Nat.add_comm, Nat.pow_add]
    rw [List.cons_append, limbsValue, ih, limbsValue, power]
    ring

@[simp] theorem limbsValue_replicate_zero (n : Nat) : limbsValue (List.replicate n 0) = 0 := by
  induction n with
  | zero => rfl
  | succ n ih => simp [List.replicate_succ, limbsValue, ih]

theorem limbsValue_drop (limbs : List UInt32) (n : Nat) :
    limbsValue (limbs.drop n) = limbsValue limbs / 2 ^ (32 * n) := by
  induction n generalizing limbs with
  | zero => simp
  | succ n ih =>
    cases limbs with
    | nil => simp [limbsValue]
    | cons x rest =>
      have limb := toNat_lt32 x
      have power : 2 ^ (32 * (n + 1)) = 2 ^ 32 * 2 ^ (32 * n) := by
        rw [Nat.mul_succ, Nat.add_comm, Nat.pow_add]
      have high : (x.toNat + 2 ^ 32 * limbsValue rest) / 2 ^ 32 = limbsValue rest := by omega
      rw [List.drop_succ_cons, ih, limbsValue, power, ← Nat.div_div_eq_div_mul, high]

def trimLimbs : List UInt32 → List UInt32
  | [] => []
  | x :: rest =>
    match trimLimbs rest with
    | [] => if x = 0 then [] else [x]
    | y :: more => x :: y :: more

@[simp] theorem limbsValue_trimLimbs (limbs : List UInt32) :
    limbsValue (trimLimbs limbs) = limbsValue limbs := by
  induction limbs with
  | nil => rfl
  | cons x rest ih =>
    rw [trimLimbs, limbsValue, ← ih]
    cases trimLimbs rest with
    | nil =>
      simp only [limbsValue]
      split
      · rename_i zero
        simp [limbsValue, zero]
      · rfl
    | cons y more => rfl

def TrimmedLimbs (limbs : List UInt32) : Prop := limbs.getLast? ≠ some 0

instance (limbs : List UInt32) : Decidable (TrimmedLimbs limbs) :=
  inferInstanceAs (Decidable (_ ≠ _))

theorem trimmed_trimLimbs (limbs : List UInt32) : TrimmedLimbs (trimLimbs limbs) := by
  induction limbs with
  | nil => decide
  | cons x rest ih =>
    rw [trimLimbs]
    cases trimmed : trimLimbs rest with
    | nil =>
      simp only
      split
      · decide
      · rename_i nonzero
        intro zero
        exact nonzero (by simpa using zero)
    | cons y more =>
      rw [trimmed] at ih
      simpa [TrimmedLimbs] using ih

theorem TrimmedLimbs.tail {x : UInt32} {rest : List UInt32} (trimmed : TrimmedLimbs (x :: rest)) :
    TrimmedLimbs rest := by
  cases rest with
  | nil => decide
  | cons y more => simpa [TrimmedLimbs] using trimmed

theorem TrimmedLimbs.le_value {limbs : List UInt32} (trimmed : TrimmedLimbs limbs)
    (filled : limbs ≠ []) : 2 ^ (32 * (limbs.length - 1)) ≤ limbsValue limbs := by
  induction limbs with
  | nil => exact absurd rfl filled
  | cons x rest ih =>
    cases rest with
    | nil =>
      have nonzero : x.toNat ≠ 0 := by
        intro zero
        exact trimmed (by simp [UInt32.toNat.inj (b := 0) zero])
      simp [limbsValue]
      omega
    | cons y more =>
      have below := ih trimmed.tail (by simp)
      have power : 2 ^ (32 * ((x :: y :: more).length - 1)) =
          2 ^ 32 * 2 ^ (32 * ((y :: more).length - 1)) := by
        simp only [List.length_cons, Nat.add_sub_cancel]
        rw [Nat.mul_succ, Nat.add_comm, Nat.pow_add]
      rw [limbsValue, power]
      omega

structure BigNat where
  limbs : List UInt32
  trimmed : TrimmedLimbs limbs
deriving DecidableEq

namespace BigNat

def value (n : BigNat) : Nat := limbsValue n.limbs

def ofLimbs (limbs : List UInt32) : BigNat := ⟨trimLimbs limbs, trimmed_trimLimbs limbs⟩

@[simp] theorem value_ofLimbs (limbs : List UInt32) : (ofLimbs limbs).value = limbsValue limbs :=
  limbsValue_trimLimbs limbs

def ofNat32 (v : UInt32) : BigNat := ofLimbs [v]

@[simp] theorem value_ofNat32 (v : UInt32) : (ofNat32 v).value = v.toNat := by
  simp [ofNat32, limbsValue]

def isZero (n : BigNat) : Bool := n.limbs.isEmpty

theorem isZero_iff (n : BigNat) : n.isZero = true ↔ n.value = 0 := by
  obtain ⟨limbs, trimmed⟩ := n
  cases limbs with
  | nil => simp [isZero, value, limbsValue]
  | cons x rest =>
    have low := trimmed.le_value (by simp)
    have positive := Nat.two_pow_pos (32 * ((x :: rest).length - 1))
    simp only [isZero, value, List.isEmpty_cons, Bool.false_eq_true, false_iff]
    omega

def isOdd (n : BigNat) : Bool :=
  match n.limbs with
  | [] => false
  | x :: _ => x.toNat % 2 = 1

theorem isOdd_eq (n : BigNat) : n.isOdd = decide (n.value % 2 = 1) := by
  obtain ⟨limbs, trimmed⟩ := n
  cases limbs with
  | nil => rfl
  | cons x rest =>
    have low : (x.toNat + 2 ^ 32 * limbsValue rest) % 2 = x.toNat % 2 := by omega
    simp only [isOdd, value, limbsValue, low]

end BigNat

def mulAddLimbs (m : Nat) : Nat → List UInt32 → List UInt32
  | carry, [] => if carry = 0 then [] else [UInt32.ofNat carry]
  | carry, x :: rest =>
    UInt32.ofNat (x.toNat * m + carry) :: mulAddLimbs m ((x.toNat * m + carry) / 2 ^ 32) rest

theorem mul_add_lt {x m carry : Nat} (limb : x < 2 ^ 32) (small : m < 2 ^ 32)
    (carried : carry < 2 ^ 32) : x * m + carry < 2 ^ 32 * 2 ^ 32 := by
  have product : x * m ≤ (2 ^ 32 - 1) * (2 ^ 32 - 1) := Nat.mul_le_mul (by omega) (by omega)
  omega

theorem limbsValue_mulAddLimbs {m : Nat} (small : m < 2 ^ 32) (limbs : List UInt32) :
    ∀ carry, carry < 2 ^ 32 →
      limbsValue (mulAddLimbs m carry limbs) = limbsValue limbs * m + carry := by
  induction limbs with
  | nil =>
    intro carry carried
    rw [mulAddLimbs]
    split
    · rename_i zero
      simp [limbsValue, zero]
    · simp only [limbsValue, toNat_ofNat32]
      omega
  | cons x rest ih =>
    intro carry carried
    have wide := mul_add_lt (toNat_lt32 x) small carried
    rw [mulAddLimbs, limbsValue, toNat_ofNat32, limbsValue, ih _ (by omega)]
    have split_ := Nat.mod_add_div (x.toNat * m + carry) (2 ^ 32)
    calc _ = (x.toNat * m + carry) % 2 ^ 32 + 2 ^ 32 * ((x.toNat * m + carry) / 2 ^ 32) +
            2 ^ 32 * (limbsValue rest * m) := by ring
      _ = _ := by rw [split_]; ring

def addLimbs : Nat → List UInt32 → List UInt32
  | carry, [] => if carry = 0 then [] else [UInt32.ofNat carry]
  | carry, x :: rest =>
    if carry = 0 then x :: rest
    else UInt32.ofNat (x.toNat + carry) :: addLimbs ((x.toNat + carry) / 2 ^ 32) rest

theorem limbsValue_addLimbs (limbs : List UInt32) : ∀ carry, carry < 2 ^ 32 →
    limbsValue (addLimbs carry limbs) = limbsValue limbs + carry := by
  induction limbs with
  | nil =>
    intro carry carried
    rw [addLimbs]
    split
    · rename_i zero
      simp [limbsValue, zero]
    · simp only [limbsValue, toNat_ofNat32]
      omega
  | cons x rest ih =>
    intro carry carried
    have limb := toNat_lt32 x
    rw [addLimbs]
    split
    · rename_i zero
      rw [zero, Nat.add_zero]
    · rw [limbsValue, toNat_ofNat32, limbsValue, ih _ (by omega)]
      omega

def divLimbs (d : Nat) : List UInt32 → List UInt32 × Nat
  | [] => ([], 0)
  | x :: rest =>
    let above := divLimbs d rest
    let v := above.2 * 2 ^ 32 + x.toNat
    (UInt32.ofNat (v / d) :: above.1, v % d)

theorem divLimbs_spec {d : Nat} (positive : 0 < d) (limbs : List UInt32) :
    limbsValue (divLimbs d limbs).1 = limbsValue limbs / d ∧
      (divLimbs d limbs).2 = limbsValue limbs % d := by
  induction limbs with
  | nil => simp [divLimbs, limbsValue]
  | cons x rest ih =>
    obtain ⟨quotient, remainder⟩ := ih
    have limb := toNat_lt32 x
    have below : limbsValue rest % d < d := Nat.mod_lt _ positive
    have digit : ((divLimbs d rest).2 * 2 ^ 32 + x.toNat) / d < 2 ^ 32 := by
      rw [remainder, Nat.div_lt_iff_lt_mul positive, Nat.mul_comm (2 ^ 32)]
      calc limbsValue rest % d * 2 ^ 32 + x.toNat < (limbsValue rest % d + 1) * 2 ^ 32 := by omega
        _ ≤ d * 2 ^ 32 := Nat.mul_le_mul_right _ below
    have whole : x.toNat + 2 ^ 32 * limbsValue rest =
        (limbsValue rest % d * 2 ^ 32 + x.toNat) + d * (2 ^ 32 * (limbsValue rest / d)) := by
      have split_ := Nat.mod_add_div (limbsValue rest) d
      calc x.toNat + 2 ^ 32 * limbsValue rest
          = x.toNat + 2 ^ 32 * (limbsValue rest % d + d * (limbsValue rest / d)) := by rw [split_]
        _ = _ := by ring
    constructor
    · rw [divLimbs]
      simp only [limbsValue, toNat_ofNat32, Nat.mod_eq_of_lt digit, quotient]
      rw [whole, Nat.add_mul_div_left _ _ positive, remainder]
    · rw [divLimbs]
      simp only [limbsValue]
      rw [whole, Nat.add_mul_mod_self_left, remainder]

def shlLimbs (bits : Nat) : UInt32 → List UInt32 → List UInt32
  | pushed, [] => [pushed]
  | pushed, x :: rest =>
    (UInt32.ofNat (x.toNat <<< bits) ||| pushed) ::
      shlLimbs bits (UInt32.ofNat ((x.toNat <<< bits) >>> 32)) rest

theorem shifted_or_pushed {bits : Nat} (below : bits < 32) (x : Nat) {pushed : UInt32}
    (low : pushed.toNat < 2 ^ bits) :
    (UInt32.ofNat (x <<< bits) ||| pushed).toNat = x * 2 ^ bits % 2 ^ 32 + pushed.toNat := by
  have power : 2 ^ 32 = 2 ^ bits * 2 ^ (32 - bits) := by
    rw [← Nat.pow_add]
    congr 1
    omega
  have aligned : x * 2 ^ bits % 2 ^ 32 = 2 ^ bits * (x % 2 ^ (32 - bits)) := by
    rw [power, Nat.mul_comm x, Nat.mul_mod_mul_left]
  rw [UInt32.toNat_or, toNat_ofNat32, Nat.shiftLeft_eq, aligned,
    ← Nat.two_pow_add_eq_or_of_lt low]

theorem limbsValue_shlLimbs {bits : Nat} (below : bits < 32) (limbs : List UInt32) :
    ∀ pushed : UInt32, pushed.toNat < 2 ^ bits →
      limbsValue (shlLimbs bits pushed limbs) = limbsValue limbs * 2 ^ bits + pushed.toNat := by
  induction limbs with
  | nil =>
    intro pushed _
    simp [shlLimbs, limbsValue]
  | cons x rest ih =>
    intro pushed low
    have limb := toNat_lt32 x
    have high : x.toNat * 2 ^ bits / 2 ^ 32 < 2 ^ bits := by
      rw [Nat.div_lt_iff_lt_mul (by decide), Nat.mul_comm (2 ^ bits)]
      exact Nat.mul_lt_mul_of_pos_right limb (Nat.two_pow_pos bits)
    have small : 2 ^ bits < 2 ^ 32 := Nat.pow_lt_pow_right (by decide) below
    have out : (UInt32.ofNat ((x.toNat <<< bits) >>> 32)).toNat = x.toNat * 2 ^ bits / 2 ^ 32 := by
      rw [toNat_ofNat32, Nat.shiftLeft_eq, Nat.shiftRight_eq_div_pow]
      exact Nat.mod_eq_of_lt (by omega)
    rw [shlLimbs, limbsValue, shifted_or_pushed below _ low, ih _ (by rw [out]; exact high), out,
      limbsValue]
    have split_ := Nat.mod_add_div (x.toNat * 2 ^ bits) (2 ^ 32)
    calc _ = (x.toNat * 2 ^ bits % 2 ^ 32 + 2 ^ 32 * (x.toNat * 2 ^ bits / 2 ^ 32)) +
            2 ^ 32 * (limbsValue rest * 2 ^ bits) + pushed.toNat := by ring
      _ = _ := by rw [split_]; ring

def shrLimbs (bits : Nat) : List UInt32 → List UInt32
  | [] => []
  | x :: rest =>
    UInt32.ofNat ((x.toNat + (rest.headD 0).toNat <<< 32) >>> bits) :: shrLimbs bits rest

theorem limbsValue_shrLimbs {bits : Nat} (below : bits < 32) (limbs : List UInt32) :
    limbsValue (shrLimbs bits limbs) = limbsValue limbs / 2 ^ bits := by
  have power : 2 ^ 32 = 2 ^ bits * 2 ^ (32 - bits) := by
    rw [← Nat.pow_add]
    congr 1
    omega
  induction limbs with
  | nil => simp [shrLimbs, limbsValue]
  | cons x rest ih =>
    -- the limb above is the low limb of the rest
    have head : limbsValue rest % 2 ^ 32 = (rest.headD 0).toNat := by
      cases rest with
      | nil => rfl
      | cons y more =>
        have limb := toNat_lt32 y
        simp only [limbsValue, List.headD_cons]
        omega
    have positive := Nat.two_pow_pos bits
    have limb := toNat_lt32 x
    rw [shrLimbs, limbsValue, toNat_ofNat32, ih, limbsValue, Nat.shiftLeft_eq,
      Nat.shiftRight_eq_div_pow]
    generalize (rest.headD 0).toNat = y at *
    generalize limbsValue rest = r at *
    have pulled : (x.toNat + y * 2 ^ 32) / 2 ^ bits =
        x.toNat / 2 ^ bits + y * 2 ^ (32 - bits) := by
      rw [power, Nat.mul_left_comm, Nat.add_mul_div_left _ _ positive]
    have moved : (x.toNat + 2 ^ 32 * r) / 2 ^ bits = x.toNat / 2 ^ bits + 2 ^ (32 - bits) * r := by
      rw [power, Nat.mul_assoc, Nat.add_mul_div_left _ _ positive]
    have first : x.toNat / 2 ^ bits < 2 ^ (32 - bits) := by
      rw [Nat.div_lt_iff_lt_mul positive, Nat.mul_comm, ← power]
      exact limb
    have same : y % 2 ^ bits = r % 2 ^ bits := by
      rw [← head, Nat.mod_mod_of_dvd _ ⟨_, power⟩]
    have low : y * 2 ^ (32 - bits) =
        2 ^ (32 - bits) * (r % 2 ^ bits) + 2 ^ 32 * (y / 2 ^ bits) := by
      calc y * 2 ^ (32 - bits) = (y % 2 ^ bits + 2 ^ bits * (y / 2 ^ bits)) * 2 ^ (32 - bits) := by
            rw [Nat.mod_add_div]
        _ = _ := by rw [same, power]; ring
    have fits : x.toNat / 2 ^ bits + 2 ^ (32 - bits) * (r % 2 ^ bits) < 2 ^ 32 := by
      have below : r % 2 ^ bits + 1 ≤ 2 ^ bits := Nat.mod_lt _ positive
      calc x.toNat / 2 ^ bits + 2 ^ (32 - bits) * (r % 2 ^ bits)
          < 2 ^ (32 - bits) * (r % 2 ^ bits + 1) := by rw [Nat.mul_succ]; omega
        _ ≤ 2 ^ (32 - bits) * 2 ^ bits := Nat.mul_le_mul_left _ below
        _ = 2 ^ 32 := by rw [Nat.mul_comm, ← power]
    rw [pulled, moved, low, ← Nat.add_assoc, Nat.add_mul_mod_self_left, Nat.mod_eq_of_lt fits]
    calc _ = x.toNat / 2 ^ bits + 2 ^ (32 - bits) * (r % 2 ^ bits + 2 ^ bits * (r / 2 ^ bits)) := by
          rw [power]; ring
      _ = _ := by rw [Nat.mod_add_div]

def compareLimbs : List UInt32 → List UInt32 → Ordering
  | x :: rest, y :: more => (compareLimbs rest more).then (compare x.toNat y.toNat)
  | _, _ => .eq

theorem compareLimbs_eq (first : List UInt32) : ∀ second : List UInt32,
    first.length = second.length →
      compareLimbs first second = compare (limbsValue first) (limbsValue second) := by
  induction first with
  | nil =>
    intro second same
    rw [List.length_nil] at same
    rw [List.eq_nil_of_length_eq_zero same.symm]
    rfl
  | cons x rest ih =>
    intro second same
    cases second with
    | nil => cases same
    | cons y more =>
      have limb := toNat_lt32 x
      have limb' := toNat_lt32 y
      rw [compareLimbs, ih more (by simpa using same), limbsValue, limbsValue]
      rcases Nat.lt_trichotomy (limbsValue rest) (limbsValue more) with less | equal | more_
      · have whole : x.toNat + 2 ^ 32 * limbsValue rest < y.toNat + 2 ^ 32 * limbsValue more := by
          omega
        rw [Nat.compare_eq_lt.mpr less, Nat.compare_eq_lt.mpr whole]
        rfl
      · rw [equal, Nat.compare_eq_eq.mpr rfl, Ordering.eq_then]
        rcases Nat.lt_trichotomy x.toNat y.toNat with below | level | above
        · rw [Nat.compare_eq_lt.mpr below, Nat.compare_eq_lt.mpr (by omega)]
        · rw [level, Nat.compare_eq_eq.mpr rfl, Nat.compare_eq_eq.mpr rfl]
        · rw [Nat.compare_eq_gt.mpr above, Nat.compare_eq_gt.mpr (by omega)]
      · have whole : y.toNat + 2 ^ 32 * limbsValue more < x.toNat + 2 ^ 32 * limbsValue rest := by
          omega
        rw [Nat.compare_eq_gt.mpr more_, Nat.compare_eq_gt.mpr whole]
        rfl

def subLimbs : Nat → List UInt32 → List UInt32 → List UInt32
  | _, [], _ => []
  | borrow, x :: rest, second =>
    let t : Int := x.toNat - (second.headD 0).toNat - borrow
    UInt32.ofNat (t % 2 ^ 32).toNat :: subLimbs (if t < 0 then 1 else 0) rest second.tail

theorem limbsValue_cons_headD (limbs : List UInt32) :
    limbsValue limbs = (limbs.headD 0).toNat + 2 ^ 32 * limbsValue limbs.tail := by
  cases limbs <;> rfl

theorem limbsValue_subLimbs (first : List UInt32) : ∀ borrow second, borrow ≤ 1 →
    limbsValue second + borrow ≤ limbsValue first →
      limbsValue (subLimbs borrow first second) = limbsValue first - limbsValue second - borrow := by
  induction first with
  | nil =>
    intro borrow second _ _
    simp [subLimbs, limbsValue]
  | cons x rest ih =>
    intro borrow second bit enough
    have limb := toNat_lt32 x
    have limb' := toNat_lt32 (second.headD 0)
    rw [limbsValue_cons_headD second] at enough ⊢
    rw [limbsValue] at enough
    simp only [subLimbs, limbsValue, toNat_ofNat32]
    generalize (second.headD 0).toNat = y at *
    split
    · rename_i negative
      rw [ih 1 second.tail (by omega) (by omega)]
      omega
    · rename_i whole
      rw [ih 0 second.tail (by omega) (by omega)]
      omega

def mulRow (x : Nat) : Nat → List UInt32 → List UInt32 → List UInt32
  | carry, [], _ :: above => UInt32.ofNat carry :: above
  | carry, y :: rest, o :: out =>
    UInt32.ofNat (x * y.toNat + o.toNat + carry) ::
      mulRow x ((x * y.toNat + o.toNat + carry) / 2 ^ 32) rest out
  | _, _, [] => []

def mulRows (second : List UInt32) : List UInt32 → List UInt32 → List UInt32
  | [], out => out
  | x :: rest, out =>
    match mulRow x.toNat 0 second out with
    | [] => []
    | o :: out => o :: mulRows second rest out

def mulLimbs (first second : List UInt32) : List UInt32 :=
  mulRows second first (List.replicate (first.length + second.length) 0)

theorem mul_add_add_lt {x y o carry : Nat} (limb : x < 2 ^ 32) (limb' : y < 2 ^ 32)
    (there : o < 2 ^ 32) (carried : carry < 2 ^ 32) : x * y + o + carry < 2 ^ 32 * 2 ^ 32 := by
  have product : x * y ≤ (2 ^ 32 - 1) * (2 ^ 32 - 1) := Nat.mul_le_mul (by omega) (by omega)
  omega

theorem limbsValue_mulRow {x : Nat} (limb : x < 2 ^ 32) (second : List UInt32) :
    ∀ carry (out : List UInt32), carry < 2 ^ 32 → second.length < out.length →
      out.getD second.length 0 = 0 →
      limbsValue (mulRow x carry second out) = limbsValue out + x * limbsValue second + carry ∧
        (mulRow x carry second out).length = out.length ∧
        (mulRow x carry second out).drop (second.length + 1) = out.drop (second.length + 1) := by
  induction second with
  | nil =>
    intro carry out carried room zero
    cases out with
    | nil => simp at room
    | cons o above =>
      have zero : o = 0 := by simpa using zero
      simp only [mulRow, limbsValue, toNat_ofNat32, Nat.mod_eq_of_lt carried, zero]
      refine ⟨?_, rfl, rfl⟩
      simp
      omega
  | cons y rest ih =>
    intro carry out carried room zero
    cases out with
    | nil => simp at room
    | cons o out =>
      have wide := mul_add_add_lt limb (toNat_lt32 y) (toNat_lt32 o) carried
      obtain ⟨value, length, above⟩ := ih ((x * y.toNat + o.toNat + carry) / 2 ^ 32) out
        (by omega) (by simpa using room) (by simpa using zero)
      refine ⟨?_, ?_, ?_⟩
      · rw [mulRow, limbsValue, toNat_ofNat32, value, limbsValue, limbsValue]
        have split_ := Nat.mod_add_div (x * y.toNat + o.toNat + carry) (2 ^ 32)
        calc _ = (x * y.toNat + o.toNat + carry) % 2 ^ 32 +
                2 ^ 32 * ((x * y.toNat + o.toNat + carry) / 2 ^ 32) +
                2 ^ 32 * (limbsValue out + x * limbsValue rest) := by ring
          _ = _ := by rw [split_]; ring
      · rw [mulRow, List.length_cons, length, List.length_cons]
      · rw [mulRow, List.length_cons, List.drop_succ_cons, above, List.drop_succ_cons]

theorem limbsValue_mulRows (second first : List UInt32) : ∀ out : List UInt32,
    out.length = first.length + second.length →
      out.drop second.length = List.replicate first.length 0 →
      limbsValue (mulRows second first out) =
        limbsValue out + limbsValue first * limbsValue second := by
  induction first with
  | nil =>
    intro out _ _
    simp [mulRows, limbsValue]
  | cons x rest ih =>
    intro out length zeros
    have room : second.length < out.length := by
      rw [length, List.length_cons]
      omega
    have zero : out.getD second.length 0 = 0 := by
      have head := congrArg (fun l => l.headD 0) zeros
      simpa [List.headD_eq_head?_getD, List.head?_drop, List.replicate_succ] using head
    obtain ⟨value, kept, above⟩ := limbsValue_mulRow (toNat_lt32 x) second 0 out (by decide) room zero
    rw [mulRows]
    cases row : mulRow x.toNat 0 second out with
    | nil =>
      rw [row] at kept
      simp at kept
      omega
    | cons o out' =>
      rw [row] at value kept above
      have later : out'.drop second.length = List.replicate rest.length 0 := by
        have tail := congrArg List.tail zeros
        rw [List.tail_drop] at tail
        rw [List.drop_succ_cons] at above
        rw [above, tail]
        simp [List.replicate_succ]
      have rest_ := ih out' (by simp only [List.length_cons] at kept length; omega) later
      simp only [limbsValue] at value ⊢
      rw [rest_]
      calc _ = (o.toNat + 2 ^ 32 * limbsValue out') +
              2 ^ 32 * (limbsValue rest * limbsValue second) := by ring
        _ = _ := by rw [value]; ring

theorem limbsValue_mulLimbs (first second : List UInt32) :
    limbsValue (mulLimbs first second) = limbsValue first * limbsValue second := by
  rw [mulLimbs, limbsValue_mulRows]
  · simp
  · simp
  · simp

def limbBits (x : UInt32) : Nat := bitLength x.toNat

def bitsOfLimbs (limbs : List UInt32) : Nat :=
  match limbs.getLast? with
  | none => 0
  | some top => (limbs.length - 1) * 32 + limbBits top

theorem TrimmedLimbs.bitsOfLimbs_eq {limbs : List UInt32} (trimmed : TrimmedLimbs limbs) :
    bitsOfLimbs limbs = bitLength (limbsValue limbs) := by
  rcases List.eq_nil_or_concat limbs with rfl | ⟨front, top, rfl⟩
  · rfl
  · rw [List.concat_eq_append] at trimmed ⊢
    have nonzero : top.toNat ≠ 0 := by
      intro zero
      exact trimmed (by simp [UInt32.toNat.inj (b := 0) zero])
    obtain ⟨b, bits, low, high⟩ := exists_bitLength nonzero
    have below := limbsValue_lt front
    have value : limbsValue (front ++ [top]) =
        limbsValue front + 2 ^ (32 * front.length) * top.toNat := by
      rw [limbsValue_append]
      simp [limbsValue]
    have bits' : bitsOfLimbs (front ++ [top]) = 32 * front.length + b + 1 := by
      simp only [bitsOfLimbs, List.getLast?_append, List.getLast?_singleton, Option.some_or,
        List.length_append, List.length_singleton, Nat.add_sub_cancel, limbBits, bits]
      omega
    rw [bits', value]
    refine (bitLength_eq ?_ ?_).symm
    · rw [Nat.pow_add]
      exact Nat.le_trans (Nat.mul_le_mul_left _ low) (Nat.le_add_left _ _)
    · have power : 2 ^ (32 * front.length + b + 1) = 2 ^ (32 * front.length) * 2 ^ (b + 1) := by
        rw [Nat.add_assoc, Nat.pow_add]
      rw [power]
      calc limbsValue front + 2 ^ (32 * front.length) * top.toNat
          < 2 ^ (32 * front.length) * (top.toNat + 1) := by rw [Nat.mul_succ]; omega
        _ ≤ _ := Nat.mul_le_mul_left _ high

theorem limbsValue_getD (limbs : List UInt32) (k : Nat) :
    (limbs.getD k 0).toNat = limbsValue limbs / 2 ^ (32 * k) % 2 ^ 32 := by
  rw [← limbsValue_drop, limbsValue_cons_headD (limbs.drop _), Nat.add_mul_mod_self_left,
    Nat.mod_eq_of_lt (toNat_lt32 _)]
  congr 1
  rw [List.headD_eq_head?_getD, List.head?_drop, List.getD_eq_getElem?_getD]

theorem limbsValue_take (limbs : List UInt32) (k : Nat) :
    limbsValue (limbs.take k) = limbsValue limbs % 2 ^ (32 * k) := by
  by_cases short : limbs.length ≤ k
  · have bound : limbsValue limbs < 2 ^ (32 * k) :=
      Nat.lt_of_lt_of_le (limbsValue_lt limbs) (Nat.pow_le_pow_right (by decide) (by omega))
    rw [List.take_of_length_le short, Nat.mod_eq_of_lt bound]
  · have length : (limbs.take k).length = k := by
      rw [List.length_take]
      omega
    have bound := limbsValue_lt (limbs.take k)
    rw [length] at bound
    conv_rhs => rw [← List.take_append_drop k limbs, limbsValue_append, length]
    rw [Nat.add_mul_mod_self_left, Nat.mod_eq_of_lt bound]

def bitOfLimbs (limbs : List UInt32) (i : Nat) : Bool := (limbs.getD (i / 32) 0).toNat.testBit (i % 32)

theorem bitOfLimbs_eq (limbs : List UInt32) (i : Nat) :
    bitOfLimbs limbs i = (limbsValue limbs).testBit i := by
  rw [bitOfLimbs, limbsValue_getD, Nat.testBit_mod_two_pow, Nat.testBit_div_two_pow]
  have inside : i % 32 < 32 := Nat.mod_lt _ (by decide)
  have place : i % 32 + 32 * (i / 32) = i := Nat.mod_add_div i 32
  rw [place]
  simp [inside]

def anyBitBelow (limbs : List UInt32) (i : Nat) : Bool :=
  (limbs.take (i / 32)).any (· ≠ 0) ||
    decide (i % 32 ≠ 0 ∧ (limbs.getD (i / 32) 0).toNat <<< (32 - i % 32) % 2 ^ 32 ≠ 0)

theorem limbsValue_ne_zero_iff (limbs : List UInt32) :
    limbsValue limbs ≠ 0 ↔ limbs.any (· ≠ 0) = true := by
  induction limbs with
  | nil => simp [limbsValue]
  | cons x rest ih =>
    have head : x ≠ 0 ↔ x.toNat ≠ 0 := by
      rw [ne_eq, ne_eq, ← UInt32.toNat_inj]
      rfl
    simp only [limbsValue, List.any_cons, Bool.or_eq_true, ← ih, decide_eq_true_eq, head]
    omega

theorem shifted_out_ne_zero {r : Nat} (below : r ≤ 32) (x : Nat) :
    x <<< (32 - r) % 2 ^ 32 ≠ 0 ↔ x % 2 ^ r ≠ 0 := by
  have power : 2 ^ 32 = 2 ^ (32 - r) * 2 ^ r := by
    rw [← Nat.pow_add]
    congr 1
    omega
  have positive := Nat.two_pow_pos (32 - r)
  rw [Nat.shiftLeft_eq, power, Nat.mul_comm x, Nat.mul_mod_mul_left]
  constructor
  · intro set zero
    exact set (by rw [zero, Nat.mul_zero])
  · intro set zero
    exact set ((Nat.mul_eq_zero.mp zero).resolve_left positive.ne')

theorem anyBitBelow_eq (limbs : List UInt32) (i : Nat) :
    anyBitBelow limbs i = decide (limbsValue limbs % 2 ^ i ≠ 0) := by
  have inside : i % 32 < 32 := Nat.mod_lt _ (by decide)
  have place : 32 * (i / 32) + i % 32 = i := Nat.div_add_mod i 32
  have whole : limbsValue limbs % 2 ^ i = limbsValue (limbs.take (i / 32)) +
      2 ^ (32 * (i / 32)) * ((limbs.getD (i / 32) 0).toNat % 2 ^ (i % 32)) := by
    have divides : 2 ^ (i % 32) ∣ 2 ^ 32 := Nat.pow_dvd_pow 2 (by omega)
    rw [limbsValue_take, limbsValue_getD, Nat.mod_mod_of_dvd _ divides, ← Nat.mod_mul,
      ← Nat.pow_add, place]
  have positive := Nat.two_pow_pos (32 * (i / 32))
  rw [Bool.eq_iff_iff, anyBitBelow, Bool.or_eq_true, ← limbsValue_ne_zero_iff, decide_eq_true_iff,
    decide_eq_true_iff, shifted_out_ne_zero inside.le, whole]
  constructor
  · rintro (set | ⟨_, set⟩) zero
    · omega
    · have none_ := (Nat.add_eq_zero_iff.mp zero).2
      exact set ((Nat.mul_eq_zero.mp none_).resolve_left positive.ne')
  · intro set
    by_cases below : limbsValue (limbs.take (i / 32)) = 0
    · refine .inr ⟨?_, ?_⟩
      · intro aligned
        rw [below, aligned, Nat.pow_zero, Nat.mod_one] at set
        exact set rfl
      · intro zero
        rw [below, zero] at set
        exact set rfl
    · exact .inl below

def limbsOfLittle : List UInt8 → List UInt32
  | a :: b :: c :: d :: rest => UInt32.ofNat (ofLittle [a, b, c, d]) :: limbsOfLittle rest
  | [] => []
  | few => [UInt32.ofNat (ofLittle few)]

theorem toNat_limb {few : List UInt8} (short : few.length ≤ 4) :
    (UInt32.ofNat (ofLittle few)).toNat = ofLittle few := by
  have bound := ofLittle_lt few
  have power : 256 ^ few.length ≤ 2 ^ 32 :=
    Nat.le_trans (Nat.pow_le_pow_right (by decide) short) (by decide)
  rw [toNat_ofNat32, Nat.mod_eq_of_lt (by omega)]

theorem limbsValue_limbsOfLittle (bytes : List UInt8) :
    limbsValue (limbsOfLittle bytes) = ofLittle bytes := by
  fun_induction limbsOfLittle bytes with
  | case1 a b c d rest ih =>
    rw [limbsValue, ih, toNat_limb (by simp)]
    simp only [ofLittle]
    omega
  | case2 => rfl
  | case3 few long empty =>
    have short : few.length ≤ 4 := by
      rcases few with _ | ⟨a, _ | ⟨b, _ | ⟨c, _ | ⟨d, rest⟩⟩⟩⟩
      · simp
      · simp
      · simp
      · simp
      · exact absurd rfl (long a b c d rest)
    simp only [limbsValue, toNat_limb short]
    omega

def littleOfLimbs (limbs : List UInt32) : List UInt8 := limbs.flatMap fun x => toLittle 4 x.toNat

theorem ofLittle_littleOfLimbs (limbs : List UInt32) :
    ofLittle (littleOfLimbs limbs) = limbsValue limbs := by
  induction limbs with
  | nil => rfl
  | cons x rest ih =>
    have limb := toNat_lt32 x
    have bytes : ofLittle (toLittle 4 x.toNat) = x.toNat := by
      rw [ofLittle_toLittle]
      exact Nat.mod_eq_of_lt limb
    have cons : littleOfLimbs (x :: rest) = toLittle 4 x.toNat ++ littleOfLimbs rest := rfl
    rw [cons, ofLittle_append, bytes, ih, length_toLittle, limbsValue]
    rfl

namespace BigNat

def zero : BigNat := ⟨[], by decide⟩

def one : BigNat := ofNat32 1

@[simp] theorem value_zero : zero.value = 0 := rfl

@[simp] theorem value_one : one.value = 1 := by simp [one]

def bitLen (n : BigNat) : Nat := bitsOfLimbs n.limbs

@[simp] theorem bitLen_eq (n : BigNat) : n.bitLen = bitLength n.value := n.trimmed.bitsOfLimbs_eq

def bit (n : BigNat) (i : Nat) : Bool := bitOfLimbs n.limbs i

@[simp] theorem bit_eq (n : BigNat) (i : Nat) : n.bit i = n.value.testBit i := bitOfLimbs_eq _ _

def anyBitBelow (n : BigNat) (i : Nat) : Bool := Support.anyBitBelow n.limbs i

@[simp] theorem anyBitBelow_eq (n : BigNat) (i : Nat) :
    n.anyBitBelow i = decide (n.value % 2 ^ i ≠ 0) := Support.anyBitBelow_eq _ _

def mulSmall (n : BigNat) (m : Nat) : BigNat := ofLimbs (mulAddLimbs m 0 n.limbs)

theorem value_mulSmall (n : BigNat) {m : Nat} (small : m < 2 ^ 32) :
    (n.mulSmall m).value = n.value * m := by
  rw [mulSmall, value_ofLimbs, limbsValue_mulAddLimbs small _ 0 (by decide), Nat.add_zero, value]

def addSmall (n : BigNat) (a : Nat) : BigNat := ofLimbs (addLimbs a n.limbs)

theorem value_addSmall (n : BigNat) {a : Nat} (small : a < 2 ^ 32) :
    (n.addSmall a).value = n.value + a := by
  rw [addSmall, value_ofLimbs, limbsValue_addLimbs _ _ small, value]

def divSmall (n : BigNat) (d : Nat) : BigNat × Nat :=
  (ofLimbs (divLimbs d n.limbs).1, (divLimbs d n.limbs).2)

theorem value_divSmall (n : BigNat) {d : Nat} (positive : 0 < d) :
    (n.divSmall d).1.value = n.value / d ∧ (n.divSmall d).2 = n.value % d := by
  rw [divSmall, value_ofLimbs]
  exact divLimbs_spec positive n.limbs

def sub (a b : BigNat) : BigNat := ofLimbs (subLimbs 0 a.limbs b.limbs)

theorem value_sub {a b : BigNat} (enough : b.value ≤ a.value) :
    (a.sub b).value = a.value - b.value := by
  rw [sub, value_ofLimbs, limbsValue_subLimbs _ 0 _ (by decide) enough]
  rfl

def shl (n : BigNat) (bits : Nat) : BigNat :=
  if n.limbs.isEmpty then n
  else ofLimbs (List.replicate (bits / 32) 0 ++ shlLimbs (bits % 32) 0 n.limbs)

@[simp] theorem value_shl (n : BigNat) (bits : Nat) : (n.shl bits).value = n.value * 2 ^ bits := by
  rw [shl]
  split
  · rename_i empty
    have zero := n.isZero_iff.mp empty
    rw [zero, Nat.zero_mul]
  · have inside : bits % 32 < 32 := Nat.mod_lt _ (by decide)
    have place : 32 * (bits / 32) + bits % 32 = bits := Nat.div_add_mod bits 32
    rw [value_ofLimbs, limbsValue_append, limbsValue_replicate_zero, List.length_replicate,
      limbsValue_shlLimbs inside _ 0 (by simp)]
    have power : 2 ^ bits = 2 ^ (32 * (bits / 32)) * 2 ^ (bits % 32) := by rw [← Nat.pow_add, place]
    rw [power, value]
    simp
    ring

def shr (n : BigNat) (bits : Nat) : BigNat :=
  if n.limbs.length ≤ bits / 32 then zero
  else ofLimbs (shrLimbs (bits % 32) (n.limbs.drop (bits / 32)))

@[simp] theorem value_shr (n : BigNat) (bits : Nat) : (n.shr bits).value = n.value / 2 ^ bits := by
  have inside : bits % 32 < 32 := Nat.mod_lt _ (by decide)
  have place : 32 * (bits / 32) + bits % 32 = bits := Nat.div_add_mod bits 32
  have dropped : limbsValue (shrLimbs (bits % 32) (n.limbs.drop (bits / 32))) = n.value / 2 ^ bits := by
    rw [limbsValue_shrLimbs inside, limbsValue_drop, Nat.div_div_eq_div_mul, ← Nat.pow_add, place,
      value]
  rw [shr]
  split
  · rename_i short
    rw [← dropped, List.drop_eq_nil_of_le short]
    rfl
  · rw [value_ofLimbs, dropped]

def cmp (a b : BigNat) : Ordering :=
  if a.limbs.length ≠ b.limbs.length then compare a.limbs.length b.limbs.length
  else compareLimbs a.limbs b.limbs

theorem value_lt_of_length {a b : BigNat} (fewer : a.limbs.length < b.limbs.length) :
    a.value < b.value := by
  have low := b.trimmed.le_value (by intro empty; rw [empty] at fewer; simp at fewer)
  have high := limbsValue_lt a.limbs
  have power : 2 ^ (32 * a.limbs.length) ≤ 2 ^ (32 * (b.limbs.length - 1)) :=
    Nat.pow_le_pow_right (by decide) (by omega)
  exact Nat.lt_of_lt_of_le high (Nat.le_trans power low)

@[simp] theorem cmp_eq (a b : BigNat) : cmp a b = compare a.value b.value := by
  rw [cmp]
  split
  · rename_i different
    rcases Nat.lt_or_gt_of_ne different with fewer | more
    · rw [Nat.compare_eq_lt.mpr fewer, Nat.compare_eq_lt.mpr (value_lt_of_length fewer)]
    · rw [Nat.compare_eq_gt.mpr more, Nat.compare_eq_gt.mpr (value_lt_of_length more)]
  · rename_i same
    exact compareLimbs_eq _ _ (not_not.mp same)

def mul (a b : BigNat) : BigNat :=
  if a.isZero || b.isZero then zero else ofLimbs (mulLimbs a.limbs b.limbs)

@[simp] theorem value_mul (a b : BigNat) : (a.mul b).value = a.value * b.value := by
  rw [mul]
  split
  · rename_i either
    rcases Bool.or_eq_true _ _ ▸ either with left | right
    · rw [a.isZero_iff.mp left, Nat.zero_mul, value_zero]
    · rw [b.isZero_iff.mp right, Nat.mul_zero, value_zero]
  · rw [value_ofLimbs, limbsValue_mulLimbs]
    rfl

def pow10 (n : Nat) : BigNat :=
  (mulSmall · 10)^[n % 9] ((mulSmall · 1000000000)^[n / 9] one)

theorem value_iterate_mulSmall {m : Nat} (small : m < 2 ^ 32) (n : BigNat) (k : Nat) :
    ((mulSmall · m)^[k] n).value = n.value * m ^ k := by
  induction k with
  | zero => simp
  | succ k ih =>
    rw [Function.iterate_succ_apply', value_mulSmall _ small, ih, Nat.pow_succ, Nat.mul_assoc]

@[simp] theorem value_pow10 (n : Nat) : (pow10 n).value = 10 ^ n := by
  rw [pow10, value_iterate_mulSmall (by decide), value_iterate_mulSmall (by decide), value_one,
    Nat.one_mul]
  have batch : 1000000000 = 10 ^ 9 := by decide
  rw [batch, ← Nat.pow_mul, ← Nat.pow_add, Nat.div_add_mod]

def ofBytes (bytes : List UInt8) : BigNat := ofLimbs (limbsOfLittle bytes.reverse)

@[simp] theorem value_ofBytes (bytes : List UInt8) : (ofBytes bytes).value = ofBig 0 bytes := by
  rw [ofBytes, value_ofLimbs, limbsValue_limbsOfLittle, ofBig_eq_reverse]

def toBytes (n : BigNat) : List UInt8 := ((littleOfLimbs n.limbs).take ((n.bitLen + 7) / 8)).reverse

theorem ofBig_toBytes (n : BigNat) : ofBig 0 n.toBytes = n.value := by
  have wide : n.value < 256 ^ ((n.bitLen + 7) / 8) := by
    rw [show 256 = 2 ^ 8 from rfl, ← Nat.pow_mul, ← bitLength_le, ← bitLen_eq]
    omega
  rw [toBytes, ofBig_reverse, ofLittle_take, ofLittle_littleOfLimbs]
  exact Nat.mod_eq_of_lt wide

end BigNat

end Support
