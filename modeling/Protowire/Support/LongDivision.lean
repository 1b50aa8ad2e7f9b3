import Mathlib.Tactic.LinearCombination
import Mathlib.Tactic.Zify
import Protowire.Support.Iterate
import Protowire.Support.Limbs

/-!
Long division of limbs by limbs, Knuth's Algorithm D. A quotient limb is estimated from the top
limbs, which with the divisor's top bit set is at most one too large; the product is subtracted,
and the divisor added back where that went below zero.
-/

namespace Support

def estimateTurn (v₁ v₂ u₂ : Nat) (s : Nat × Nat) : Turn (Nat × Nat) Nat :=
  if 2 ^ 32 ≤ s.1 ∨ s.2 * 2 ^ 32 + u₂ < s.1 * v₂ then
    if 2 ^ 32 ≤ s.2 + v₁ then .done (s.1 - 1) else .next (s.1 - 1, s.2 + v₁)
  else .done s.1

def estimate (v₁ v₂ u₀ u₁ u₂ : Nat) : Nat :=
  loop (fun s => 2 ^ 32 - s.2) (estimateTurn v₁ v₂ u₂) (fun s => s.1)
    ((u₀ * 2 ^ 32 + u₁) / v₁, (u₀ * 2 ^ 32 + u₁) % v₁)

theorem estimateTurn_lowers {v₁ : Nat} (positive : 0 < v₁) (v₂ u₂ : Nat) :
    Lowers (fun s : Nat × Nat => 2 ^ 32 - s.2) (estimateTurn v₁ v₂ u₂) := by
  intro s s' turned
  rw [estimateTurn] at turned
  split at turned
  · split at turned
    · cases turned
    · cases turned
      simp only
      omega
  · cases turned

structure Digit where
  (v₁ v₂ v' u₀ u₁ u₂ u' P : Nat)
  low : v' < P
  low' : u' < P
  limb : v₂ < 2 ^ 32
  limb' : u₂ < 2 ^ 32
  normal : 2 ^ 32 ≤ 2 * v₁
  single : ((u₀ * 2 ^ 32 + u₁) * 2 ^ 32 + u₂) * P + u' < ((v₁ * 2 ^ 32 + v₂) * P + v') * 2 ^ 32

namespace Digit

variable (d : Digit)

def V : Nat := (d.v₁ * 2 ^ 32 + d.v₂) * d.P + d.v'

def T : Nat := d.u₀ * 2 ^ 32 + d.u₁

def W : Nat := (d.T * 2 ^ 32 + d.u₂) * d.P + d.u'

theorem P_pos : 0 < d.P := Nat.lt_of_le_of_lt (Nat.zero_le _) d.low

theorem le_V : d.v₁ * 2 ^ 32 * d.P ≤ d.V := by
  rw [V, Nat.add_mul]
  omega

theorem V_lt : d.V < (d.v₁ + 1) * 2 ^ 32 * d.P := by
  have low := d.low
  have limb := d.limb
  calc d.V < (d.v₁ * 2 ^ 32 + d.v₂ + 1) * d.P := by rw [V, Nat.succ_mul]; omega
    _ ≤ _ := Nat.mul_le_mul_right _ (by omega)

theorem V_pos : 0 < d.V := by
  have normal := d.normal
  have product := Nat.mul_pos (show 0 < d.v₁ * 2 ^ 32 by omega) d.P_pos
  exact Nat.lt_of_lt_of_le product d.le_V

theorem le_W : d.T * 2 ^ 32 * d.P ≤ d.W := by
  rw [W, Nat.add_mul]
  omega

theorem W_lt : d.W < (d.T * 2 ^ 32 + d.u₂ + 1) * d.P := by
  have low := d.low'
  rw [W, Nat.succ_mul]
  omega

theorem quotient_lt : d.W / d.V < 2 ^ 32 := by
  rw [Nat.div_lt_iff_lt_mul d.V_pos, Nat.mul_comm]
  exact d.single

variable {d} {s : Nat × Nat}

structure Keeps (d : Digit) (s : Nat × Nat) : Prop where
  split_ : s.1 * d.v₁ + s.2 = d.T
  enough : d.W / d.V ≤ s.1
  near : s.1 ≤ 2 ^ 32 + 1

theorem keeps_start : d.Keeps (d.T / d.v₁, d.T % d.v₁) := by
  have normal := d.normal
  have positive : 0 < d.v₁ := by omega
  refine ⟨by rw [Nat.mul_comm]; exact Nat.div_add_mod _ _, ?_, ?_⟩
  · rw [Nat.le_div_iff_mul_le positive]
    have weight := Nat.mul_pos (show 0 < 2 ^ 32 by decide) d.P_pos
    refine Nat.le_of_lt_succ (Nat.lt_of_mul_lt_mul_right (a := 2 ^ 32 * d.P) ?_)
    have limb := d.limb'
    calc d.W / d.V * d.v₁ * (2 ^ 32 * d.P) = d.W / d.V * (d.v₁ * 2 ^ 32 * d.P) := by ring
      _ ≤ d.W / d.V * d.V := Nat.mul_le_mul_left _ d.le_V
      _ ≤ d.W := Nat.div_mul_le_self _ _
      _ < (d.T * 2 ^ 32 + d.u₂ + 1) * d.P := d.W_lt
      _ ≤ ((d.T + 1) * 2 ^ 32) * d.P := Nat.mul_le_mul_right _ (by omega)
      _ = (d.T + 1) * (2 ^ 32 * d.P) := by ring
  · have top : d.T < (d.v₁ + 1) * 2 ^ 32 := by
      refine Nat.lt_of_mul_lt_mul_right (a := 2 ^ 32 * d.P) ?_
      calc d.T * (2 ^ 32 * d.P) = d.T * 2 ^ 32 * d.P := by ring
        _ ≤ d.W := d.le_W
        _ < d.V * 2 ^ 32 := d.single
        _ ≤ (d.v₁ + 1) * 2 ^ 32 * d.P * 2 ^ 32 := Nat.mul_le_mul_right _ d.V_lt.le
        _ = (d.v₁ + 1) * 2 ^ 32 * (2 ^ 32 * d.P) := by ring
    refine Nat.le_of_lt_succ ((Nat.div_lt_iff_lt_mul positive).mpr ?_)
    calc d.T < d.v₁ * 2 ^ 32 + 2 ^ 32 := by rw [Nat.succ_mul] at top; exact top
      _ ≤ d.v₁ * 2 ^ 32 + 2 * d.v₁ := by omega
      _ = (2 ^ 32 + 1 + 1) * d.v₁ := by ring

theorem Keeps.quotient_lt (keeps : d.Keeps s)
    (large : 2 ^ 32 ≤ s.1 ∨ s.2 * 2 ^ 32 + d.u₂ < s.1 * d.v₂) : d.W / d.V < s.1 := by
  obtain wide | past := large
  · exact Nat.lt_of_lt_of_le d.quotient_lt wide
  · rw [Nat.div_lt_iff_lt_mul d.V_pos]
    have top : d.T * 2 ^ 32 + d.u₂ + 1 ≤ s.1 * (d.v₁ * 2 ^ 32 + d.v₂) := by
      rw [← keeps.split_]
      calc _ = s.1 * d.v₁ * 2 ^ 32 + (s.2 * 2 ^ 32 + d.u₂ + 1) := by ring
        _ ≤ s.1 * d.v₁ * 2 ^ 32 + s.1 * d.v₂ := Nat.add_le_add_left past _
        _ = _ := by ring
    calc d.W < (d.T * 2 ^ 32 + d.u₂ + 1) * d.P := d.W_lt
      _ ≤ s.1 * (d.v₁ * 2 ^ 32 + d.v₂) * d.P := Nat.mul_le_mul_right _ top
      _ ≤ s.1 * d.V := by
          rw [Nat.mul_assoc]
          exact Nat.mul_le_mul_left _ (Nat.le_add_right _ _)

theorem Keeps.lowered (keeps : d.Keeps s)
    (large : 2 ^ 32 ≤ s.1 ∨ s.2 * 2 ^ 32 + d.u₂ < s.1 * d.v₂) :
    (s.1 - 1) * d.v₁ + (s.2 + d.v₁) = d.T := by
  obtain ⟨q, same⟩ := Nat.exists_eq_succ_of_ne_zero (Nat.ne_of_gt
    (Nat.lt_of_le_of_lt (Nat.zero_le _) (keeps.quotient_lt large)))
  rw [← keeps.split_, same, Nat.succ_sub_one, Nat.succ_mul]
  omega

theorem Keeps.le_succ (keeps : d.Keeps s) (narrow : s.1 < 2 ^ 32)
    (within : s.1 * d.v₂ ≤ s.2 * 2 ^ 32 + d.u₂) : s.1 ≤ d.W / d.V + 1 := by
  have normal := d.normal
  have top : s.1 * (d.v₁ * 2 ^ 32 + d.v₂) ≤ d.T * 2 ^ 32 + d.u₂ := by
    rw [← keeps.split_]
    calc _ = s.1 * d.v₁ * 2 ^ 32 + s.1 * d.v₂ := by ring
      _ ≤ s.1 * d.v₁ * 2 ^ 32 + (s.2 * 2 ^ 32 + d.u₂) := Nat.add_le_add_left within _
      _ = _ := by ring
  have spare : s.1 * d.v' ≤ d.V :=
    calc s.1 * d.v' ≤ 2 ^ 32 * d.P := Nat.mul_le_mul narrow.le d.low.le
      _ ≤ d.v₁ * 2 ^ 32 * d.P := Nat.mul_le_mul_right _ (by omega)
      _ ≤ d.V := d.le_V
  rw [← Nat.add_div_right _ d.V_pos, Nat.le_div_iff_mul_le d.V_pos]
  calc s.1 * d.V = s.1 * (d.v₁ * 2 ^ 32 + d.v₂) * d.P + s.1 * d.v' := by rw [V]; ring
    _ ≤ (d.T * 2 ^ 32 + d.u₂) * d.P + d.V := Nat.add_le_add (Nat.mul_le_mul_right _ top) spare
    _ ≤ d.W + d.V := Nat.add_le_add_right (Nat.le_add_right _ _) _

theorem le_quotient {q r : Nat} (split_ : q * d.v₁ + r = d.T) (wide : 2 ^ 32 ≤ r)
    (near : q ≤ 2 ^ 32) : q ≤ d.W / d.V := by
  have top : q * (d.v₁ + 1) ≤ d.T := by
    rw [Nat.mul_succ]
    omega
  rw [Nat.le_div_iff_mul_le d.V_pos]
  calc q * d.V ≤ q * ((d.v₁ + 1) * 2 ^ 32 * d.P) := Nat.mul_le_mul_left _ d.V_lt.le
    _ = q * (d.v₁ + 1) * 2 ^ 32 * d.P := by ring
    _ ≤ d.T * 2 ^ 32 * d.P := Nat.mul_le_mul_right _ (Nat.mul_le_mul_right _ top)
    _ ≤ d.W := d.le_W

def Estimates (d : Digit) (q : Nat) : Prop := d.W / d.V ≤ q ∧ q ≤ d.W / d.V + 1 ∧ q < 2 ^ 32

theorem estimate_loop (s : Nat × Nat) : d.Keeps s →
    d.Estimates (loop (fun s => 2 ^ 32 - s.2) (estimateTurn d.v₁ d.v₂ d.u₂) (fun s => s.1) s) := by
  have normal := d.normal
  refine loop_induct (estimateTurn_lowers (show 0 < d.v₁ by omega) d.v₂ d.u₂)
    (motive := fun s found => d.Keeps s → d.Estimates found) ?_ ?_ s
  · intro s s' found turned ih keeps
    rw [estimateTurn] at turned
    split_ifs at turned with large
    cases turned
    have below := keeps.quotient_lt large
    refine ih ⟨keeps.lowered large, by simp only; omega, ?_⟩
    · have near := keeps.near
      simp only
      omega
  · intro s found turned keeps
    rw [estimateTurn] at turned
    split_ifs at turned with large wide
    · cases turned
      have below := keeps.quotient_lt large
      have near := keeps.near
      have upper := le_quotient (keeps.lowered large) wide (by omega)
      have bound := d.quotient_lt
      exact ⟨by omega, by omega, by omega⟩
    · cases turned
      exact ⟨keeps.enough, keeps.le_succ (by omega) (by omega), by omega⟩

theorem estimate_spec : d.Estimates (estimate d.v₁ d.v₂ d.u₀ d.u₁ d.u₂) :=
  estimate_loop _ keeps_start

end Digit

def lowLimb (t : Int) : UInt32 := UInt32.ofNat (t % 2 ^ 32).toNat

def borrowOf (t : Int) : Nat := if t < 0 then 1 else 0

theorem lowLimb_spec {t : Int} (low : -2 ^ 32 ≤ t) (high : t < 2 ^ 32) :
    ((lowLimb t).toNat : Int) = t + 2 ^ 32 * borrowOf t := by
  rw [lowLimb, toNat_ofNat32, borrowOf]
  split <;> omega

theorem borrowOf_le (t : Int) : borrowOf t ≤ 1 := by
  rw [borrowOf]
  split <;> omega

def subMulLimbs (q : Nat) : Nat → Nat → List UInt32 → List UInt32 → List UInt32 × Nat
  | carry, borrow, [], top :: above =>
    let t : Int := top.toNat - borrow - carry
    (lowLimb t :: above, borrowOf t)
  | carry, borrow, y :: rest, x :: more =>
    let p := q * y.toNat + carry
    let t : Int := x.toNat - borrow - (p % 2 ^ 32 : Nat)
    let r := subMulLimbs q (p / 2 ^ 32) (borrowOf t) rest more
    (lowLimb t :: r.1, r.2)
  | _, _, _, [] => ([], 0)

def addBackLimbs : Nat → List UInt32 → List UInt32 → List UInt32
  | carry, [], top :: above => UInt32.ofNat (top.toNat + carry) :: above
  | carry, y :: rest, x :: more =>
    UInt32.ofNat (x.toNat + y.toNat + carry) ::
      addBackLimbs ((x.toNat + y.toNat + carry) / 2 ^ 32) rest more
  | _, _, [] => []

theorem subMulLimbs_spec {q : Nat} (single : q < 2 ^ 32) (v : List UInt32) :
    ∀ carry borrow (u : List UInt32), carry < 2 ^ 32 → borrow ≤ 1 → v.length < u.length →
      limbsValue (subMulLimbs q carry borrow v u).1 + q * limbsValue v + carry + borrow =
          limbsValue u + 2 ^ (32 * (v.length + 1)) * (subMulLimbs q carry borrow v u).2 ∧
        (subMulLimbs q carry borrow v u).2 ≤ 1 ∧
        (subMulLimbs q carry borrow v u).1.length = u.length ∧
        (subMulLimbs q carry borrow v u).1.drop (v.length + 1) = u.drop (v.length + 1) := by
  induction v with
  | nil =>
    intro carry borrow u carried bit room
    cases u with
    | nil => simp at room
    | cons top above =>
      have limb := toNat_lt32 top
      refine ⟨?_, borrowOf_le _, rfl, rfl⟩
      have head := lowLimb_spec (t := top.toNat - borrow - carry) (by omega) (by omega)
      simp only [subMulLimbs, limbsValue, List.length_nil]
      zify
      linear_combination head
  | cons y rest ih =>
    intro carry borrow u carried bit room
    cases u with
    | nil => simp at room
    | cons x more =>
      have limb := toNat_lt32 x
      have wide := mul_add_lt single (toNat_lt32 y) carried
      have split_ := Nat.mod_add_div (q * y.toNat + carry) (2 ^ 32)
      have low := Nat.mod_lt (q * y.toNat + carry) (show 0 < 2 ^ 32 by decide)
      have carried' : (q * y.toNat + carry) / 2 ^ 32 < 2 ^ 32 := by omega
      simp only [subMulLimbs, limbsValue, List.length_cons]
      generalize (q * y.toNat + carry) % 2 ^ 32 = p₀ at *
      generalize (q * y.toNat + carry) / 2 ^ 32 = p₁ at *
      obtain ⟨value, flag, length, above⟩ := ih p₁ (borrowOf (x.toNat - borrow - p₀)) more
        carried' (borrowOf_le _) (by simpa using room)
      have head := lowLimb_spec (t := x.toNat - borrow - p₀) (by omega) (by omega)
      refine ⟨?_, flag, by rw [length], by rw [List.drop_succ_cons, above, List.drop_succ_cons]⟩
      have power : 2 ^ (32 * (rest.length + 1 + 1)) = 2 ^ 32 * 2 ^ (32 * (rest.length + 1)) := by
        rw [Nat.mul_succ, Nat.add_comm, Nat.pow_add]
      rw [power]
      zify at value split_ ⊢
      linear_combination head + 2 ^ 32 * value - split_

theorem addBackLimbs_spec (v : List UInt32) : ∀ carry (u : List UInt32), carry ≤ 1 →
    v.length < u.length →
      (∃ lost, limbsValue (addBackLimbs carry v u) + 2 ^ (32 * (v.length + 1)) * lost =
          limbsValue u + limbsValue v + carry) ∧
        (addBackLimbs carry v u).length = u.length ∧
        (addBackLimbs carry v u).drop (v.length + 1) = u.drop (v.length + 1) := by
  induction v with
  | nil =>
    intro carry u _ room
    cases u with
    | nil => simp at room
    | cons top above =>
      refine ⟨⟨(top.toNat + carry) / 2 ^ 32, ?_⟩, rfl, rfl⟩
      simp only [addBackLimbs, limbsValue, toNat_ofNat32, List.length_nil]
      omega
  | cons y rest ih =>
    intro carry u bit room
    cases u with
    | nil => simp at room
    | cons x more =>
      have limb := toNat_lt32 x
      have limb' := toNat_lt32 y
      obtain ⟨⟨lost, value⟩, length, above⟩ := ih ((x.toNat + y.toNat + carry) / 2 ^ 32) more
        (by omega) (by simpa using room)
      refine ⟨⟨lost, ?_⟩, by rw [addBackLimbs, List.length_cons, length, List.length_cons],
        by rw [addBackLimbs, List.length_cons, List.drop_succ_cons, above, List.drop_succ_cons]⟩
      have power : 2 ^ (32 * ((y :: rest).length + 1)) = 2 ^ 32 * 2 ^ (32 * (rest.length + 1)) := by
        rw [List.length_cons, Nat.mul_succ, Nat.add_comm, Nat.pow_add]
      simp only [addBackLimbs, limbsValue, toNat_ofNat32]
      rw [power, Nat.mul_assoc]
      omega

def divideDigit (v u : List UInt32) : UInt32 × List UInt32 :=
  let n := v.length
  let q := estimate (v.getD (n - 1) 0).toNat (v.getD (n - 2) 0).toNat (u.getD n 0).toNat
    (u.getD (n - 1) 0).toNat (u.getD (n - 2) 0).toNat
  let r := subMulLimbs q 0 0 v u
  if r.2 = 0 then (UInt32.ofNat q, r.1) else (UInt32.ofNat (q - 1), addBackLimbs 0 v r.1)

def divideLimbs (v : List UInt32) : List UInt32 → List UInt32 × List UInt32
  | [] => ([], [])
  | x :: rest =>
    let above := divideLimbs v rest
    if above.1.length < v.length then (x :: above.1, above.2)
    else
      let r := divideDigit v (x :: above.1)
      (r.2, r.1 :: above.2)

theorem limbsValue_drop_getD (limbs : List UInt32) (k : Nat) :
    limbsValue (limbs.drop k) =
      (limbs.getD k 0).toNat + 2 ^ 32 * limbsValue (limbs.drop (k + 1)) := by
  rw [limbsValue_cons_headD, List.tail_drop, List.headD_eq_head?_getD, List.head?_drop,
    List.getD_eq_getElem?_getD]

theorem limbsValue_split (limbs : List UInt32) (k : Nat) :
    limbsValue limbs = limbsValue (limbs.take k) + 2 ^ (32 * k) * limbsValue (limbs.drop k) := by
  rw [limbsValue_take, limbsValue_drop, Nat.mod_add_div]

structure Normal (v : List UInt32) : Prop where
  long : 2 ≤ v.length
  top : 2 ^ 31 ≤ (v.getD (v.length - 1) 0).toNat

section

variable {v u : List UInt32}

theorem Normal.value_eq (normal : Normal v) : limbsValue v =
    ((v.getD (v.length - 1) 0).toNat * 2 ^ 32 + (v.getD (v.length - 2) 0).toNat) *
      2 ^ (32 * (v.length - 2)) + limbsValue (v.take (v.length - 2)) := by
  have long := normal.long
  rw [limbsValue_split v (v.length - 2), limbsValue_drop_getD,
    show v.length - 2 + 1 = v.length - 1 by omega, limbsValue_drop_getD,
    show v.length - 1 + 1 = v.length by omega, List.drop_length]
  simp only [limbsValue]
  ring

theorem Normal.le_value (normal : Normal v) : 2 ^ (32 * (v.length - 1)) ≤ limbsValue v := by
  have long := normal.long
  have top := normal.top
  have power : 2 ^ (32 * (v.length - 1)) = 2 ^ 32 * 2 ^ (32 * (v.length - 2)) := by
    rw [← Nat.pow_add]
    congr 1
    omega
  rw [normal.value_eq, power]
  refine Nat.le_trans (Nat.mul_le_mul_right _ ?_) (Nat.le_add_right _ _)
  omega

theorem drop_eq_zero (single : limbsValue u < limbsValue v * 2 ^ 32) :
    limbsValue (u.drop (v.length + 1)) = 0 := by
  have power : 2 ^ (32 * (v.length + 1)) = 2 ^ (32 * v.length) * 2 ^ 32 := by
    rw [Nat.mul_succ, Nat.pow_add]
  rw [limbsValue_drop, Nat.div_eq_of_lt]
  rw [power]
  exact Nat.lt_trans single (Nat.mul_lt_mul_of_pos_right (limbsValue_lt v) (by decide))

theorem Normal.digit (normal : Normal v) (single : limbsValue u < limbsValue v * 2 ^ 32) :
    ∃ d : Digit, d.V = limbsValue v ∧ d.W = limbsValue u ∧
      estimate (v.getD (v.length - 1) 0).toNat (v.getD (v.length - 2) 0).toNat
        (u.getD v.length 0).toNat (u.getD (v.length - 1) 0).toNat (u.getD (v.length - 2) 0).toNat =
        estimate d.v₁ d.v₂ d.u₀ d.u₁ d.u₂ := by
  have long := normal.long
  have top := normal.top
  have nothing := drop_eq_zero single
  have whole : limbsValue u =
      (((u.getD v.length 0).toNat * 2 ^ 32 + (u.getD (v.length - 1) 0).toNat) * 2 ^ 32 +
        (u.getD (v.length - 2) 0).toNat) * 2 ^ (32 * (v.length - 2)) +
        limbsValue (u.take (v.length - 2)) := by
    rw [limbsValue_split u (v.length - 2), limbsValue_drop_getD,
      show v.length - 2 + 1 = v.length - 1 by omega, limbsValue_drop_getD,
      show v.length - 1 + 1 = v.length by omega, limbsValue_drop_getD, nothing]
    ring
  have low (limbs : List UInt32) :
      limbsValue (limbs.take (v.length - 2)) < 2 ^ (32 * (v.length - 2)) := by
    rw [limbsValue_take]
    exact Nat.mod_lt _ (Nat.two_pow_pos _)
  rw [normal.value_eq, whole] at single
  exact ⟨⟨_, _, _, _, _, _, _, _, low v, low u, toNat_lt32 _, toNat_lt32 _, by omega, single⟩,
    normal.value_eq.symm, whole.symm, rfl⟩

theorem lt_of_drop_eq_zero {limbs : List UInt32} {k : Nat} (nothing : limbsValue (limbs.drop k) = 0) :
    limbsValue limbs < 2 ^ (32 * k) := by
  rw [limbsValue_split limbs k, nothing, Nat.mul_zero, Nat.add_zero, limbsValue_take]
  exact Nat.mod_lt _ (Nat.two_pow_pos _)

theorem divideDigit_spec (normal : Normal v) (room : v.length < u.length)
    (single : limbsValue u < limbsValue v * 2 ^ 32) :
    (divideDigit v u).1.toNat = limbsValue u / limbsValue v ∧
      limbsValue (divideDigit v u).2 = limbsValue u % limbsValue v ∧
      (divideDigit v u).2.length = u.length := by
  obtain ⟨d, same, same', estimated⟩ := normal.digit single
  obtain ⟨low, high, limb⟩ := d.estimate_spec
  have positive := d.V_pos
  rw [same, same', ← estimated] at low high
  rw [← estimated] at limb
  rw [same] at positive
  have nothing := drop_eq_zero single
  have below := lt_of_drop_eq_zero nothing
  have digit : limbsValue u / limbsValue v < 2 ^ 32 :=
    (Nat.div_lt_iff_lt_mul positive).mpr (by rw [Nat.mul_comm]; exact single)
  have split_ := Nat.div_add_mod' (limbsValue u) (limbsValue v)
  have rest := Nat.mod_lt (limbsValue u) positive
  simp only [divideDigit]
  generalize estimate _ _ _ _ _ = q at *
  obtain ⟨value, flag, length, above⟩ := subMulLimbs_spec limb v 0 0 u (by decide) (by decide) room
  rw [← above] at nothing
  have below' := lt_of_drop_eq_zero nothing
  generalize subMulLimbs q 0 0 v u = r at *
  split
  · rename_i none_
    -- nothing borrowed: the estimate is not too large
    rw [none_, Nat.mul_zero] at value
    have quotient : q = limbsValue u / limbsValue v :=
      Nat.le_antisymm ((Nat.le_div_iff_mul_le positive).mpr (by omega)) low
    refine ⟨by rw [toNat_ofNat32, Nat.mod_eq_of_lt limb, quotient], ?_, length⟩
    show limbsValue r.1 = _
    rw [← quotient] at split_
    omega
  · rename_i borrowed
    have one : r.2 = 1 := by omega
    rw [one, Nat.mul_one] at value
    have quotient : q = limbsValue u / limbsValue v + 1 := by
      have past : limbsValue u / limbsValue v < q := (Nat.div_lt_iff_lt_mul positive).mpr (by omega)
      omega
    obtain ⟨⟨lost, back⟩, length', above'⟩ := addBackLimbs_spec v 0 r.1 (by decide) (by omega)
    rw [← above'] at nothing
    have below'' := lt_of_drop_eq_zero nothing
    have fits := limbsValue_lt v
    refine ⟨?_, ?_, by rw [length', length]⟩
    · rw [quotient, Nat.add_sub_cancel, toNat_ofNat32, Nat.mod_eq_of_lt digit]
    · show limbsValue (addBackLimbs 0 v r.1) = _
      rw [quotient, Nat.succ_mul] at value
      have wide : 2 ^ (32 * v.length) ≤ 2 ^ (32 * (v.length + 1)) :=
        Nat.pow_le_pow_right (by decide) (by omega)
      generalize 2 ^ (32 * (v.length + 1)) = weight at *
      match lost with
      | 0 => omega
      | 1 => omega
      | more + 2 =>
        rw [Nat.mul_add] at back
        omega

theorem divideLimbs_short (u : List UInt32) (short : u.length ≤ v.length) :
    divideLimbs v u = (u, []) := by
  induction u with
  | nil => rfl
  | cons x rest ih =>
    rw [List.length_cons] at short
    rw [divideLimbs, ih (by omega)]
    simp only
    rw [if_pos (by omega)]

theorem limbsValue_lt_of_top {u : List UInt32} (top : u.getLast? = some 0) :
    limbsValue u < 2 ^ (32 * (u.length - 1)) := by
  obtain ⟨front, rfl⟩ := List.getLast?_eq_some_iff.mp top
  have below := limbsValue_lt front
  rw [limbsValue_append, List.length_append]
  simpa [limbsValue] using below

theorem divideLimbs_spec (normal : Normal v) (u : List UInt32) (top : u.getLast? = some 0) :
    limbsValue u = limbsValue (divideLimbs v u).2 * limbsValue v + limbsValue (divideLimbs v u).1 ∧
      limbsValue (divideLimbs v u).1 < limbsValue v ∧ (divideLimbs v u).1.length = u.length := by
  have floor := normal.le_value
  have long := normal.long
  induction u with
  | nil => cases top
  | cons x rest ih =>
    by_cases short : (x :: rest).length ≤ v.length
    · rw [divideLimbs_short _ short]
      have below := limbsValue_lt_of_top top
      have power : 2 ^ (32 * ((x :: rest).length - 1)) ≤ 2 ^ (32 * (v.length - 1)) :=
        Nat.pow_le_pow_right (by decide) (by omega)
      exact ⟨by simp [limbsValue], Nat.lt_of_lt_of_le below (Nat.le_trans power floor), rfl⟩
    · rw [List.length_cons] at short
      obtain ⟨whole, below, length⟩ := ih (by
        rw [← top, List.getLast?_cons_of_ne_nil]
        rintro rfl
        rw [List.length_nil] at short
        omega)
      rw [divideLimbs]
      simp only
      rw [if_neg (by omega)]
      generalize divideLimbs v rest = above at *
      have limb := toNat_lt32 x
      have single : limbsValue (x :: above.1) < limbsValue v * 2 ^ 32 := by
        rw [limbsValue]
        omega
      obtain ⟨digit, left, kept⟩ := divideDigit_spec normal
        (show v.length < (x :: above.1).length by simp only [List.length_cons]; omega) single
      refine ⟨?_, ?_, ?_⟩
      · have split_ := Nat.div_add_mod' (limbsValue (x :: above.1)) (limbsValue v)
        rw [limbsValue, limbsValue, digit, left, whole]
        generalize limbsValue (x :: above.1) / limbsValue v = quotient at *
        generalize limbsValue (x :: above.1) % limbsValue v = remainder at *
        rw [limbsValue] at split_
        calc _ = (x.toNat + 2 ^ 32 * limbsValue above.1) +
                2 ^ 32 * limbsValue above.2 * limbsValue v := by ring
          _ = _ := by rw [← split_]; ring
      · rw [left]
        exact Nat.mod_lt _ (Nat.lt_of_lt_of_le (Nat.two_pow_pos _) floor)
      · rw [kept, List.length_cons, length, List.length_cons]

end

namespace BigNat

def normalizingShift (d : BigNat) : Nat := 32 - limbBits (d.limbs.getLastD 0)

def divMod (a d : BigNat) : BigNat × BigNat :=
  if cmp a d = .lt then (zero, a)
  else if d.limbs.length = 1 then
    let r := a.divSmall (d.limbs.headD 0).toNat
    (r.1, ofNat32 (UInt32.ofNat r.2))
  else
    let shift := d.normalizingShift
    let v := d.shl shift
    let u := a.shl shift
    let room := max u.limbs.length a.limbs.length + 1
    let r := divideLimbs v.limbs (u.limbs ++ List.replicate (room - u.limbs.length) 0)
    (ofLimbs r.2, (ofLimbs r.1).shr shift)

theorem limbs_ne_nil {d : BigNat} (positive : 0 < d.value) : d.limbs ≠ [] := by
  intro empty
  rw [value, empty, limbsValue] at positive
  omega

theorem bitLength_shl {d : BigNat} (positive : 0 < d.value) :
    bitLength (d.shl d.normalizingShift).value = 32 * d.limbs.length := by
  have filled := limbs_ne_nil positive
  obtain ⟨front, top, concat⟩ := (List.eq_nil_or_concat d.limbs).resolve_left filled
  have last : d.limbs.getLast? = some top := by simp [concat]
  have bits : bitLength d.value = (d.limbs.length - 1) * 32 + limbBits top := by
    rw [← bitLen_eq, bitLen, bitsOfLimbs, last]
  have few : limbBits top ≤ 32 := bitLength_le.mpr (toNat_lt32 top)
  have shift : d.normalizingShift = 32 - limbBits top := by
    rw [normalizingShift, List.getLastD_eq_getLast?, last, Option.getD_some]
  have length := List.length_pos_iff.mpr filled
  rw [value_shl, bitLength_mul_two_pow positive.ne', bits, shift]
  omega

theorem normal_shl {d : BigNat} (long : 2 ≤ d.limbs.length) :
    Normal (d.shl d.normalizingShift).limbs := by
  have positive : 0 < d.value := by
    have low := d.trimmed.le_value (by rintro empty; rw [empty] at long; simp at long)
    exact Nat.lt_of_lt_of_le (Nat.two_pow_pos _) low
  have bits := bitLength_shl positive
  generalize d.shl d.normalizingShift = v at *
  have high : v.value < 2 ^ (32 * d.limbs.length) := bitLength_le.mp bits.le
  have low : 2 ^ (32 * d.limbs.length - 1) ≤ v.value := lt_bitLength.mp (by omega)
  have length : v.limbs.length = d.limbs.length := by
    have up : 32 * d.limbs.length - 1 < 32 * v.limbs.length :=
      (Nat.pow_lt_pow_iff_right (by decide)).mp (Nat.lt_of_le_of_lt low (limbsValue_lt v.limbs))
    have filled : v.limbs ≠ [] := limbs_ne_nil (Nat.lt_of_lt_of_le (Nat.two_pow_pos _) low)
    have down : 32 * (v.limbs.length - 1) < 32 * d.limbs.length :=
      (Nat.pow_lt_pow_iff_right (by decide)).mp (Nat.lt_of_le_of_lt (v.trimmed.le_value filled) high)
    omega
  refine ⟨by omega, ?_⟩
  have power : 2 ^ (32 * d.limbs.length - 1) = 2 ^ 31 * 2 ^ (32 * (d.limbs.length - 1)) := by
    rw [← Nat.pow_add]
    congr 1
    omega
  have power' : 2 ^ (32 * d.limbs.length) = 2 ^ 32 * 2 ^ (32 * (d.limbs.length - 1)) := by
    rw [← Nat.pow_add]
    congr 1
    omega
  rw [power] at low
  rw [power'] at high
  have weight := Nat.two_pow_pos (32 * (d.limbs.length - 1))
  have limb : limbsValue v.limbs / 2 ^ (32 * (d.limbs.length - 1)) < 2 ^ 32 :=
    (Nat.div_lt_iff_lt_mul weight).mpr high
  rw [limbsValue_getD, length, Nat.mod_eq_of_lt limb]
  exact (Nat.le_div_iff_mul_le weight).mpr low

theorem value_divMod (a d : BigNat) (positive : 0 < d.value) :
    (divMod a d).1.value = a.value / d.value ∧ (divMod a d).2.value = a.value % d.value := by
  rw [divMod]
  split
  · rename_i less
    rw [cmp_eq, Nat.compare_eq_lt] at less
    exact ⟨(Nat.div_eq_of_lt less).symm, (Nat.mod_eq_of_lt less).symm⟩
  split
  · rename_i single
    obtain ⟨x, limbs⟩ := List.length_eq_one_iff.mp single
    have value : d.value = x.toNat := by simp [BigNat.value, limbs, limbsValue]
    rw [value] at positive
    obtain ⟨quotient, remainder⟩ := a.value_divSmall positive
    simp only [limbs, List.headD_cons, value]
    refine ⟨quotient, ?_⟩
    rw [value_ofNat32, toNat_ofNat32, remainder]
    exact Nat.mod_eq_of_lt (Nat.lt_trans (Nat.mod_lt _ positive) (toNat_lt32 x))
  · rename_i several
    have long : 2 ≤ d.limbs.length := by
      have filled := List.length_pos_iff.mpr (limbs_ne_nil positive)
      omega
    have normal := normal_shl long
    simp only
    generalize d.normalizingShift = shift at *
    generalize pad : max (a.shl shift).limbs.length a.limbs.length + 1 - (a.shl shift).limbs.length = k
    obtain ⟨j, rfl⟩ : ∃ j, k = j + 1 := ⟨k - 1, by omega⟩
    obtain ⟨whole, below, _⟩ := divideLimbs_spec normal
      ((a.shl shift).limbs ++ List.replicate (j + 1) 0) (by simp [List.replicate_succ'])
    have dividend : limbsValue ((a.shl shift).limbs ++ List.replicate (j + 1) 0) =
        a.value * 2 ^ shift := by
      rw [limbsValue_append, limbsValue_replicate_zero, Nat.mul_zero, Nat.add_zero,
        ← value_shl, BigNat.value]
    have divisor : limbsValue (d.shl shift).limbs = d.value * 2 ^ shift := value_shl d shift
    rw [dividend, divisor] at whole
    rw [divisor] at below
    generalize divideLimbs _ _ = r at *
    have weight := Nat.two_pow_pos shift
    rw [Nat.add_comm, Nat.mul_comm (limbsValue r.2)] at whole
    obtain ⟨quotient, remainder⟩ := (Nat.div_mod_unique (Nat.mul_pos positive weight)).mpr
      ⟨whole.symm, below⟩
    rw [Nat.mul_div_mul_right _ _ weight] at quotient
    rw [Nat.mul_mod_mul_right] at remainder
    rw [value_ofLimbs, value_shr, value_ofLimbs, quotient, ← remainder, Nat.mul_div_cancel _ weight]
    exact ⟨rfl, rfl⟩

end BigNat

end Support
