import Mathlib.Tactic.Common

/-!
Streams of frames. A reader takes one frame a call; what it has to do with a whole frame, at the
end and at a cut decides what a session of calls gives on any part of a stream.
-/

namespace Support

def wholeOf {α : Type} (write : List α → List α) : List (List α) → Nat → Nat
  | [], _ => 0
  | body :: bodies, length =>
    if (write body).length ≤ length then wholeOf write bodies (length - (write body).length) + 1
    else 0

structure Framing (σ ε α : Type) where
  write : List α → List α
  read : σ → Except ε (List α) × σ
  Holds : σ → List α → Prop
  Admits : List α → Prop
  ended : ε
  cut : ε
  read_whole : ∀ {d body rest}, Holds d (write body ++ rest) → Admits body →
    ∃ following, read d = (.ok body, following) ∧ Holds following rest
  read_ended : ∀ {d}, Holds d [] → read d = (.error ended, d)
  read_cut : ∀ {d body left}, Holds d left → Admits body → left <+: write body → left ≠ write body →
    left ≠ [] → ∃ failed, read d = (.error cut, failed) ∧ read failed = (.error cut, failed)

namespace Framing

variable {σ ε α τ ρ : Type} (F : Framing σ ε α) (take : τ → List α → Except ε ρ)

def calls : σ → List τ → List (Except ε ρ)
  | _, [] => []
  | d, target :: targets =>
    ((F.read d).1 >>= take target) :: calls (F.read d).2 targets

def ending (bodies : List (List α)) (length : Nat) : ε :=
  if ((bodies.take (wholeOf F.write bodies length)).flatMap F.write).length = length then F.ended
  else F.cut

theorem wholeOf_cons {write : List α → List α} {body : List α} (bodies : List (List α))
    {length : Nat} (rest : Nat) (whole : length = (write body).length + rest) :
    wholeOf write (body :: bodies) length = wholeOf write bodies rest + 1 := by
  rw [wholeOf, if_pos (by omega), whole, Nat.add_sub_cancel_left]

theorem ending_cons {body : List α} (bodies : List (List α)) {length : Nat} (rest : Nat)
    (whole : length = (F.write body).length + rest) :
    F.ending (body :: bodies) length = F.ending bodies rest := by
  rw [ending, ending, wholeOf_cons bodies rest whole, List.take_succ_cons, List.flatMap_cons,
    List.length_append]
  simp only [whole, Nat.add_left_cancel_iff]

theorem ending_cut {body : List α} (bodies : List (List α)) {length : Nat}
    (cut : length < (F.write body).length) :
    F.ending (body :: bodies) length = if length = 0 then F.ended else F.cut := by
  have none_ : wholeOf F.write (body :: bodies) length = 0 := by
    rw [wholeOf, if_neg (by omega)]
  rw [ending, none_]
  simp only [List.take_zero, List.flatMap_nil, List.length_nil, eq_comm]

theorem calls_stuck {d : σ} {msg : ε} (stuck : F.read d = (.error msg, d)) (targets : List τ) :
    F.calls take d targets = targets.map fun _ => .error msg := by
  induction targets with
  | nil => rfl
  | cons target targets ih =>
    rw [calls, stuck, ih, List.map_cons]
    rfl

theorem calls_eq (bodies : List (List α)) : ∀ {d : σ} {left : List α} (targets : List τ),
    F.Holds d left → (∀ body ∈ bodies, F.Admits body) → left <+: bodies.flatMap F.write →
    F.calls take d targets =
      List.zipWith (fun body target => take target body)
          (bodies.take (wholeOf F.write bodies left.length)) targets ++
        (targets.drop (wholeOf F.write bodies left.length)).map fun _ =>
          .error (F.ending bodies left.length) := by
  induction bodies with
  | nil =>
    intro d left targets holds _ isPrefix
    cases List.prefix_nil.mp isPrefix
    rw [F.calls_stuck take (F.read_ended holds)]
    rfl
  | cons body bodies ih =>
    intro d left targets holds admits isPrefix
    rw [List.flatMap_cons] at isPrefix
    have own := admits body List.mem_cons_self
    by_cases whole : (F.write body).length ≤ left.length
    · obtain ⟨rest, rfl⟩ :=
        List.prefix_of_prefix_length_le (List.prefix_append _ _) isPrefix whole
      have length : (F.write body ++ rest).length = (F.write body).length + rest.length :=
        List.length_append
      rw [wholeOf_cons bodies _ length, F.ending_cons bodies _ length]
      cases targets with
      | nil => simp [calls]
      | cons target targets =>
        obtain ⟨following, read, holds⟩ := F.read_whole holds own
        rw [List.prefix_append_right_inj] at isPrefix
        have later := ih targets holds
          (fun other found => admits other (List.mem_cons_of_mem _ found)) isPrefix
        rw [calls, read, later]
        rfl
    · have cut : wholeOf F.write (body :: bodies) left.length = 0 := by
        rw [wholeOf, if_neg whole]
      have inside : left <+: F.write body :=
        List.prefix_of_prefix_length_le isPrefix (List.prefix_append _ _) (by omega)
      rw [cut, F.ending_cut bodies (by omega), List.take_zero, List.zipWith_nil_left,
        List.nil_append, List.drop_zero]
      by_cases empty : left = []
      · subst empty
        rw [F.calls_stuck take (F.read_ended holds)]
        rfl
      · rw [if_neg (by simpa using empty)]
        obtain ⟨failed, read, stuck⟩ := F.read_cut holds own inside
          (by rintro rfl; exact whole (Nat.le_refl _)) empty
        cases targets with
        | nil => rfl
        | cons target targets =>
          rw [calls, read, F.calls_stuck take stuck]
          rfl

end Framing

end Support
