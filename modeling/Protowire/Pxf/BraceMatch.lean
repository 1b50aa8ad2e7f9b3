import Protowire.Pxf.BraceMatchCore

/-!
The brace matcher, stopped and resumed. Where an input ends the matcher has decided every byte it
passed, or stands before one whose meaning needs the bytes after it; so a scan of a longer input
runs through the place where it stopped.
-/

namespace Protowire.Pxf

namespace BraceMatch

/-- `Scan` of an input from offset `i` on. -/
def scanFrom (m : BraceMatch) (input : Bytes) (i : Nat) : BraceState × Nat × BraceMatch :=
  m.scan 0 i (input.drop i)

def resume (m : BraceMatch) (i : Nat) : List Bytes → BraceState × Nat × BraceMatch
  | [] => (.open, i, m)
  | input :: later =>
    match m.scanFrom input i with
    | (.open, i, m) => resume m i later
    | stopped => stopped

inductive Settled (m : BraceMatch) (room : Nat) : BraceStep → BraceStep → Prop
  | waits (longer : BraceStep) : Settled m room (.stop .open m) longer
  | next (following : BraceMatch) {skip : Nat} (fits : skip ≤ room) :
      Settled m room (.next following skip) (.next following skip)
  | stops {state : BraceState} (following : BraceMatch) (ends : state ≠ .open) :
      Settled m room (.stop state following) (.stop state following)

theorem codeStep_settled (m : BraceMatch) (ch : UInt8) (rest more : Bytes) :
    Settled m rest.length (m.codeStep ch rest) (m.codeStep ch (rest ++ more)) := by
  rcases rest with _ | ⟨a, _ | ⟨b, rest⟩⟩
  all_goals
    simp only [codeStep, List.nil_append, List.cons_append]
    split_ifs
  all_goals
    first
    | exact .waits _
    | exact .next _ (by simp)
    | exact .stops _ (by decide)

theorem step_settled (m : BraceMatch) (ch : UInt8) (rest more : Bytes) :
    Settled m rest.length (m.step ch rest) (m.step ch (rest ++ more)) := by
  simp only [step]
  split
  case h_6 => exact codeStep_settled m ch rest more
  all_goals
    split_ifs
    all_goals
      first
      | exact .next _ (Nat.zero_le _)
      | exact .stops _ (by decide)

theorem scan_append (s more : Bytes) : ∀ (m : BraceMatch) (skip i : Nat), skip ≤ s.length →
    i ≤ (m.scan skip i s).2.1 ∧ m.scan skip i (s ++ more) =
      match m.scan skip i s with
      | (.open, j, m) => m.scan 0 j ((s ++ more).drop (j - i))
      | stopped => stopped := by
  induction s with
  | nil =>
    intro m skip i none_
    obtain rfl : skip = 0 := Nat.le_zero.mp none_
    simp [scan]
  | cons ch rest ih =>
    intro m skip i fits
    have following (m : BraceMatch) (skip : Nat) (fits : skip ≤ rest.length) :
        i ≤ (m.scan skip (i + 1) rest).2.1 ∧ m.scan skip (i + 1) (rest ++ more) =
          match m.scan skip (i + 1) rest with
          | (.open, j, m) => m.scan 0 j ((ch :: (rest ++ more)).drop (j - i))
          | stopped => stopped := by
      obtain ⟨later, meets⟩ := ih m skip (i + 1) fits
      refine ⟨by omega, meets.trans ?_⟩
      split
      · rename_i j m' stopped
        rw [stopped] at later
        change i + 1 ≤ j at later
        obtain ⟨d, rfl⟩ : ∃ d, j = i + 1 + d := ⟨j - (i + 1), by omega⟩
        rw [Nat.add_sub_cancel_left, Nat.add_assoc, Nat.add_sub_cancel_left, Nat.add_comm 1 d,
          List.drop_succ_cons]
      · rfl
    cases skip with
    | succ skip => exact following m skip (by simpa using fits)
    | zero =>
      have settled := step_settled m ch rest more
      generalize short_ : m.step ch rest = short at settled
      generalize long_ : m.step ch (rest ++ more) = long at settled
      cases settled with
      | waits =>
        have here : m.scan 0 i (ch :: rest) = (.open, i, m) := by simp only [scan, short_]
        simp [here]
      | next m' fits =>
        simp only [List.cons_append, scan, short_, long_]
        exact following m' _ fits
      | stops m' ends =>
        simp only [List.cons_append, scan, short_, long_]
        refine ⟨Nat.le_refl i, ?_⟩
        split
        · rename_i found
          cases found
          exact absurd rfl ends
        · rfl

theorem scanFrom_append (m : BraceMatch) (input more : Bytes) (i : Nat) :
    m.scanFrom (input ++ more) i =
      match m.scanFrom input i with
      | (.open, j, m) => m.scanFrom (input ++ more) j
      | stopped => stopped := by
  obtain ⟨later, meets⟩ := scan_append (input.drop i) (more.drop (i - input.length)) m 0 i
    (Nat.zero_le _)
  rw [← List.drop_append] at meets
  rw [scanFrom, scanFrom, meets]
  generalize m.scan 0 i (input.drop i) = stopped at *
  obtain ⟨state, j, m'⟩ := stopped
  cases state
  case «open» =>
    change i ≤ j at later
    change m'.scan 0 j (((input ++ more).drop i).drop (j - i)) = m'.scanFrom (input ++ more) j
    rw [List.drop_drop, Nat.add_sub_cancel' later, scanFrom]
  all_goals rfl

/-- A scan may be cut anywhere. Whatever beginnings of the input were scanned before the whole of
it, each from where the last scan stopped, a matcher that closes or fails on the whole input does
so at the same place and in the same state. -/
theorem resume_whole (m : BraceMatch) (i : Nat) (beginnings : List Bytes) (input : Bytes)
    (begins : ∀ s ∈ beginnings, s <+: input) (decided : (m.scanFrom input i).1 ≠ .open) :
    m.resume i (beginnings ++ [input]) = m.scanFrom input i := by
  induction beginnings generalizing m i with
  | nil =>
    rw [List.nil_append, resume]
    split
    · rename_i found
      rw [found] at decided
      exact absurd rfl decided
    · rfl
  | cons s rest ih =>
    obtain ⟨more, rfl⟩ := begins s (by simp)
    rw [List.cons_append, resume]
    rw [scanFrom_append] at decided ⊢
    generalize m.scanFrom s i = stopped at *
    obtain ⟨state, j, m'⟩ := stopped
    cases state
    case «open» => exact ih m' j (fun t member => begins t (by simp [member])) decided
    all_goals rfl

theorem resume_whole_cut :
    (({} : BraceMatch).scanFrom (text "a \"\x7d\" \x7d") 0).1 ≠ .open ∧
      ({} : BraceMatch).resume 0 ([text "a", text "a \"\x7d"] ++ [text "a \"\x7d\" \x7d"]) =
        ({} : BraceMatch).scanFrom (text "a \"\x7d\" \x7d") 0 :=
  ⟨by decide, resume_whole {} 0 _ _ (by decide) (by decide)⟩

end BraceMatch

end Protowire.Pxf
