import Mathlib.Tactic.Common

/-!
Loops as data. A loop body is a function from a state to a `Turn`; `iterate` runs it a
bounded number of times and `loop` runs it for as long as a measure of the state allows.
When every turn that goes on lowers the measure, `loop` satisfies the equation of the
unbounded loop, so a proof about it never mentions the bound.
-/

namespace Support

inductive Turn (σ ρ : Type) where
  | next (state : σ)
  | done (result : ρ)

def Turn.map {σ ρ σ' ρ' : Type} (onState : σ → σ') (onResult : ρ → ρ') : Turn σ ρ → Turn σ' ρ'
  | .next state => .next (onState state)
  | .done result => .done (onResult result)

def iterate {σ ρ : Type} (turn : σ → Turn σ ρ) (stuck : σ → ρ) : Nat → σ → ρ
  | 0, state => stuck state
  | fuel + 1, state =>
    match turn state with
    | .next following => iterate turn stuck fuel following
    | .done result => result

def loop {σ ρ : Type} (measure : σ → Nat) (turn : σ → Turn σ ρ) (stuck : σ → ρ) (state : σ) : ρ :=
  iterate turn stuck (measure state + 1) state

def Lowers {σ ρ : Type} (measure : σ → Nat) (turn : σ → Turn σ ρ) : Prop :=
  ∀ state following, turn state = .next following → measure following < measure state

section

variable {σ ρ : Type} {measure : σ → Nat} {turn : σ → Turn σ ρ} {stuck : σ → ρ}

theorem iterate_induct (motive : σ → ρ → Prop) (stuck_ : ∀ state, motive state (stuck state))
    (next : ∀ state following result, turn state = .next following →
      motive following result → motive state result)
    (done : ∀ state result, turn state = .done result → motive state result) :
    ∀ fuel state, motive state (iterate turn stuck fuel state) := by
  intro fuel
  induction fuel with
  | zero => exact stuck_
  | succ fuel ih =>
    intro state
    rw [iterate]
    split
    · rename_i following turned
      exact next state following _ turned (ih following)
    · rename_i result turned
      exact done state result turned

theorem iterate_fuel (lowers : Lowers measure turn) : ∀ first second state,
    measure state < first → measure state < second →
      iterate turn stuck first state = iterate turn stuck second state := by
  intro first
  induction first with
  | zero => intro second state below; omega
  | succ first ih =>
    intro second state below also
    cases second with
    | zero => omega
    | succ second =>
      simp only [iterate]
      split
      · rename_i following turned
        have lower := lowers state following turned
        exact ih second following (by omega) (by omega)
      · rfl

theorem loop_eq (lowers : Lowers measure turn) (state : σ) :
    loop measure turn stuck state =
      match turn state with
      | .next following => loop measure turn stuck following
      | .done result => result := by
  rw [loop, iterate]
  split
  · rename_i following turned
    have lower := lowers state following turned
    exact iterate_fuel lowers _ _ following (by omega) (by omega)
  · rfl

theorem loop_next (lowers : Lowers measure turn) {state following : σ}
    (turned : turn state = .next following) :
    loop measure turn stuck state = loop measure turn stuck following := by
  rw [loop_eq lowers, turned]

theorem loop_done {state : σ} {result : ρ} (turned : turn state = .done result) :
    loop measure turn stuck state = result := by
  rw [loop, iterate, turned]

theorem loop_induct (lowers : Lowers measure turn) {motive : σ → ρ → Prop}
    (next : ∀ state following result, turn state = .next following →
      motive following result → motive state result)
    (done : ∀ state result, turn state = .done result → motive state result) :
    ∀ state, motive state (loop measure turn stuck state) := by
  intro state
  generalize size : measure state = bound
  induction bound using Nat.strongRecOn generalizing state with
  | ind bound ih =>
    cases turned : turn state with
    | next following =>
      rw [loop_next lowers turned]
      have lower := lowers state following turned
      exact next state following _ turned (ih _ (by omega) following rfl)
    | done result =>
      rw [loop_done turned]
      exact done state result turned

theorem loop_map {σ' : Type} {measure' : σ' → Nat} {turn' : σ' → Turn σ' σ'} {view : σ' → σ}
    {same : σ → Turn σ σ} (measures : ∀ state, measure (view state) = measure' state)
    (turns : ∀ state, same (view state) = (turn' state).map view view) (state : σ') :
    loop measure same id (view state) = view (loop measure' turn' id state) := by
  have runs : ∀ fuel state, iterate same id fuel (view state) = view (iterate turn' id fuel state) := by
    intro fuel
    induction fuel with
    | zero => intro state; rfl
    | succ fuel ih =>
      intro state
      rw [iterate, turns, iterate]
      cases turn' state with
      | next following => exact ih following
      | done result => rfl
  rw [loop, loop, measures, runs]

end

end Support
