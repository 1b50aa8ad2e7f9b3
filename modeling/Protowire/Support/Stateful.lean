import Protowire.Support.Iterate

/-!
Programs over a state that may fail, as `EStateM` has them: a failure keeps the state it was
raised in. `repeatWhile` is the loop of such a program, bounded by a measure of the state.
-/

namespace Support

variable {ε σ α β ρ : Type}

def left : EStateM.Result ε σ α → σ
  | .ok _ state => state
  | .error _ state => state

def iterateM [Inhabited ε] (turn : α → EStateM ε σ (Turn α ρ)) : Nat → α → EStateM ε σ ρ
  | 0, _ => throw default
  | fuel + 1, carried => do
    match ← turn carried with
    | .next following => iterateM turn fuel following
    | .done result => pure result

def repeatWhile [Inhabited ε] (measure : σ → Nat) (turn : α → EStateM ε σ (Turn α ρ))
    (carried : α) : EStateM ε σ ρ := fun state => iterateM turn (measure state + 1) carried state

def attempt (program : EStateM ε σ α) : EStateM ε σ (Except ε α) := fun state =>
  match program state with
  | .ok result state => .ok (.ok result) state
  | .error failure state => .ok (.error failure) state

theorem run_bind (program : EStateM ε σ α) (next : α → EStateM ε σ β) (state : σ) :
    (program >>= next) state =
      match program state with
      | .ok result following => next result following
      | .error failure following => .error failure following := rfl

@[simp] theorem run_get (next : σ → EStateM ε σ β) (state : σ) :
    (get >>= next) state = next state state := rfl

theorem run_map (change : α → β) (program : EStateM ε σ α) (state : σ) :
    (change <$> program) state =
      match program state with
      | .ok result following => .ok (change result) following
      | .error failure following => .error failure following := rfl

theorem run_bind_ok {program : EStateM ε σ α} {state following : σ} {result : α}
    (ran : program state = .ok result following) (next : α → EStateM ε σ β) :
    (program >>= next) state = next result following := by
  rw [run_bind, ran]

theorem run_attempt (program : EStateM ε σ α) (next : Except ε α → EStateM ε σ β) (state : σ) :
    (attempt program >>= next) state =
      match program state with
      | .ok result following => next (.ok result) following
      | .error failure following => next (.error failure) following := by
  rw [run_bind, attempt]
  cases program state <;> rfl

theorem bind_ok {program : EStateM ε σ α} {next : α → EStateM ε σ β} {state final : σ} {result : β}
    (ran : (program >>= next) state = .ok result final) :
    ∃ middle following, program state = .ok middle following ∧
      next middle following = .ok result final := by
  rw [run_bind] at ran
  cases first : program state with
  | ok middle following => rw [first] at ran; exact ⟨middle, following, rfl, ran⟩
  | error _ _ => rw [first] at ran; cases ran

theorem map_ok {change : α → β} {program : EStateM ε σ α} {state final : σ} {result : β}
    (ran : (change <$> program) state = .ok result final) :
    ∃ found, program state = .ok found final ∧ result = change found := by
  rw [run_map] at ran
  cases first : program state with
  | ok found following => rw [first] at ran; cases ran; exact ⟨found, rfl, rfl⟩
  | error _ _ => rw [first] at ran; cases ran

def Keeps (relation : σ → σ → Prop) (program : EStateM ε σ α) : Prop :=
  ∀ state, relation state (left (program state))

section Keeps

variable {relation : σ → σ → Prop}

theorem keeps_pure (refl : ∀ state, relation state state) (result : α) :
    Keeps relation (pure result : EStateM ε σ α) := fun state => refl state

theorem keeps_throw (refl : ∀ state, relation state state) (failure : ε) :
    Keeps relation (throw failure : EStateM ε σ α) := fun state => refl state

theorem keeps_bind (trans : ∀ a b c, relation a b → relation b c → relation a c)
    {program : EStateM ε σ α} {next : α → EStateM ε σ β} (first : Keeps relation program)
    (second : ∀ result, Keeps relation (next result)) : Keeps relation (program >>= next) := by
  intro state
  have moved := first state
  rw [run_bind]
  cases ran : program state with
  | ok result following =>
    rw [ran] at moved
    exact trans _ _ _ moved (second result following)
  | error failure following =>
    rw [ran] at moved
    exact moved

theorem keeps_get {next : σ → EStateM ε σ β} (second : ∀ state, Keeps relation (next state)) :
    Keeps relation (get >>= next) := fun state => second state state

theorem keeps_map {change : α → β} {program : EStateM ε σ α} (kept : Keeps relation program) :
    Keeps relation (change <$> program) := by
  intro state
  have moved := kept state
  rw [run_map]
  cases ran : program state <;> (rw [ran] at moved; exact moved)

theorem keeps_attempt {program : EStateM ε σ α} (kept : Keeps relation program) :
    Keeps relation (attempt program) := by
  intro state
  have moved := kept state
  simp only [attempt]
  cases ran : program state <;> (rw [ran] at moved; exact moved)

theorem keeps_iterateM [Inhabited ε] (refl : ∀ state, relation state state)
    (trans : ∀ a b c, relation a b → relation b c → relation a c)
    {turn : α → EStateM ε σ (Turn α ρ)} (kept : ∀ carried, Keeps relation (turn carried))
    (fuel : Nat) (carried : α) : Keeps relation (iterateM turn fuel carried) := by
  induction fuel generalizing carried with
  | zero => exact keeps_throw refl default
  | succ fuel ih =>
    refine keeps_bind trans (kept carried) fun turned => ?_
    cases turned with
    | next following => exact ih following
    | done result => exact keeps_pure refl result

theorem keeps_repeatWhile [Inhabited ε] (refl : ∀ state, relation state state)
    (trans : ∀ a b c, relation a b → relation b c → relation a c) {measure : σ → Nat}
    {turn : α → EStateM ε σ (Turn α ρ)} (kept : ∀ carried, Keeps relation (turn carried))
    (carried : α) : Keeps relation (repeatWhile measure turn carried) :=
  fun state => keeps_iterateM refl trans kept _ carried state

end Keeps

inductive Composed [Inhabited ε] (step : (α : Type) → EStateM ε σ α → Prop) :
    {α : Type} → EStateM ε σ α → Prop
  | step {α : Type} {program : EStateM ε σ α} (one : step α program) : Composed step program
  | pure {α : Type} (result : α) : Composed step (pure result)
  | throw {α : Type} (failure : ε) : Composed step (throw failure : EStateM ε σ α)
  | get {α : Type} {next : σ → EStateM ε σ α} (rest : ∀ state, Composed step (next state)) :
      Composed step (get >>= next)
  | bind {α β : Type} {program : EStateM ε σ α} {next : α → EStateM ε σ β}
      (first : Composed step program) (rest : ∀ result, Composed step (next result)) :
      Composed step (program >>= next)
  | map {α β : Type} {change : α → β} {program : EStateM ε σ α} (first : Composed step program) :
      Composed step (change <$> program)
  | attempt {α : Type} {program : EStateM ε σ α} (first : Composed step program) :
      Composed step (attempt program)
  | loop {α ρ : Type} {measure : σ → Nat} {turn : α → EStateM ε σ (Turn α ρ)}
      (turns : ∀ carried, Composed step (turn carried)) (carried : α) :
      Composed step (repeatWhile measure turn carried)

theorem Composed.keeps [Inhabited ε] {step : (α : Type) → EStateM ε σ α → Prop}
    {relation : σ → σ → Prop} (refl : ∀ state, relation state state)
    (trans : ∀ a b c, relation a b → relation b c → relation a c)
    (kept : ∀ {α : Type} {program : EStateM ε σ α}, step α program → Keeps relation program)
    {program : EStateM ε σ α} (composed : Composed step program) : Keeps relation program := by
  induction composed with
  | step one => exact kept one
  | pure result => exact keeps_pure refl result
  | throw failure => exact keeps_throw refl failure
  | get _ ih => exact keeps_get ih
  | bind _ _ first rest => exact keeps_bind trans first rest
  | map _ ih => exact keeps_map ih
  | attempt _ ih => exact keeps_attempt ih
  | loop _ carried ih => exact keeps_repeatWhile refl trans ih carried

/-- A loop leaves what its last turn leaves of what the turns before it handed on. -/
theorem repeatWhile_leaves [Inhabited ε] {measure : σ → Nat} {turn : α → EStateM ε σ (Turn α ρ)}
    (carries : α → Prop) (leaves : ρ → σ → Prop)
    (next : ∀ carried state following later, carries carried →
      turn carried state = .ok (.next following) later → carries following)
    (last : ∀ carried state result final, carries carried →
      turn carried state = .ok (.done result) final → leaves result final)
    {carried : α} {state final : σ} {result : ρ} (held : carries carried)
    (ran : repeatWhile measure turn carried state = .ok result final) : leaves result final := by
  have bounded : ∀ fuel carried state, carries carried →
      iterateM turn fuel carried state = .ok result final → leaves result final := by
    intro fuel
    induction fuel with
    | zero => intro carried state _ ran; cases ran
    | succ fuel ih =>
      intro carried state held ran
      obtain ⟨turned, following, first, rest⟩ := bind_ok ran
      cases turned with
      | next later => exact ih later following (next carried state _ _ held first) rest
      | done result =>
        cases rest
        exact last carried state _ _ held first
  exact bounded _ carried state held ran

theorem repeatWhile_done [Inhabited ε] {measure : σ → Nat} {turn : α → EStateM ε σ (Turn α ρ)}
    (leaves : ρ → σ → Prop)
    (last : ∀ carried state result final, turn carried state = .ok (.done result) final →
      leaves result final)
    {carried : α} {state final : σ} {result : ρ}
    (ran : repeatWhile measure turn carried state = .ok result final) : leaves result final :=
  repeatWhile_leaves (fun _ => True) leaves (fun _ _ _ _ _ _ => trivial)
    (fun carried state result final _ => last carried state result final) trivial ran

end Support
