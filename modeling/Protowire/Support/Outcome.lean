import Mathlib.Tactic.Common

/-!
Reading a successful `Except` computation backwards: what its parts were, and what a run of steps
that all succeed keeps.
-/

namespace Support

variable {ε α β σ : Type}

theorem except_bind_ok {first : Except ε α} {next : α → Except ε β} {b : β}
    (success : (first >>= next) = .ok b) : ∃ a, first = .ok a ∧ next a = .ok b := by
  cases first with
  | error _ => cases success
  | ok a => exact ⟨a, rfl, success⟩

theorem except_bind_ok_iff {first : Except ε α} {next : α → Except ε β} {b : β} :
    (first >>= next) = .ok b ↔ ∃ a, first = .ok a ∧ next a = .ok b :=
  ⟨except_bind_ok, fun ⟨_, success, following⟩ => success ▸ following⟩

theorem except_guard_ok_iff {refused : Prop} [Decidable refused] {e : ε} {after : β → Except ε α}
    {next : Except ε α} {a : α} :
    (if refused then throw e >>= after else next) = .ok a ↔ ¬ refused ∧ next = .ok a := by
  by_cases fires : refused
  · rw [if_pos fires]
    constructor
    · intro success
      cases success
    · intro success
      exact absurd fires success.1
  · simp [fires]

theorem except_mapError_ok {change : ε → ε} {result : Except ε α} {a : α}
    (success : result.mapError change = .ok a) : result = .ok a := by
  cases result with
  | error _ => cases success
  | ok _ => exact success

theorem except_map_ok {change : α → β} {result : Except ε α} {b : β}
    (success : change <$> result = .ok b) : ∃ a, result = .ok a ∧ change a = b := by
  cases result with
  | error e => cases success
  | ok a => exact ⟨a, rfl, Except.ok.inj success⟩

theorem exists_of_isOk {result : Except ε α} (ok : result.isOk = true) :
    ∃ value, result = .ok value := by
  cases result with
  | error _ => cases ok
  | ok value => exact ⟨value, rfl⟩

theorem toOption_some {result : Except ε α} {a : α} (found : result.toOption = some a) :
    result = .ok a := by
  cases result <;> cases found
  rfl

theorem exists_of_any {found : Option α} {test : α → Bool} (passes : found.any test = true) :
    ∃ a, found = some a ∧ test a = true := by
  cases found with
  | none => cases passes
  | some a => exact ⟨a, rfl, passes⟩

def Raises (kind : ε → Prop) (result : Except ε α) : Prop := ∀ e, result = .error e → kind e

theorem raises_ok {kind : ε → Prop} (a : α) : Raises kind (.ok a) := fun _ failed => nomatch failed

theorem raises_error {kind : ε → Prop} {e : ε} (raised : kind e) : Raises kind (.error e : Except ε α) := by
  rintro _ ⟨rfl⟩
  exact raised

theorem Raises.bind {kind : ε → Prop} {first : Except ε α} {next : α → Except ε β}
    (raised : Raises kind first) (following : ∀ a, Raises kind (next a)) :
    Raises kind (first >>= next) := by
  intro e failed
  cases first with
  | error _ => exact raised e (by cases failed; rfl)
  | ok a => exact following a e failed

theorem Raises.ite {kind : ε → Prop} {test : Prop} [Decidable test] {first second : Except ε α}
    (raised : Raises kind first) (also : Raises kind second) :
    Raises kind (if test then first else second) := by
  split
  · exact raised
  · exact also

theorem Raises.guard {kind : ε → Prop} {refused : Prop} [Decidable refused] {e : ε}
    {after : β → Except ε α} {next : Except ε α} (raised : kind e) (following : Raises kind next) :
    Raises kind (if refused then throw e >>= after else next) :=
  .ite (raises_error raised) following

theorem foldlM_ok {step : σ → α → Except ε σ} (holds : σ → Prop) {items : List α} {start stop : σ}
    (kept : ∀ item ∈ items, ∀ before after, holds before → step before item = .ok after →
      holds after)
    (initial : holds start) (run : items.foldlM step start = .ok stop) : holds stop := by
  induction items generalizing start with
  | nil =>
    cases run
    exact initial
  | cons item rest ih =>
    rw [List.foldlM_cons] at run
    obtain ⟨middle, stepped, run⟩ := except_bind_ok run
    have following := kept item (by simp) start middle initial stepped
    exact ih (fun item member => kept item (by simp [member])) following run

theorem foldlM_collects {step : σ → α → Except ε σ} (collected : σ → List β) (adds : α → List β)
    (puts : ∀ before item after, step before item = .ok after →
      collected after = adds item ++ collected before)
    {items : List α} {start stop : σ} (run : items.foldlM step start = .ok stop) :
    collected stop = items.reverse.flatMap adds ++ collected start := by
  induction items generalizing start with
  | nil =>
    cases run
    rfl
  | cons item rest ih =>
    rw [List.foldlM_cons] at run
    obtain ⟨middle, stepped, run⟩ := except_bind_ok run
    rw [ih run, puts start item middle stepped]
    simp

theorem mapM_ok_iff {f : α → Except ε β} {items : List α} {results : List β} :
    items.mapM f = .ok results ↔ List.Forall₂ (fun a b => f a = .ok b) items results := by
  induction items generalizing results with
  | nil =>
    constructor
    · intro success
      cases success
      exact .nil
    · intro related
      cases related
      rfl
  | cons a rest ih =>
    rw [List.mapM_cons, except_bind_ok_iff]
    constructor
    · rintro ⟨b, first, success⟩
      obtain ⟨others, following, success⟩ := except_bind_ok success
      cases success
      exact .cons first (ih.mp following)
    · intro related
      cases related with
      | cons first following => exact ⟨_, first, by rw [ih.mpr following]; rfl⟩

theorem mapM_some_iff {f : α → Option β} {items : List α} {results : List β} :
    items.mapM f = some results ↔ List.Forall₂ (fun a b => f a = some b) items results := by
  induction items generalizing results with
  | nil =>
    constructor
    · intro success
      cases success
      exact .nil
    · intro related
      cases related
      rfl
  | cons a rest ih =>
    rw [List.mapM_cons]
    constructor
    · intro success
      obtain ⟨b, first, success⟩ := Option.bind_eq_some_iff.mp success
      obtain ⟨others, following, success⟩ := Option.bind_eq_some_iff.mp success
      cases success
      exact .cons first (ih.mp following)
    · intro related
      cases related with
      | cons first following => simp [first, ih.mpr following]

theorem forall₂_comp {γ : Type} {first : α → β → Prop} {second : β → γ → Prop}
    {both : α → γ → Prop} (joined : ∀ a b c, first a b → second b c → both a c) {as : List α}
    {bs : List β} {cs : List γ} (left : List.Forall₂ first as bs)
    (right : List.Forall₂ second bs cs) : List.Forall₂ both as cs := by
  induction left generalizing cs with
  | nil =>
    cases right
    exact .nil
  | cons head _ ih =>
    cases right with
    | cons next following => exact .cons (joined _ _ _ head next) (ih following)

theorem map_eq_of_forall₂ {γ : Type} {f : α → γ} {g : β → γ} {as : List α} {bs : List β}
    (related : List.Forall₂ (fun a b => f a = g b) as bs) : as.map f = bs.map g := by
  induction related with
  | nil => rfl
  | cons head _ ih => rw [List.map_cons, List.map_cons, head, ih]

theorem mapM_some_of_forall₂ {γ : Type} {f : β → Option γ} {g : α → Option γ} {as : List α}
    {bs : List β} {cs : List γ}
    (related : List.Forall₂ (fun a b => ∀ c, f b = some c → g a = some c) as bs)
    (mapped : bs.mapM f = some cs) : as.mapM g = some cs :=
  mapM_some_iff.mpr
    (forall₂_comp (fun _ _ c follows found => follows c found) related (mapM_some_iff.mp mapped))

theorem forall₂_mem_right {related : α → β → Prop} {as : List α} {bs : List β}
    (pairs : List.Forall₂ related as bs) {b : β} (member : b ∈ bs) : ∃ a ∈ as, related a b := by
  induction pairs with
  | nil => cases member
  | cons head _ ih =>
    rcases List.mem_cons.mp member with rfl | later
    · exact ⟨_, by simp, head⟩
    · obtain ⟨a, present, same⟩ := ih later
      exact ⟨a, by simp [present], same⟩

theorem forall₂_mem_left {related : α → β → Prop} {as : List α} {bs : List β}
    (pairs : List.Forall₂ related as bs) {a : α} (member : a ∈ as) : ∃ b ∈ bs, related a b := by
  induction pairs with
  | nil => cases member
  | cons head _ ih =>
    rcases List.mem_cons.mp member with rfl | later
    · exact ⟨_, by simp, head⟩
    · obtain ⟨b, present, same⟩ := ih later
      exact ⟨b, by simp [present], same⟩

end Support
