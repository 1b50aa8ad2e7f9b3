import Mathlib.Data.List.Pairwise
import Mathlib.Data.List.Sort
import Mathlib.Tactic.Common
import Protowire.Support.Ordered

/-!
Edits of a sequence, staged under names and applied together. A later edit under a name takes the
earlier one's place. The edits are sorted by where they start, edits that start together in the
order they were staged, and are applied when none reaches past the start of the next.
-/

namespace Support

structure Edit (κ α : Type) where
  path : κ
  start : Nat
  stop : Nat
  text : List α
deriving DecidableEq

variable {κ α : Type}

namespace Edit

def Inserts (e : Edit κ α) : Prop := e.stop ≤ e.start

def Fits (a b : Edit κ α) : Prop := a.stop ≤ b.start

def stage [DecidableEq κ] (edits : List (Edit κ α)) (e : Edit κ α) : List (Edit κ α) :=
  match edits with
  | [] => [e]
  | existing :: rest => if existing.path = e.path then e :: rest else existing :: stage rest e

def stageAll [DecidableEq κ] (edits more : List (Edit κ α)) : List (Edit κ α) :=
  more.foldl stage edits

def Before (a b : Edit κ α) : Prop := a.start ≤ b.start

instance : DecidableRel (Before : Edit κ α → Edit κ α → Prop) :=
  fun a b => inferInstanceAs (Decidable (a.start ≤ b.start))

instance : DecidableRel (Fits : Edit κ α → Edit κ α → Prop) :=
  fun a b => inferInstanceAs (Decidable (a.stop ≤ b.start))

def sorted (edits : List (Edit κ α)) : List (Edit κ α) := edits.insertionSort Before

def firstClash : List (Edit κ α) → Option (Edit κ α × Edit κ α)
  | a :: b :: rest => if a.Fits b then firstClash (b :: rest) else some (a, b)
  | _ => none

def splice (src : List α) (last : Nat) : List (Edit κ α) → List α
  | [] => src.drop last
  | e :: rest => (src.drop last).take (e.start - last) ++ e.text ++ splice src e.stop rest

section

variable [DecidableEq κ] {edits more : List (Edit κ α)} {a b : Edit κ α}

def paths (edits : List (Edit κ α)) : List κ := edits.map path

theorem stage_fresh (fresh : a.path ∉ paths edits) : stage edits a = edits ++ [a] := by
  induction edits with
  | nil => rfl
  | cons existing rest ih =>
    simp only [paths, List.map_cons, List.mem_cons, not_or] at fresh
    rw [stage, if_neg (Ne.symm fresh.1), ih fresh.2, List.cons_append]

theorem paths_stage (edits : List (Edit κ α)) (a : Edit κ α) :
    ∀ path, path ∈ paths (stage edits a) ↔ path ∈ paths edits ∨ path = a.path := by
  intro path
  induction edits with
  | nil => simp [stage, paths]
  | cons existing rest ih =>
    rw [stage]
    split
    · rename_i same
      simp only [paths, List.map_cons, List.mem_cons, same]
      tauto
    · simp only [paths, List.map_cons, List.mem_cons] at ih ⊢
      rw [ih, or_assoc]

theorem stage_again (same : a.path = b.path) : stage (stage edits a) b = stage edits b := by
  induction edits with
  | nil => simp [stage, same]
  | cons existing rest ih =>
    by_cases here : existing.path = a.path
    · rw [stage, if_pos here, stage, if_pos same, stage, if_pos (here.trans same)]
    · have there : existing.path ≠ b.path := fun eq => here (eq.trans same.symm)
      rw [stage, if_neg here, stage, if_neg there, ih, stage, if_neg there]

theorem stage_swap (present : b.path ∈ paths edits) (other : a.path ≠ b.path) :
    stage (stage edits a) b = stage (stage edits b) a := by
  induction edits with
  | nil => simp [paths] at present
  | cons existing rest ih =>
    by_cases first : existing.path = a.path
    · have second : existing.path ≠ b.path := fun eq => other (first.symm.trans eq)
      rw [stage, if_pos first, stage, if_neg other, stage, if_neg second, stage, if_pos first]
    · by_cases second : existing.path = b.path
      · rw [stage, if_neg first, stage, if_pos second, stage, if_pos second, stage,
          if_neg (Ne.symm other)]
      · have later : b.path ∈ paths rest := by
          simpa [paths, Ne.symm second] using present
        rw [stage, if_neg first, stage, if_neg second, ih later, stage, if_neg second, stage,
          if_neg first]

theorem stageAll_cons (edits : List (Edit κ α)) (a : Edit κ α) (more : List (Edit κ α)) :
    stageAll edits (a :: more) = stageAll (stage edits a) more := rfl

theorem stageAll_fresh (distinct : (paths more).Nodup)
    (fresh : ∀ path ∈ paths more, path ∉ paths edits) : stageAll edits more = edits ++ more := by
  induction more generalizing edits with
  | nil => simp [stageAll]
  | cons a more ih =>
    simp only [paths, List.map_cons, List.nodup_cons] at distinct
    have here : a.path ∉ paths edits := fresh a.path (by simp [paths])
    rw [stageAll_cons, stage_fresh here, ih distinct.2, List.append_assoc, List.singleton_append]
    intro path member
    have absent := fresh path (by simp only [paths, List.map_cons]; exact List.mem_cons_of_mem _ member)
    simp only [paths, List.map_append, List.map_cons, List.map_nil, List.mem_append,
      List.mem_singleton, not_or] at absent ⊢
    exact ⟨absent, fun eq => distinct.1 (eq ▸ member)⟩

theorem stageAll_swap (present : b.path ∈ paths edits) (others : b.path ∉ paths more) :
    stage (stageAll edits more) b = stageAll (stage edits b) more := by
  induction more generalizing edits with
  | nil => rfl
  | cons a more ih =>
    simp only [paths, List.map_cons, List.mem_cons, not_or] at others
    have after : b.path ∈ paths (stage edits a) := (paths_stage edits a b.path).mpr (.inl present)
    rw [stageAll_cons, ih after others.2, stageAll_cons, stage_swap present (Ne.symm others.1)]

theorem stageAll_again {first second : List (Edit κ α)} (distinct : (paths first).Nodup)
    (covers : paths first <+: paths second) :
    stageAll (stageAll edits first) second = stageAll edits second := by
  induction first generalizing edits second with
  | nil => rfl
  | cons a first ih =>
    cases second with
    | nil => simp [paths] at covers
    | cons b second =>
      simp only [paths, List.map_cons, List.cons_prefix_cons, List.nodup_cons] at covers distinct
      have others : b.path ∉ paths first := by
        rw [← covers.1]
        exact distinct.1
      have present : b.path ∈ paths (stage edits a) :=
        (paths_stage edits a b.path).mpr (.inr covers.1.symm)
      rw [stageAll_cons, stageAll_cons, stageAll_swap present others, stage_again covers.1,
        ih distinct.2 covers.2, stageAll_cons]

end

section

variable {edits first second : List (Edit κ α)} {a b : Edit κ α}

instance : Std.Total (Before : Edit κ α → Edit κ α → Prop) := ⟨fun a b => Nat.le_total a.start b.start⟩

instance : IsTrans (Edit κ α) Before := ⟨fun _ _ _ => Nat.le_trans⟩

theorem sorted_before (edits : List (Edit κ α)) : (sorted edits).Pairwise Before :=
  List.pairwise_insertionSort Before edits

theorem sorted_perm (edits : List (Edit κ α)) : (sorted edits).Perm edits :=
  List.perm_insertionSort Before edits

def startingAt (off : Nat) (edits : List (Edit κ α)) : List (Edit κ α) :=
  edits.filter fun e => e.start = off

theorem startingAt_sorted (off : Nat) (edits : List (Edit κ α)) :
    startingAt off (sorted edits) = startingAt off edits :=
  alike_insertionSort Edit.start off edits

def Apart (first second : List (Edit κ α)) : Prop :=
  ∀ a ∈ first, ∀ b ∈ second, a.start ≠ b.start

theorem sorted_append_comm (apart : Apart first second) :
    sorted (first ++ second) = sorted (second ++ first) := by
  refine eq_of_alike (sorted_before _) (sorted_before _) fun off => ?_
  change startingAt off _ = startingAt off _
  rw [startingAt_sorted, startingAt_sorted]
  exact alike_append_comm apart off

theorem firstClash_none : ∀ edits : List (Edit κ α), firstClash edits = none ↔ edits.IsChain Fits
  | [] => by simp [firstClash]
  | [a] => by simp [firstClash]
  | a :: b :: rest => by
    rw [firstClash, List.isChain_cons_cons, ← firstClash_none (b :: rest)]
    split <;> simp_all

theorem pairwise_fits (ordered : edits.Pairwise Before) :
    edits.Pairwise Fits ↔ edits.IsChain Fits := by
  refine ⟨List.Pairwise.isChain, fun chain => ?_⟩
  induction edits with
  | nil => exact .nil
  | cons a edits ih =>
    rw [List.pairwise_cons] at ordered
    cases edits with
    | nil => simp
    | cons b rest =>
      rw [List.isChain_cons_cons] at chain
      refine List.pairwise_cons.mpr ⟨fun c member => ?_, ih ordered.2 chain.2⟩
      obtain rfl | later := List.mem_cons.mp member
      · exact chain.1
      · exact Nat.le_trans chain.1 ((List.pairwise_cons.mp ordered.2).1 c later)

def Clear (edits : List (Edit κ α)) : Prop := (sorted edits).Pairwise Fits

theorem clear_iff (edits : List (Edit κ α)) : Clear edits ↔ firstClash (sorted edits) = none := by
  rw [Clear, pairwise_fits (sorted_before edits), firstClash_none]

theorem Clear.fits (clear : Clear edits) (before : [a, b].Sublist (sorted edits)) : a.Fits b :=
  List.pairwise_iff_forall_sublist.mp clear before

def Spaced (a b : Edit κ α) : Prop := (a.start < b.start → a.Fits b) ∧ (b.start < a.start → b.Fits a)

instance : Std.Symm (Spaced : Edit κ α → Edit κ α → Prop) := ⟨fun _ _ => And.symm⟩

theorem Clear.earlier (clear : Clear edits) (here : a ∈ edits) (there : b ∈ edits)
    (earlier : a.start < b.start) : a.Fits b := by
  have each : (sorted edits).Pairwise Spaced := by
    refine (clear.and (sorted_before edits)).imp fun {x y} both => ⟨fun _ => both.1, fun late => ?_⟩
    exact absurd both.2 (Nat.not_le.mpr late)
  have self (e : Edit κ α) : e.Spaced e :=
    ⟨fun lt => absurd lt (Nat.lt_irrefl _), fun lt => absurd lt (Nat.lt_irrefl _)⟩
  have mem {e : Edit κ α} (listed : e ∈ edits) : e ∈ sorted edits :=
    (sorted_perm edits).mem_iff.mpr listed
  exact (each.forall_of_forall (fun e _ => self e) (mem here) (mem there)).1 earlier

theorem Clear.together (clear : Clear edits) (listed : [a, b].Sublist edits) (start : a.start = b.start) :
    a.Fits b :=
  clear.fits (List.pair_sublist_insertionSort (Nat.le_of_eq start) listed)

def Unmixed (first second : List (Edit κ α)) : Prop :=
  ∀ a ∈ first, ∀ b ∈ second, a.start = b.start → (a.Inserts ↔ b.Inserts)

theorem Unmixed.symm (unmixed : Unmixed first second) : Unmixed second first :=
  fun b there a here start => (unmixed a here b there start.symm).symm

theorem Clear.append_comm (unmixed : Unmixed first second) (clear : Clear (first ++ second)) :
    Clear (second ++ first) := by
  refine List.pairwise_iff_forall_sublist.mpr fun {a b} before => ?_
  have ordered : a.start ≤ b.start :=
    List.pairwise_iff_forall_sublist.mp (sorted_before (second ++ first)) before
  have member {e : Edit κ α} (within : e ∈ sorted (second ++ first)) : e ∈ first ++ second := by
    have listed := (sorted_perm (second ++ first)).mem_iff.mp within
    rwa [List.mem_append, or_comm, ← List.mem_append] at listed
  obtain earlier | start := Nat.lt_or_eq_of_le ordered
  · exact clear.earlier (member (before.subset (by simp))) (member (before.subset (by simp))) earlier
  · -- They start together, so they come in the order of the two lists.
    have listed : [a, b].Sublist (second ++ first) := by
      have filtered := before.filter fun e => decide (e.start = b.start)
      rw [show (sorted (second ++ first)).filter (fun e => decide (e.start = b.start)) =
          (second ++ first).filter (fun e => decide (e.start = b.start)) from
        startingAt_sorted b.start (second ++ first)] at filtered
      simp only [List.filter_cons, start, decide_true, if_true, List.filter_nil] at filtered
      exact filtered.trans List.filter_sublist
    rw [List.sublist_append_iff] at listed
    obtain ⟨front, back, split, inSecond, inFirst⟩ := listed
    match front, back, split with
    | [], _, rfl => exact clear.together (inFirst.trans (List.sublist_append_left _ _)) start
    | [_], _, rfl =>
      have here : a ∈ second := inSecond.subset (by simp)
      have there : b ∈ first := inFirst.subset (by simp)
      have swapped : [b, a].Sublist (first ++ second) := by
        simpa using (List.singleton_sublist.mpr there).append (List.singleton_sublist.mpr here)
      have fits := clear.together swapped start.symm
      have inserts : b.Inserts := by
        rw [Inserts, ← start]
        exact fits
      have also : a.Inserts := (unmixed b there a here start.symm).mp inserts
      rw [Fits, ← start]
      exact also
    | [_, _], [], rfl => exact clear.together (inSecond.trans (List.sublist_append_right _ _)) start

theorem not_clear (here : a ∈ first) (there : b ∈ second) (start : a.start = b.start)
    (takes : ¬a.Inserts) : ¬Clear (first ++ second) := by
  intro clear
  have listed : [a, b].Sublist (first ++ second) := by
    simpa using (List.singleton_sublist.mpr here).append (List.singleton_sublist.mpr there)
  have fits := clear.together listed start
  rw [Fits, ← start] at fits
  exact takes fits

end

end Edit

end Support
