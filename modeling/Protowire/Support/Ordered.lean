import Mathlib.Data.List.Perm.Basic
import Mathlib.Data.List.Sort

/-!
Lists in the order of a key that no two of their elements share.
-/

namespace Support

variable {α : Type} (key : α → Nat)

def Ordered (list : List α) : Prop := list.Pairwise fun a b => key a < key b

variable {key}

theorem Ordered.eq_of_perm {list other : List α} (ordered : Ordered key list)
    (ordered' : Ordered key other) (perm : list.Perm other) : list = other :=
  perm.eq_of_pairwise (fun _ _ _ _ less more => absurd more (by omega)) ordered ordered'

theorem ordered_of_nodup {list : List α} (sorted : list.Pairwise fun a b => key a ≤ key b)
    (distinct : (list.map key).Nodup) : Ordered key list := by
  rw [List.Nodup, List.pairwise_map] at distinct
  refine (sorted.and distinct).imp ?_
  intro a b both
  obtain ⟨below, different⟩ := both
  omega

theorem Ordered.nodup {list : List α} (ordered : Ordered key list) : (list.map key).Nodup := by
  rw [List.Nodup, List.pairwise_map]
  exact ordered.imp fun less => Nat.ne_of_lt less

theorem exists_ordered {list : List α} (distinct : (list.map key).Nodup) :
    ∃ sorted, sorted.Perm list ∧ Ordered key sorted := by
  let below : α → α → Prop := fun a b => key a ≤ key b
  have : Std.Total below := ⟨fun a b => Nat.le_total (key a) (key b)⟩
  have : IsTrans α below := ⟨fun _ _ _ => Nat.le_trans⟩
  have perm := List.perm_insertionSort below list
  exact ⟨list.insertionSort below, perm,
    ordered_of_nodup (List.pairwise_insertionSort below list)
      ((perm.map key).nodup_iff.mpr distinct)⟩

theorem find?_key {κ : Type} [DecidableEq κ] {key : α → κ} {list : List α}
    (distinct : (list.map key).Nodup) {a : α} (member : a ∈ list) :
    list.find? (fun b => key b = key a) = some a := by
  induction list with
  | nil => cases member
  | cons first rest ih =>
    rw [List.map_cons, List.nodup_cons] at distinct
    rcases List.mem_cons.mp member with rfl | later
    · simp
    · have other : key first ≠ key a := fun same =>
        distinct.1 (same ▸ List.mem_map_of_mem later)
      rw [List.find?_cons_of_neg (by simpa using other)]
      exact ih distinct.2 later

section Related

variable {same : α → α → Prop} (keeps : ∀ a b, same a b → key b = key a) {list other : List α}

include keeps

theorem map_key_of_forall₂ (related : List.Forall₂ same list other) :
    other.map key = list.map key := by
  induction related with
  | nil => rfl
  | cons first _ ih => rw [List.map_cons, List.map_cons, keeps _ _ first, ih]

theorem Ordered.of_forall₂ (ordered : Ordered key list) (related : List.Forall₂ same list other) :
    Ordered key other := by
  rw [Ordered, ← List.pairwise_map (f := key) (R := (· < ·))] at ordered ⊢
  rwa [map_key_of_forall₂ keeps related]

theorem Ordered.exists_append {old kept added : List α} (ordered : Ordered key list)
    (ordered' : Ordered key other) (perm : list.Perm old) (perm' : other.Perm (kept ++ added))
    (carried : List.Forall₂ same old kept) (above : ∀ b ∈ added, ∀ a ∈ old, key a < key b) :
    ∃ front back, other = front ++ back ∧ List.Forall₂ same list front := by
  obtain ⟨front, related, reordered⟩ := List.perm_comp_forall₂ perm carried
  have distinct : ((kept ++ added).map key).Nodup := (perm'.map key).nodup_iff.mp ordered'.nodup
  rw [List.map_append] at distinct
  obtain ⟨back, backPerm, backOrdered⟩ := exists_ordered distinct.of_append_right
  refine ⟨front, back, ?_, related⟩
  refine ordered'.eq_of_perm ?_ (perm'.trans (reordered.symm.append backPerm.symm))
  refine List.pairwise_append.mpr ⟨ordered.of_forall₂ keeps related, backOrdered, ?_⟩
  intro a first b second
  have present : key a ∈ list.map key :=
    map_key_of_forall₂ keeps related ▸ List.mem_map_of_mem first
  obtain ⟨before, member, same⟩ := List.mem_map.mp present
  rw [← same]
  exact above b (backPerm.mem_iff.mp second) before (perm.mem_iff.mp member)

end Related

section Stable

variable {κ : Type} [LinearOrder κ] {key : α → κ} {a : α} {list first second : List α}

def alike (key : α → κ) (k : κ) (list : List α) : List α := list.filter fun a => key a = k

theorem mem_alike {k : κ} : a ∈ alike key k list ↔ a ∈ list ∧ key a = k := by
  simp [alike]

theorem alike_append (k : κ) : alike key k (first ++ second) = alike key k first ++ alike key k second :=
  List.filter_append ..

theorem alike_append_comm (apart : ∀ a ∈ first, ∀ b ∈ second, key a ≠ key b) (k : κ) :
    alike key k (first ++ second) = alike key k (second ++ first) := by
  have empty : alike key k first = [] ∨ alike key k second = [] := by
    by_contra both
    rw [not_or] at both
    obtain ⟨a, here⟩ := List.exists_mem_of_ne_nil _ both.1
    obtain ⟨b, there⟩ := List.exists_mem_of_ne_nil _ both.2
    rw [mem_alike] at here there
    exact apart a here.1 b there.1 (here.2.trans there.2.symm)
  rw [alike_append, alike_append]
  rcases empty with none_ | none_
  · rw [none_, List.nil_append, List.append_nil]
  · rw [none_, List.nil_append, List.append_nil]

def Below (key : α → κ) (a b : α) : Prop := key a ≤ key b

instance : DecidableRel (Below key) := fun a b => inferInstanceAs (Decidable (key a ≤ key b))

instance : Std.Total (Below key) := ⟨fun a b => le_total (key a) (key b)⟩

instance : IsTrans α (Below key) := ⟨fun _ _ _ => le_trans⟩

theorem alike_insertionSort (key : α → κ) (k : κ) (list : List α) :
    alike key k (list.insertionSort (Below key)) = alike key k list := by
  have together : (alike key k list).Pairwise (Below key) := by
    refine List.Pairwise.imp_of_mem ?_ (List.pairwise_of_forall (R := fun _ _ => True) fun _ _ => trivial)
    intro a b here there _
    rw [mem_alike] at here there
    exact le_of_eq (here.2.trans there.2.symm)
  have within : (alike key k list).Sublist (list.insertionSort (Below key)) :=
    List.sublist_insertionSort together List.filter_sublist
  have again : (alike key k list).Sublist (alike key k (list.insertionSort (Below key))) := by
    have filtered := within.filter fun a => decide (key a = k)
    simpa only [alike, List.filter_filter, Bool.and_self] using filtered
  exact (again.eq_of_length ((List.perm_insertionSort (Below key) list).filter _).length_eq.symm).symm

theorem eq_of_alike (ordered : first.Pairwise (Below key)) (also : second.Pairwise (Below key))
    (same : ∀ k, alike key k first = alike key k second) : first = second := by
  induction first generalizing second with
  | nil =>
    cases second with
    | nil => rfl
    | cons b second =>
      have member : b ∈ alike key (key b) (b :: second) := by simp [alike]
      rw [← same] at member
      simp [alike] at member
  | cons a first ih =>
    have mem_iff (e : α) : e ∈ a :: first ↔ e ∈ second := by
      have classes := same (key e)
      constructor
      · intro member
        exact (mem_alike.mp (classes ▸ mem_alike.mpr ⟨member, rfl⟩)).1
      · intro member
        exact (mem_alike.mp (classes ▸ mem_alike.mpr ⟨member, rfl⟩)).1
    cases second with
    | nil => exact absurd ((mem_iff a).mp List.mem_cons_self) (by simp)
    | cons b second =>
      rw [List.pairwise_cons] at ordered also
      have least : key a ≤ key b := by
        obtain rfl | later := List.mem_cons.mp ((mem_iff b).mpr List.mem_cons_self)
        · exact le_refl _
        · exact ordered.1 b later
      have least' : key b ≤ key a := by
        obtain rfl | later := List.mem_cons.mp ((mem_iff a).mp List.mem_cons_self)
        · exact le_refl _
        · exact also.1 a later
      have start : key b = key a := le_antisymm least' least
      have heads := same (key a)
      simp only [alike, List.filter_cons, start, decide_true, if_true, List.cons.injEq] at heads
      obtain ⟨rfl, -⟩ := heads
      rw [ih ordered.2 also.2]
      intro k
      have classes := same k
      simp only [alike, List.filter_cons] at classes ⊢
      split at classes
      · exact (List.cons.inj classes).2
      · exact classes

end Stable

end Support
