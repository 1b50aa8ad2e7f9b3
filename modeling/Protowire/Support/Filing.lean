import Mathlib.Algebra.GroupWithZero.Nat
import Mathlib.Data.List.Perm.Basic
import Mathlib.Tactic.Common

/-!
Filing items on shelves. Items are read in order into a pending list and leave it for shelves;
nothing is lost when the shelves and what is pending together hold every item once.
-/

namespace Support

variable {α σ : Type}

def Filed (Holds : σ → List α → Prop) (all : List α) (shelves : List σ) (left : List α) : Prop :=
  ∃ parts : List (List α), List.Forall₂ Holds shelves parts ∧ (parts.flatten ++ left).Perm all ∧
    (∀ part ∈ parts, part.Sublist all) ∧ left.Sublist all

namespace Filed

variable {Holds : σ → List α → Prop} {all mid left : List α} {shelves : List σ} {shelf : σ}

theorem nothing (all : List α) : Filed Holds all [] all :=
  ⟨[], .nil, by simp, by simp, .refl _⟩

theorem one (part left : List α) (holds : Holds shelf part) : Filed Holds (part ++ left) [shelf] left :=
  ⟨[part], .cons holds .nil, by simp, by simp, List.sublist_append_right _ _⟩

theorem everything (holds : Holds shelf all) : Filed Holds all [shelf] [] := by
  simpa using one all [] holds

theorem andThen {more : List α} {others : List σ} (first : Filed Holds all shelves mid)
    (second : Filed Holds (mid ++ more) others left) :
    Filed Holds (all ++ more) (shelves ++ others) left := by
  obtain ⟨parts, held, perm, ordered, midOrdered⟩ := first
  obtain ⟨laters, laterHeld, laterPerm, laterOrdered, leftOrdered⟩ := second
  have through : (mid ++ more).Sublist (all ++ more) := midOrdered.append_right more
  refine ⟨parts ++ laters, List.rel_append held laterHeld, ?_, ?_, leftOrdered.trans through⟩
  · rw [List.flatten_append, List.append_assoc]
    refine (laterPerm.append_left parts.flatten).trans ?_
    rw [← List.append_assoc]
    exact perm.append_right more
  · intro part member
    obtain early | late := List.mem_append.mp member
    · exact (ordered part early).trans (List.sublist_append_left _ _)
    · exact (laterOrdered part late).trans through

theorem behind (front : List α) (filed : Filed Holds all shelves left) :
    Filed Holds (front ++ all) shelves (front ++ left) := by
  obtain ⟨parts, held, perm, ordered, leftOrdered⟩ := filed
  refine ⟨parts, held, ?_, ?_, leftOrdered.append_left front⟩
  · rw [← List.append_assoc]
    refine (List.perm_append_comm.append_right left).trans ?_
    rw [List.append_assoc]
    exact perm.append_left front
  · intro part member
    exact (ordered part member).trans (List.sublist_append_right _ _)

theorem widen {wide : σ} (front : List α)
    (grow : ∀ part, Holds shelf part → Holds wide (front ++ part))
    (filed : Filed Holds all (shelf :: shelves) left) :
    Filed Holds (front ++ all) (wide :: shelves) left := by
  obtain ⟨parts, held, perm, ordered, leftOrdered⟩ := filed
  cases held with
  | cons holds held =>
    rename_i part parts
    refine ⟨(front ++ part) :: parts, .cons (grow part holds) held, ?_, ?_,
      leftOrdered.trans (List.sublist_append_right _ _)⟩
    · rw [List.flatten_cons, List.append_assoc] at perm
      rw [List.flatten_cons, List.append_assoc, List.append_assoc]
      exact perm.append_left front
    · intro other member
      obtain rfl | later := List.mem_cons.mp member
      · exact (ordered part List.mem_cons_self).append_left front
      · exact (ordered other (List.mem_cons_of_mem _ later)).trans (List.sublist_append_right _ _)

theorem perm {others : List σ} (same : others.Perm shelves) (filed : Filed Holds all shelves left) :
    Filed Holds all others left := by
  obtain ⟨parts, held, perm, ordered, leftOrdered⟩ := filed
  obtain ⟨moved, heldMoved, movedPerm⟩ := List.perm_comp_forall₂ same held
  exact ⟨moved, heldMoved, (movedPerm.flatten.append_right left).trans perm,
    fun part member => ordered part (movedPerm.subset member), leftOrdered⟩

theorem count (size : σ → Nat) (sized : ∀ shelf part, Holds shelf part → part.length = size shelf)
    (filed : Filed Holds all shelves left) :
    (shelves.map size).sum + left.length = all.length := by
  obtain ⟨parts, held, perm, -, -⟩ := filed
  have sum : parts.flatten.length = (shelves.map size).sum := by
    clear perm
    induction held with
    | nil => rfl
    | cons holds _ ih =>
      rw [List.flatten_cons, List.length_append, List.map_cons, List.sum_cons,
        sized _ _ holds, ih]
  rw [← sum, ← List.length_append, perm.length_eq]

end Filed

end Support
