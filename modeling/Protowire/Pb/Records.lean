import Protowire.Pb.RecordsCore
import Protowire.Pb.Wire

/-!
Reading a message record by record.
-/

namespace Protowire.Wire

open Support

def FieldReader.Shrinks {α : Type} (field : FieldReader α) : Prop :=
  ∀ num type data out out' rest,
    field num type data out = some (.ok (out', rest)) → rest.length ≤ data.length

section

variable {α : Type} {wording : Wording} {field : FieldReader α}

theorem recordTurn_next {s s' : Bytes × α} (turned : recordTurn wording field s = .next s') :
    ∃ num type data, consumeTag s.1 = some (num, type, data) ∧
      (field num type data s.2 = some (.ok (s'.2, s'.1)) ∨
        (field num type data s.2 = none ∧ consumeFieldValue data num type = some s'.1 ∧
          s'.2 = s.2)) := by
  rw [recordTurn] at turned
  split at turned
  · cases turned
  split at turned
  · cases turned
  rename_i num type data tag
  refine ⟨num, type, data, tag, ?_⟩
  split at turned
  · cases turned
  · rename_i out rest read
    cases turned
    exact .inl read
  · rename_i unknown
    split at turned
    · cases turned
    · rename_i rest skipped
      cases turned
      exact .inr ⟨unknown, skipped, rfl⟩

theorem recordTurn_lowers (shrinks : field.Shrinks) :
    Lowers (fun s : Bytes × α => s.1.length) (recordTurn wording field) := by
  intro s s' turned
  obtain ⟨num, type, data, tag, read | ⟨_, skipped, _⟩⟩ := recordTurn_next turned
  · have shorter := shrinks num type data s.2 s'.2 s'.1 read
    exact Nat.lt_of_le_of_lt shorter (consumeTag_rest tag)
  · exact Nat.lt_of_le_of_lt (consumeFieldValue_rest skipped) (consumeTag_rest tag)

theorem recordTurn_done {s : Bytes × α} {out : α}
    (turned : recordTurn wording field s = .done (.ok out)) : s = ([], out) := by
  rw [recordTurn] at turned
  split at turned
  · rename_i empty
    cases turned
    exact Prod.ext (List.isEmpty_iff.mp empty) rfl
  · split at turned
    · cases turned
    · split at turned
      · cases turned
      · cases turned
      · split at turned <;> cases turned

@[simp] theorem readRecords_nil (out : α) : readRecords wording field [] out = .ok out := rfl

theorem appendVarintFrom_ne_nil (more v : Nat) : appendVarintFrom more v ≠ [] := by
  cases more with
  | zero => simp [appendVarintFrom]
  | succ more =>
    rw [appendVarintFrom]
    split <;> simp

theorem appendTag_ne_nil (num : Nat) (type : WireType) : appendTag num type ≠ [] :=
  appendVarintFrom_ne_nil 9 _

theorem readRecords_field (shrinks : field.Shrinks) {num : Nat} (valid : ValidNumber num)
    {type : WireType} {payload rest : Bytes} {out out' : α}
    (read : field num type (payload ++ rest) out = some (.ok (out', rest))) :
    readRecords wording field (appendTag num type ++ payload ++ rest) out =
      readRecords wording field rest out' := by
  apply loop_next (recordTurn_lowers shrinks)
  rw [recordTurn, List.append_assoc, consumeTag_append valid]
  simp [appendTag_ne_nil, read]

end

end Protowire.Wire
