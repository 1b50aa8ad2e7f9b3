import Protowire.Pb.Conforming
import Protowire.Pb.Skipping

/-!
How what `Unmarshal` reads composes: bytes after others are merged into what those gave, records of
different fields may change places, and a record of no field is passed over.
-/

namespace Protowire.Pb.Native

open Support Wire Limit

variable {S : Schema} {id num : Nat} {a : Bytes} {v mid out : Value} {opts : UnmarshalOptions}
  {r : Readers} {fields : List Field} {members members' last : List Value}
  {records : List (Nat × Bytes)}

/-- A member is read as under a wire type of its own, whatever its tag says. -/
theorem takes_alike (r : Readers) (type : WireType) (member : Member) :
    ∃ type', member.takes type' = true ∧ ∀ zigzag data v,
      unmarshalField r type zigzag data v member = unmarshalField r type' zigzag data v member := by
  cases member with
  | held holder => cases holder <;> exact ⟨_, decide_eq_true rfl, fun _ _ _ => rfl⟩
  | map key value => exact ⟨.bytes, rfl, fun _ _ _ => rfl⟩
  | vector element =>
    cases element with
    | plain plain =>
      by_cases packed : plain.isPackable = true ∧ type = .bytes
      · exact ⟨type, by simp [Member.takes, packed], fun _ _ _ => rfl⟩
      · refine ⟨plain.wireType, by simp [Member.takes], fun _ _ _ => ?_⟩
        have single : ¬(plain.isPackable = true ∧ plain.wireType = .bytes) := by
          cases plain <;> simp [Plain.isPackable, Plain.wireType]
        simp only [unmarshalField, unmarshalRepeated, if_neg packed, if_neg single]
    | _ => exact ⟨.bytes, rfl, fun _ _ _ => rfl⟩

theorem recordTurn_append {s s' : Bytes × List Value}
    (turned : recordTurn structWording (fieldReader r fields) s = .next s') (b : Bytes) :
    recordTurn structWording (fieldReader r fields) (s.1 ++ b, s.2) = .next (s'.1 ++ b, s'.2) := by
  obtain ⟨num, type, following, read, step⟩ := recordTurn_next turned
  have filled : (s.1 ++ b).isEmpty = false := by
    cases data : s.1 with
    | nil => rw [data] at read; cases read
    | cons _ _ => rfl
  obtain ⟨tag, same, isTag⟩ := consumeTag_sound read
  have tagged : consumeTag (s.1 ++ b) = some (num, type, following ++ b) := by
    rw [same, List.append_assoc, consumeTag_complete isTag]
  rcases step with found | ⟨unknown, skipped, kept⟩
  · obtain ⟨field, v, out, _, ran, again⟩ := unmarshalMatched_found fields found
    obtain ⟨type', takes, alike⟩ := takes_alike r type field.member
    rw [alike] at ran
    obtain ⟨value, split_, _, _, local_⟩ := unmarshalField_reads takes v following out _ ran
    have later := again (following ++ b) (s'.1 ++ b) (by
      rw [alike, split_, List.append_assoc]
      exact local_ _)
    simp only [recordTurn, filled, tagged, fieldReader, later, Bool.false_eq_true, if_false]
  · obtain ⟨value, split_, _, again⟩ := consumeFieldValue_sound skipped
    have later := again (s'.1 ++ b)
    rw [← List.append_assoc, ← split_] at later
    simp only [recordTurn, filled, tagged, fieldReader, unmarshalMatched_none fields unknown, later,
      kept, Bool.false_eq_true, if_false]

theorem unmarshalFields_append (b : Bytes) (read : unmarshalFields r fields a members = .ok last) :
    unmarshalFields r fields (a ++ b) members = unmarshalFields r fields b last := by
  have lowers : Lowers (fun s : Bytes × List Value => s.1.length)
      (recordTurn structWording (fieldReader r fields)) :=
    recordTurn_lowers (unmarshalMatched_shrinks fields)
  suffices all : ∀ s : Bytes × List Value,
      loop (fun s => s.1.length) (recordTurn structWording (fieldReader r fields))
        (fun s => .ok s.2) s = .ok last →
      unmarshalFields r fields (s.1 ++ b) s.2 = unmarshalFields r fields b last from
    all (a, members) read
  refine loop_induct lowers (motive := fun s result => result = .ok last →
    unmarshalFields r fields (s.1 ++ b) s.2 = unmarshalFields r fields b last) ?_ ?_
  · intro s s' result turned ih read
    exact (loop_next lowers (recordTurn_append turned b)).trans (ih read)
  · intro s result turned read
    subst read
    obtain rfl := recordTurn_done turned
    rfl

theorem unmarshal_of_size {data : Bytes} (size : data.length ≤ (resolveLimits opts).maxMessageSize) :
    unmarshal S id data v opts =
      (unmarshalFields (readers S (resolveLimits opts) (resolveLimits opts).maxDepth) (S.fields id)
        data v.members).map .struct := by
  rw [unmarshal, unmarshalWithin, if_neg (by omega), unmarshalStruct_succ]

theorem run_of_unmarshal (conform : tagsConform (S.fields id) a = true)
    (accepted : unmarshal S id a v opts = .ok out) :
    ∃ records, a = bytesOf records ∧
      Run (readers S (resolveLimits opts) (resolveLimits opts).maxDepth) (S.fields id) records
        v.members out.members := by
  by_cases size : a.length ≤ (resolveLimits opts).maxMessageSize
  · rw [unmarshal_of_size size] at accepted
    obtain ⟨members, read, rfl⟩ := map_ok accepted
    obtain ⟨records, same, run⟩ := run_of_unmarshalFields read conform
    exact ⟨records, same, run⟩
  · rw [unmarshal, unmarshalWithin, if_pos (by omega)] at accepted
    cases accepted

/-- Unmarshalling one string after another merges the second into what the first gave, or fails as
the second does there. -/
theorem unmarshal_append (accepted : unmarshal S id a v opts = .ok mid) {b : Bytes}
    (size : (a ++ b).length ≤ (resolveLimits opts).maxMessageSize) :
    unmarshal S id (a ++ b) v opts = unmarshal S id b mid opts := by
  rw [List.length_append] at size
  rw [unmarshal_of_size (by omega)] at accepted
  obtain ⟨members, read, rfl⟩ := map_ok accepted
  rw [unmarshal_of_size (by rw [List.length_append]; exact size), unmarshalFields_append b read,
    unmarshal_of_size (by omega)]
  rfl

theorem unmarshal_append_ledger :
    unmarshal ledger 0 ([0x08, 0x05] ++ [0x08, 0x02]) (ledger.fresh 0) {} =
      unmarshal ledger 0 [0x08, 0x02] (.struct [.atom (.int (-3)), .atom (.double 0), .unset]) {} :=
  unmarshal_append rfl (by decide)

/-- A record that no field has the number of, its groups no deeper than what is skipped. -/
def Foreign (fields : List Field) (record : Nat × Bytes) : Prop :=
  (∀ field ∈ fields, field.number ≠ record.1) ∧
    ∃ type tag value, record.2 = tag ++ value ∧ IsTag record.1 type tag ∧
      IsValueWithin openLimit record.1 type value

theorem unmarshalMatched_foreign {type : WireType} {data : Bytes}
    (foreign : ∀ field ∈ fields, field.number ≠ num) :
    ∀ members, unmarshalMatched r num type data fields members = none := by
  induction fields with
  | nil => exact fun _ => rfl
  | cons field fields ih =>
    intro members
    cases members with
    | nil => rfl
    | cons v members =>
      rw [unmarshalMatched, if_neg (foreign field List.mem_cons_self),
        ih (fun other later => foreign other (List.mem_cons_of_mem _ later))]

theorem Foreign.step {record : Nat × Bytes} (foreign : Foreign fields record) (members : List Value) :
    Step r fields record.1 record.2 members members := by
  obtain ⟨other, type, tag, value, shape, isTag, within⟩ := foreign
  have skips : consumeFieldValue (value ++ []) record.1 type = some [] :=
    (consumeFieldValue_iff record.1 type).mpr ⟨value, rfl, within⟩
  obtain ⟨value', same, isValue, again⟩ := consumeFieldValue_sound skips
  cases List.append_cancel_right same
  exact ⟨type, tag, value, shape, isTag, isValue,
    .skipped (fun _ => unmarshalMatched_foreign other members) again⟩

theorem SameAt.symm (same : SameAt num fields members members') :
    SameAt num fields members' members := by
  induction same with
  | noFields members members' => exact .noFields _ _
  | noMembers fields => exact .noMembers _
  | cons first _ ih => exact .cons (fun own => (first own).symm) ih

/-- What the records of each field do alone they do together, and those of no field do nothing. -/
theorem runs_together (records : List (Nat × Bytes)) :
    ∀ (members : List Value) (alone : Nat → List Value),
      (∀ record ∈ records, (∃ field ∈ fields, field.number = record.1) ∨ Foreign fields record) →
      (∀ field ∈ fields, Run r fields (records.filter (·.1 = field.number)) members
        (alone field.number)) →
      ∃ out, Run r fields records members out ∧ ∀ (i : Nat) (field : Field),
        fields[i]? = some field → out[i]? = (alone field.number)[i]? := by
  induction records with
  | nil =>
    intro members alone _ runs
    refine ⟨members, .nil _, fun i field found => ?_⟩
    generalize alone field.number = out, runs field (List.mem_of_getElem? found) = run
    cases run
    rfl
  | cons record records ih =>
    intro members alone known runs
    obtain ⟨number, bytes⟩ := record
    have later := fun other at_ => known other (List.mem_cons_of_mem _ at_)
    rcases known _ List.mem_cons_self with ⟨own, at_, rfl⟩ | foreign
    · have run := runs own at_
      rw [List.filter_cons_of_pos (by simp)] at run
      cases run with
      | cons step run =>
        rename_i next
        have each : ∀ num, ∃ out, (∃ field ∈ fields, field.number = num) →
            Run r fields (records.filter (·.1 = num)) next out ∧ SameAt num fields out (alone num) := by
          intro num
          by_cases same : own.number = num
          · subst same
            exact ⟨_, fun _ => ⟨run, .refl _ _ _⟩⟩
          · by_cases declared : ∃ field ∈ fields, field.number = num
            · obtain ⟨field, at_, rfl⟩ := declared
              have other := runs field at_
              rw [List.filter_cons_of_neg (by simpa using same)] at other
              -- the first record leaves the field as it was
              have kept := ((SameAt.refl field.number fields members).otherStep same step).symm
              obtain ⟨out, run, agrees⟩ := other.filter kept
              rw [List.filter_filter] at run
              simp only [Bool.and_self] at run
              exact ⟨out, fun _ => ⟨run, agrees⟩⟩
            · exact ⟨[], fun found => absurd found declared⟩
        choose alone' runs' using each
        obtain ⟨out, run, agrees⟩ := ih next alone' later fun field at_ =>
          (runs' field.number ⟨field, at_, rfl⟩).1
        refine ⟨out, .cons step run, fun i field found => (agrees i field found).trans ?_⟩
        exact (runs' field.number ⟨field, List.mem_of_getElem? found, rfl⟩).2.at found rfl
    · obtain ⟨out, run, agrees⟩ := ih members alone later fun field at_ => by
        have run := runs field at_
        rwa [List.filter_cons_of_neg (by simpa using (foreign.1 field at_).symm)] at run
      exact ⟨out, .cons (foreign.step members) run, agrees⟩

/-- The records of a struct may be arranged anew, with any others of no field among them or without
those there were, as long as each field keeps its records in order. -/
theorem unmarshal_rearranged (conform : tagsConform (S.fields id) a = true)
    (accepted : unmarshal S id a v opts = .ok out) :
    ∃ records, (∀ record ∈ records, IsRecord record.1 record.2) ∧ a = bytesOf records ∧
      ∀ records' : List (Nat × Bytes),
        (∀ field ∈ S.fields id,
          records'.filter (·.1 = field.number) = records.filter (·.1 = field.number)) →
        (∀ record ∈ records', (∃ field ∈ S.fields id, field.number = record.1) ∨
          Foreign (S.fields id) record) →
        (bytesOf records').length ≤ (resolveLimits opts).maxMessageSize →
        ∃ out', unmarshal S id (bytesOf records') v opts = .ok out' ∧
          ∀ (i : Nat) (field : Field), (S.fields id)[i]? = some field →
            out'.members[i]? = out.members[i]? := by
  obtain ⟨records, rfl, run⟩ := run_of_unmarshal conform accepted
  refine ⟨records, run.record, rfl, fun records' same known size => ?_⟩
  have each := fun num => run.filter (SameAt.refl num (S.fields id) v.members)
  choose alone runs agrees using each
  obtain ⟨members, run', found⟩ := runs_together records' v.members alone known fun field at_ => by
    rw [same field at_]
    exact runs field.number
  refine ⟨.struct members, ?_, fun i field at_ =>
    (found i field at_).trans ((agrees field.number).at at_ rfl)⟩
  rw [unmarshal_of_size size, run'.read]
  rfl

theorem unmarshal_rearranged_ledger :
    ∃ records : List (Nat × Bytes), [0x08, 0x05, 0x4D, 1, 2, 3, 4, 0x08, 0x02] = bytesOf records ∧
      ∃ out, unmarshal ledger 0 (bytesOf (records.filter (·.1 ∈ [1, 2, 3]))) (ledger.fresh 0) {} =
        .ok out ∧ out.members[0]? = some (.atom (.int 1)) := by
  obtain ⟨records, -, same, rearranged⟩ := @unmarshal_rearranged ledger 0
    [0x08, 0x05, 0x4D, 1, 2, 3, 4, 0x08, 0x02] (ledger.fresh 0)
    (.struct [.atom (.int 1), .atom (.double 0), .unset]) {} rfl rfl
  have size : (bytesOf (records.filter (·.1 ∈ [1, 2, 3]))).length ≤ (bytesOf records).length :=
    (List.filter_sublist.flatMap _).length_le
  rw [← same] at size
  obtain ⟨out, accepted, members⟩ := rearranged (records.filter (·.1 ∈ [1, 2, 3]))
    (fun field at_ => by
      rw [List.filter_filter]
      refine List.filter_congr fun record _ => ?_
      revert field
      simp [ledger]
      grind)
    (fun record member => .inl (by
      have found := (List.mem_filter.mp member).2
      simp [ledger] at found ⊢
      omega))
    (size.trans (by decide))
  exact ⟨records, same, out, accepted, members 0 _ rfl⟩

end Protowire.Pb.Native
