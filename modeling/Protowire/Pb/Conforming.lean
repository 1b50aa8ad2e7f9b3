import Protowire.Pb.Grammar
import Protowire.Pb.Native

/-!
A struct is read record by record where every tag of a field carries the wire type the field
calls for. A tag that does not is read by the field's type all the same, and what is read is then
no record.
-/

namespace Protowire.Pb.Native

open Support Wire Limit

variable {fields : List Field} {data rest bytes : Bytes} {num : Nat} {type : WireType} {α β : Type}
  {r : Readers} {members members' out out' : List Value} {records : List (Nat × Bytes)}

def Member.takes : Member → WireType → Bool
  | .held (.value element), type | .held (.optional element), type
  | .held (.pointer element), type => type = element.wireType
  | .map _ _, type => type = .bytes
  | .vector (.plain plain), type => type = plain.wireType || (plain.isPackable && type = .bytes)
  | .vector _, type => type = .bytes

def tagConforms (fields : List Field) (num : Nat) (type : WireType) : Bool :=
  match fields.find? (·.number = num) with
  | none => true
  | some field => field.member.takes type

def conformTurn (fields : List Field) (data : Bytes) : Turn Bytes Bool :=
  match consumeTag data with
  | none => .done true
  | some (num, type, data) =>
    if tagConforms fields num type then
      match consumeFieldValue data num type with
      | none => .done true
      | some rest => .next rest
    else .done false

def tagsConform (fields : List Field) (data : Bytes) : Bool :=
  loop List.length (conformTurn fields) (fun _ => true) data

theorem conformTurn_lowers (fields : List Field) : Lowers List.length (conformTurn fields) := by
  intro data rest turned
  rw [conformTurn] at turned
  split at turned
  · cases turned
  rename_i num type following tag
  split_ifs at turned
  split at turned
  · cases turned
  · rename_i after skipped
    cases turned
    exact Nat.lt_of_le_of_lt (consumeFieldValue_rest skipped) (consumeTag_rest tag)

theorem tagsConform_tag {following : Bytes} (conform : tagsConform fields data = true)
    (tag : consumeTag data = some (num, type, following)) :
    tagConforms fields num type = true ∧
      ∀ rest, consumeFieldValue following num type = some rest → tagsConform fields rest = true := by
  rw [tagsConform, loop_eq (conformTurn_lowers fields), conformTurn, tag] at conform
  simp only at conform
  cases own : tagConforms fields num type with
  | false =>
    rw [own] at conform
    cases conform
  | true =>
    refine ⟨rfl, fun rest skipped => ?_⟩
    rw [own, skipped] at conform
    exact conform

def ReadsValue {α : Type} (type : WireType) (read : Bytes → Except Bytes (α × Bytes)) : Prop :=
  ∀ data a rest, read data = .ok (a, rest) →
    ∃ bytes, data = bytes ++ rest ∧ (∀ num, IsValue num type bytes) ∧
      (∀ rest, consumePlainValue type (bytes ++ rest) = some rest) ∧
      ∀ rest, read (bytes ++ rest) = .ok (a, rest)

theorem readsValue_of {consume : Bytes → Option (α × Bytes)}
    (skips : ∀ data, consumePlainValue type data = (consume data).map (·.2))
    (isLocal : IsLocal consume) {read : Bytes → Except Bytes (β × Bytes)} (corrupt : Bytes)
    (finish : α → Except Bytes β) (reads : ∀ data, read data =
      match consume data with
      | none => .error corrupt
      | some (a, rest) => (finish a).map (·, rest)) : ReadsValue type read := by
  intro data b rest ran
  rw [reads] at ran
  split at ran
  · cases ran
  rename_i a following found
  obtain ⟨b, finished, same⟩ := map_ok ran
  cases same
  obtain ⟨bytes, split_, again⟩ := isLocal data a _ found
  have skipped : ∀ rest, consumePlainValue type (bytes ++ rest) = some rest := by
    intro rest
    rw [skips, again]
    rfl
  refine ⟨bytes, split_, fun num => ?_, skipped, fun rest => ?_⟩
  · obtain ⟨bytes', same, isValue, _⟩ := consumePlainValue_sound num (skipped [])
    rw [List.append_nil, List.append_nil] at same
    rwa [same]
  · rw [reads, again]
    simp only [finished, Except.map]

theorem ReadsValue.map {read : Bytes → Except Bytes (α × Bytes)} (reads : ReadsValue type read)
    (store : α → β) :
    ReadsValue type fun data => (read data).map fun found => (store found.1, found.2) := by
  intro data b rest ran
  obtain ⟨⟨a, following⟩, found, same⟩ := map_ok ran
  cases same
  obtain ⟨bytes, split_, isValue, skips, again⟩ := reads data a _ found
  refine ⟨bytes, split_, isValue, skips, fun rest => ?_⟩
  simp only [again, Except.map]

theorem readsValue_readAs {consume : Bytes → Option (α × Bytes)}
    (skips : ∀ data, consumePlainValue type data = (consume data).map (·.2))
    (isLocal : IsLocal consume) (corrupt : String) (store : α → β) :
    ReadsValue type fun data => readAs corrupt (consume data) store :=
  readsValue_of skips isLocal _ (fun a => .ok (store a)) fun _ => rfl

theorem unmarshalAtom_reads (zigzag : Bool) (type : Plain) :
    ReadsValue type.wireType fun data => unmarshalAtom zigzag data type := by
  cases type with
  | bool => exact readsValue_readAs (fun _ => rfl) consumeVarint_local _ _
  | int _ => exact readsValue_readAs (fun _ => rfl) consumeVarint_local _ _
  | uint _ => exact readsValue_readAs (fun _ => rfl) consumeVarint_local _ _
  | double => exact readsValue_readAs (fun _ => rfl) (consumeFixed_local 8) _ _
  | float => exact readsValue_readAs (fun _ => rfl) (consumeFixed_local 4) _ _
  | bytes => exact readsValue_readAs (fun _ => rfl) consumeBytes_local _ _
  | string =>
    refine readsValue_of (fun _ => rfl) consumeBytes_local (text "corrupt string")
      (fun found => if isValidUTF8 found then .ok (.bytes found)
        else .error (text "invalid UTF-8 in string")) fun data => ?_
    rw [unmarshalAtom]
    cases consumeBytes data with
    | none => rfl
    | some found =>
      simp only
      split <;> rfl

theorem unmarshalEmbedded_reads (read : Bytes → Except Bytes α) :
    ReadsValue .bytes fun data => unmarshalEmbedded data read := by
  refine readsValue_of (fun _ => rfl) consumeBytes_local (text "corrupt embedded message") read
    fun data => ?_
  rw [unmarshalEmbedded]
  cases consumeBytes data <;> rfl

section

variable {lim : Limits} {fresh : Nat → Value} {struct : Nat → Bytes → Value → Except Bytes Value}
  {zigzag : Bool} {v : Value}

theorem unmarshalScalar_reads (element : Element) :
    ReadsValue element.wireType fun data => unmarshalScalar lim struct zigzag data v element := by
  cases element with
  | plain type => exact (unmarshalAtom_reads zigzag type).map _
  | bigInt => exact unmarshalEmbedded_reads _
  | decimal => exact unmarshalEmbedded_reads _
  | bigFloat => exact unmarshalEmbedded_reads _
  | struct id => exact unmarshalEmbedded_reads _

end

section

variable {r : Readers} {zigzag : Bool}

theorem unmarshalEntry_reads (key : Plain) (value : Held) (entries : List (Atom × Value)) :
    ReadsValue .bytes fun data => unmarshalEntry r zigzag key value data entries := by
  refine readsValue_of (fun _ => rfl) consumeBytes_local (text "corrupt map entry")
    (fun found => do
      let struct ← r.entries
      let entry ← readRecords entryWording (entryField r.lim r.fresh struct zigzag key value) found
        (key.zero, freshHeld r.fresh value)
      if r.lim.maxRepeated ≤ entries.length ∧ ¬ entries.any (·.1.same entry.1) then
        .error (countExceeds "map" r.lim.maxRepeated)
      else .ok (insertOrAssign entry entries)) fun data => ?_
  rw [unmarshalEntry]
  cases consumeBytes data with
  | none => rfl
  | some found =>
    cases r.entries with
    | error msg => rfl
    | ok struct =>
      simp only [bind, Except.bind]
      cases readRecords entryWording (entryField r.lim r.fresh struct zigzag key value) found.1
          (key.zero, freshHeld r.fresh value) with
      | error msg => rfl
      | ok entry =>
        simp only
        split <;> rfl

theorem unmarshalElement_reads (element : Element) (elements : List Value) :
    ReadsValue element.wireType fun data => unmarshalElement r zigzag element data elements := by
  intro data out rest ran
  simp only [unmarshalElement] at ran
  split at ran
  · cases ran
  rename_i found following read
  obtain ⟨pushed, push, same⟩ := map_ok ran
  cases same
  obtain ⟨bytes, split_, isValue, skips, again⟩ := unmarshalScalar_reads element data found _ read
  refine ⟨bytes, split_, isValue, skips, fun rest => ?_⟩
  simp only [unmarshalElement, again, push, Except.map]

theorem unmarshalRepeated_reads {element : Element}
    (takes : (Member.vector element).takes type = true) (elements : List Value) :
    ReadsValue type fun data => unmarshalRepeated r type zigzag element data elements := by
  have single : type = element.wireType →
      ReadsValue type fun data => unmarshalElement r zigzag element data elements := by
    rintro rfl
    exact unmarshalElement_reads element elements
  cases element with
  | plain plain =>
    simp only [unmarshalRepeated]
    by_cases packed : plain.isPackable = true ∧ type = .bytes
    · obtain ⟨packable, rfl⟩ := packed
      simp only [packable, and_self, if_true]
      refine readsValue_of (fun _ => rfl) consumeBytes_local (text "corrupt packed field")
        (fun payload => unmarshalPacked r.lim zigzag plain payload elements) fun data => ?_
      cases consumeBytes data <;> rfl
    · simp only [packed, if_false]
      simp only [Member.takes, Bool.or_eq_true, decide_eq_true_eq, Bool.and_eq_true] at takes
      exact single (takes.resolve_right packed)
  | bigInt => exact single (of_decide_eq_true takes)
  | decimal => exact single (of_decide_eq_true takes)
  | bigFloat => exact single (of_decide_eq_true takes)
  | struct _ => exact single (of_decide_eq_true takes)

theorem unmarshalField_reads {member : Member} (takes : member.takes type = true) (v : Value) :
    ReadsValue type fun data => unmarshalField r type zigzag data v member := by
  match member with
  | .held (.value element) =>
    obtain rfl : type = element.wireType := by simpa [Member.takes] using takes
    exact unmarshalScalar_reads element
  | .held (.optional element) =>
    obtain rfl : type = element.wireType := by simpa [Member.takes] using takes
    exact (unmarshalScalar_reads element).map _
  | .held (.pointer element) =>
    obtain rfl : type = element.wireType := by simpa [Member.takes] using takes
    exact (unmarshalScalar_reads element).map _
  | .map key value =>
    obtain rfl : type = .bytes := by simpa [Member.takes] using takes
    exact (unmarshalEntry_reads key value _).map _
  | .vector element => exact (unmarshalRepeated_reads takes _).map _

end

theorem unmarshalMatched_found (fields : List Field) : ∀ {members members' : List Value},
      unmarshalMatched r num type data fields members = some (.ok (members', rest)) →
      ∃ field v out, fields.find? (·.number = num) = some field ∧
        unmarshalField r type field.zigzag data v field.member = .ok (out, rest) ∧
        ∀ data rest, unmarshalField r type field.zigzag data v field.member = .ok (out, rest) →
          unmarshalMatched r num type data fields members = some (.ok (members', rest)) := by
  induction fields with
  | nil => intro members members' read; cases members <;> cases read
  | cons field fields ih =>
    intro members members' read
    cases members with
    | nil => cases read
    | cons v members =>
      rw [unmarshalMatched] at read
      split at read
      · rename_i own
        split at read
        · cases read
        · rename_i found following ran
          cases read
          refine ⟨field, v, found, by simp [own], ran, fun data rest again => ?_⟩
          simp [unmarshalMatched, own, again]
      · rename_i other
        split at read
        · cases read
        · rename_i inner later
          obtain ⟨⟨changed, _⟩, found, same⟩ := map_ok (Option.some.inj read)
          cases same
          obtain ⟨field', v', out, first, ran, again⟩ := ih (found ▸ later)
          refine ⟨field', v', out, by simpa [other] using first, ran, fun data rest ran' => ?_⟩
          simp [unmarshalMatched, other, again data rest ran', Except.map]

theorem unmarshalMatched_none (fields : List Field) : ∀ {members : List Value},
      unmarshalMatched r num type data fields members = none →
        ∀ data, unmarshalMatched r num type data fields members = none := by
  induction fields with
  | nil => intro members _ data; cases members <;> rfl
  | cons field fields ih =>
    intro members unknown data
    cases members with
    | nil => rfl
    | cons v members =>
      rw [unmarshalMatched] at unknown ⊢
      split at unknown
      · split at unknown <;> cases unknown
      · rename_i other
        split at unknown
        · rename_i later
          rw [if_neg other, ih later data]
        · cases unknown

abbrev fieldReader (r : Readers) (fields : List Field) : FieldReader (List Value) :=
  fun num type data members => unmarshalMatched r num type data fields members

inductive StepValue (r : Readers) (fields : List Field) (num : Nat) (type : WireType)
    (value : Bytes) (members : List Value) : List Value → Prop
  | field {members' : List Value}
      (read : ∀ rest, unmarshalMatched r num type (value ++ rest) fields members =
        some (.ok (members', rest))) : StepValue r fields num type value members members'
  | skipped (unknown : ∀ data, unmarshalMatched r num type data fields members = none)
      (skips : ∀ rest, consumeFieldValue (value ++ rest) num type = some rest) :
      StepValue r fields num type value members members

def Step (r : Readers) (fields : List Field) (num : Nat) (bytes : Bytes)
    (members members' : List Value) : Prop :=
  ∃ type tag value, bytes = tag ++ value ∧ IsTag num type tag ∧ IsValue num type value ∧
    StepValue r fields num type value members members'

theorem step_of_turn {s s' : Bytes × List Value}
    (turned : recordTurn structWording (fieldReader r fields) s = .next s')
    (conform : tagsConform fields s.1 = true) :
    ∃ num bytes, s.1 = bytes ++ s'.1 ∧ Step r fields num bytes s.2 s'.2 ∧
      tagsConform fields s'.1 = true := by
  obtain ⟨data, members⟩ := s
  obtain ⟨rest, members'⟩ := s'
  obtain ⟨num, type, following, read, step⟩ := recordTurn_next turned
  obtain ⟨own, later⟩ := tagsConform_tag conform read
  obtain ⟨tag, same, isTag⟩ := consumeTag_sound read
  rcases step with found | ⟨unknown, skipped, kept⟩
  · obtain ⟨field, v, out, first, ran, again⟩ := unmarshalMatched_found fields found
    have takes : field.member.takes type = true := by
      rwa [tagConforms, first] at own
    obtain ⟨value, split_, isValue, skips, local_⟩ := unmarshalField_reads takes v following out _ ran
    have plain : type ≠ .startGroup := by
      rintro rfl
      exact absurd (skips []) (by simp [consumePlainValue])
    refine ⟨num, tag ++ value, by rw [same, split_, List.append_assoc],
      ⟨type, tag, value, rfl, isTag, isValue num, .field fun rest => again _ _ (local_ rest)⟩, later _ ?_⟩
    rw [split_, consumeFieldValue, if_neg plain, skips]
  · obtain ⟨value, split_, isValue, again⟩ := consumeFieldValue_sound skipped
    cases kept
    exact ⟨num, tag ++ value, by rw [same, split_, List.append_assoc],
      ⟨type, tag, value, rfl, isTag, isValue,
        .skipped (unmarshalMatched_none fields unknown) again⟩, later _ skipped⟩

theorem Step.turn (step : Step r fields num bytes members members') (rest : Bytes) :
    recordTurn structWording (fieldReader r fields) (bytes ++ rest, members) =
      .next (rest, members') := by
  obtain ⟨type, tag, value, rfl, isTag, _, read⟩ := step
  have tagged : consumeTag (tag ++ value ++ rest) = some (num, type, value ++ rest) := by
    rw [List.append_assoc, consumeTag_complete isTag]
  have filled : (tag ++ value ++ rest).isEmpty = false := by
    have shorter := consumeTag_rest tagged
    rw [List.isEmpty_eq_false_iff]
    intro empty
    rw [empty] at shorter
    exact Nat.not_lt_zero _ shorter
  rw [recordTurn]
  cases read with
  | field read => simp only [filled, tagged, fieldReader, read, Bool.false_eq_true, if_false]
  | skipped unknown skips =>
    simp only [filled, tagged, fieldReader, unknown, skips, Bool.false_eq_true, if_false]

inductive Run (r : Readers) (fields : List Field) : List (Nat × Bytes) → List Value → List Value → Prop
  | nil (members : List Value) : Run r fields [] members members
  | cons {num : Nat} {bytes : Bytes} {records : List (Nat × Bytes)}
      {members next out : List Value} (step : Step r fields num bytes members next)
      (rest : Run r fields records next out) : Run r fields ((num, bytes) :: records) members out

def bytesOf (records : List (Nat × Bytes)) : Bytes := records.flatMap (·.2)

theorem Run.read (run : Run r fields records members out) :
    unmarshalFields r fields (bytesOf records) members = .ok out := by
  induction run with
  | nil members => rfl
  | cons step rest ih =>
    rw [bytesOf, List.flatMap_cons, ← bytesOf]
    exact (loop_next (recordTurn_lowers (unmarshalMatched_shrinks _)) (step.turn _)).trans ih

theorem Run.record (run : Run r fields records members out) :
    ∀ record ∈ records, IsRecord record.1 record.2 := by
  induction run with
  | nil members => intro record found; cases found
  | cons step rest ih =>
    intro record found
    rcases List.mem_cons.mp found with rfl | later
    · obtain ⟨type, tag, value, shape, isTag, isValue, _⟩ := step
      exact ⟨type, tag, value, shape, isTag, isValue⟩
    · exact ih record later

theorem run_of_unmarshalFields (read : unmarshalFields r fields data members = .ok out)
    (conform : tagsConform fields data = true) :
    ∃ records, data = bytesOf records ∧ Run r fields records members out := by
  suffices all : ∀ s : Bytes × List Value,
      loop (fun s => s.1.length) (recordTurn structWording (fieldReader r fields))
        (fun s => .ok s.2) s = .ok out →
      tagsConform fields s.1 = true →
        ∃ records, s.1 = bytesOf records ∧ Run r fields records s.2 out from
    all (data, members) read conform
  refine loop_induct (recordTurn_lowers (unmarshalMatched_shrinks fields))
    (motive := fun s result => result = .ok out → tagsConform fields s.1 = true →
      ∃ records, s.1 = bytesOf records ∧ Run r fields records s.2 out) ?_ ?_
  · intro s s' result turned ih read conform
    obtain ⟨num, bytes, same, step, later⟩ := step_of_turn turned conform
    obtain ⟨records, same', run⟩ := ih read later
    refine ⟨(num, bytes) :: records, ?_, .cons step run⟩
    rw [same, same']
    rfl
  · intro s result turned read _
    subst read
    obtain rfl := recordTurn_done turned
    exact ⟨[], rfl, .nil _⟩

inductive SameAt (num : Nat) : List Field → List Value → List Value → Prop
  | noFields (members members' : List Value) : SameAt num [] members members'
  | noMembers (fields : List Field) : SameAt num fields [] []
  | cons {field : Field} {fields : List Field} {v v' : Value} {members members' : List Value}
      (first : field.number = num → v = v') (rest : SameAt num fields members members') :
      SameAt num (field :: fields) (v :: members) (v' :: members')

theorem SameAt.refl (num : Nat) (fields : List Field) :
    ∀ members, SameAt num fields members members := by
  induction fields with
  | nil => exact fun members => .noFields members members
  | cons field fields ih =>
    intro members
    cases members with
    | nil => exact .noMembers _
    | cons v members => exact .cons (fun _ => rfl) (ih members)

theorem SameAt.at (same : SameAt num fields members members') : ∀ {i : Nat} {field : Field},
      fields[i]? = some field → field.number = num → members[i]? = members'[i]? := by
  induction same with
  | noFields _ _ => intro i field found _; simp at found
  | noMembers _ => intro i field _ _; rfl
  | cons first rest ih =>
    intro i field found own
    cases i with
    | zero =>
      cases found
      simp [first own]
    | succ i => exact ih found own

theorem SameAt.matched (same : SameAt num fields members members') : ∀ {out' : List Value},
      unmarshalMatched r num type data fields members' = some (.ok (out', rest)) →
      ∃ out, SameAt num fields out out' ∧ ∀ data rest,
        unmarshalMatched r num type data fields members' = some (.ok (out', rest)) →
          unmarshalMatched r num type data fields members = some (.ok (out, rest)) := by
  induction same with
  | noFields _ members' => intro out' read; cases members' <;> cases read
  | noMembers fields => intro out' read; cases fields <;> cases read
  | cons first rest_ ih =>
    intro out' read
    rename_i field fields v v' members members'
    by_cases own : field.number = num
    · have each : ∀ data rest,
          unmarshalMatched r num type data (field :: fields) (v' :: members') =
            some (.ok (out', rest)) → ∃ found, out' = found :: members' ∧
              unmarshalField r type field.zigzag data v' field.member = .ok (found, rest) := by
        intro data rest read
        rw [unmarshalMatched, if_pos own] at read
        split at read
        · cases read
        · rename_i found following ran
          cases read
          exact ⟨found, rfl, ran⟩
      obtain ⟨found, rfl, _⟩ := each data rest read
      refine ⟨found :: members, .cons (fun _ => rfl) rest_, fun data rest read => ?_⟩
      obtain ⟨found', shape, ran⟩ := each data rest read
      cases shape
      rw [← first own] at ran
      simp [unmarshalMatched, own, ran]
    · have each : ∀ data rest,
          unmarshalMatched r num type data (field :: fields) (v' :: members') =
            some (.ok (out', rest)) → ∃ later, out' = v' :: later ∧
              unmarshalMatched r num type data fields members' = some (.ok (later, rest)) := by
        intro data rest read
        rw [unmarshalMatched, if_neg own] at read
        split at read
        · cases read
        · rename_i inner ran
          obtain ⟨⟨later, _⟩, found, eq⟩ := map_ok (Option.some.inj read)
          cases eq
          exact ⟨later, rfl, found ▸ ran⟩
      obtain ⟨later, rfl, ran⟩ := each data rest read
      obtain ⟨out, same, again⟩ := ih ran
      refine ⟨v :: out, .cons first same, fun data rest read => ?_⟩
      obtain ⟨later', shape, ran⟩ := each data rest read
      cases shape
      simp [unmarshalMatched, own, again data rest ran, Except.map]

theorem SameAt.unmatched (same : SameAt num fields members members')
    (unknown : unmarshalMatched r num type data fields members' = none) :
    unmarshalMatched r num type data fields members = none := by
  induction same with
  | noFields members _ => cases members <;> rfl
  | noMembers fields => cases fields <;> rfl
  | cons first rest_ ih =>
    rw [unmarshalMatched] at unknown ⊢
    split at unknown
    · split at unknown <;> cases unknown
    · rename_i other
      split at unknown
      · rename_i later
        rw [if_neg other, ih later]
      · cases unknown

theorem SameAt.other {num' : Nat} (apart : num' ≠ num) (same : SameAt num fields members members') :
    ∀ {out' : List Value},
      unmarshalMatched r num' type data fields members' = some (.ok (out', rest)) →
        SameAt num fields members out' := by
  induction same with
  | noFields _ members' => intro out' read; cases members' <;> cases read
  | noMembers fields => intro out' read; cases fields <;> cases read
  | cons first rest_ ih =>
    intro out' read
    rename_i field fields v v' members members'
    rw [unmarshalMatched] at read
    split at read
    · rename_i own
      split at read
      · cases read
      · cases read
        exact .cons (fun number => absurd (own.symm.trans number) apart) rest_
    · split at read
      · cases read
      · rename_i inner later
        obtain ⟨⟨changed, _⟩, found, eq⟩ := map_ok (Option.some.inj read)
        cases eq
        exact .cons first (ih (found ▸ later))

theorem SameAt.step (same : SameAt num fields members members')
    (step : Step r fields num bytes members' out') :
    ∃ out, Step r fields num bytes members out ∧ SameAt num fields out out' := by
  obtain ⟨type, tag, value, shape, isTag, isValue, read⟩ := step
  cases read with
  | field read =>
    obtain ⟨out, same', again⟩ := same.matched (read [])
    exact ⟨out, ⟨type, tag, value, shape, isTag, isValue,
      .field fun rest => again _ _ (read rest)⟩, same'⟩
  | skipped unknown skips =>
    exact ⟨members, ⟨type, tag, value, shape, isTag, isValue,
      .skipped (fun data => same.unmatched (unknown data)) skips⟩, same⟩

theorem SameAt.otherStep {num' : Nat} (apart : num' ≠ num)
    (same : SameAt num fields members members') (step : Step r fields num' bytes members' out') :
    SameAt num fields members out' := by
  obtain ⟨type, tag, value, shape, isTag, isValue, read⟩ := step
  cases read with
  | field read => exact same.other apart (read [])
  | skipped _ _ => exact same

theorem Run.filter (run : Run r fields records members' out') :
    ∀ {members : List Value}, SameAt num fields members members' →
      ∃ out, Run r fields (records.filter (·.1 = num)) members out ∧ SameAt num fields out out' := by
  induction run with
  | nil members' => exact fun same => ⟨_, .nil _, same⟩
  | cons step rest ih =>
    intro members same
    rename_i num' bytes records members' next out'
    by_cases own : num' = num
    · subst own
      obtain ⟨next', step', same'⟩ := same.step step
      obtain ⟨out, run, same''⟩ := ih same'
      refine ⟨out, ?_, same''⟩
      rw [List.filter_cons_of_pos (by simp)]
      exact .cons step' run
    · obtain ⟨out, run, same'⟩ := ih (same.otherStep own step)
      refine ⟨out, ?_, same'⟩
      rwa [List.filter_cons_of_neg (by simpa using own)]

theorem bytesOf_filter_length (num : Nat) (records : List (Nat × Bytes)) :
    (bytesOf (records.filter (·.1 = num))).length ≤ (bytesOf records).length := by
  induction records with
  | nil => exact Nat.le_refl _
  | cons record records ih =>
    rw [List.filter_cons]
    split <;> simp only [bytesOf, List.flatMap_cons, List.length_append] at ih ⊢ <;> omega

/-- Where every tag of a field carries a wire type of the field, what `Unmarshal` accepts is a
sequence of records, and each field is what its own records alone make of it. -/
theorem unmarshal_records {S : Schema} {id : Nat} {data : Bytes} {v out : Value}
    {opts : UnmarshalOptions} (conform : tagsConform (S.fields id) data = true)
    (accepted : unmarshal S id data v opts = .ok out) :
    ∃ records : List (Nat × Bytes), (∀ record ∈ records, IsRecord record.1 record.2) ∧
      data = bytesOf records ∧
      ∀ (i : Nat) (field : Field), (S.fields id)[i]? = some field →
        ∃ alone, unmarshal S id (bytesOf (records.filter (·.1 = field.number))) v opts = .ok alone ∧
          alone.members[i]? = out.members[i]? := by
  rw [unmarshal, unmarshalWithin] at accepted
  split at accepted
  · cases accepted
  rename_i size
  rw [unmarshalStruct_succ] at accepted
  obtain ⟨members, read, rfl⟩ := map_ok accepted
  obtain ⟨records, rfl, run⟩ := run_of_unmarshalFields read conform
  refine ⟨records, run.record, rfl, fun i field found => ?_⟩
  obtain ⟨alone, own, same⟩ := run.filter (SameAt.refl field.number (S.fields id) _)
  have shorter := bytesOf_filter_length field.number records
  refine ⟨.struct alone, ?_, same.at found rfl⟩
  rw [unmarshal, unmarshalWithin, if_neg (by omega), unmarshalStruct_succ, own.read]
  rfl

theorem unmarshal_records_ledger :
    ∃ records : List (Nat × Bytes), (∀ record ∈ records, IsRecord record.1 record.2) ∧
      [0x08, 0x05, 0x25, 1, 2, 3, 4, 0x08, 0x02] = bytesOf records := by
  obtain ⟨records, each, same, _⟩ := @unmarshal_records ledger 0
    [0x08, 0x05, 0x25, 1, 2, 3, 4, 0x08, 0x02] (ledger.fresh 0)
    (.struct [.atom (.int 1), .atom (.double 0), .unset]) {} rfl rfl
  exact ⟨records, each, same⟩

/-- A balance under a `fixed64` tag is read as a varint of one byte, which is no record. -/
theorem unmarshal_accepts_no_record :
    unmarshal ledger 0 [0x09, 0x01] (ledger.fresh 0) {} =
        .ok (.struct [.atom (.int (-1)), .atom (.double 0), .unset]) ∧
      ¬ ∃ records : List (Nat × Bytes), (∀ record ∈ records, IsRecord record.1 record.2) ∧
        [0x09, 0x01] = bytesOf records := by
  refine ⟨rfl, ?_⟩
  rintro ⟨records, each, same⟩
  cases records with
  | nil => cases same
  | cons record records =>
    obtain ⟨type, tag, value, shape, isTag, isValue⟩ := each record List.mem_cons_self
    have tagged : consumeTag [0x09, 0x01] = some (record.1, type, value ++ bytesOf records) := by
      rw [same, bytesOf, List.flatMap_cons, shape, List.append_assoc, consumeTag_complete isTag]
      rfl
    have fixed : consumeTag [0x09, 0x01] = some (1, .fixed64, [0x01]) := rfl
    rw [fixed] at tagged
    simp only [Option.some.injEq, Prod.mk.injEq] at tagged
    obtain ⟨_, rfl, left⟩ := tagged
    cases isValue with
    | fixed64 length =>
      have short := congrArg List.length left
      simp only [List.length_append, List.length_singleton] at short
      omega

end Protowire.Pb.Native
