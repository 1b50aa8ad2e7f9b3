import Protowire.Sbe.Template

/-!
What `Unmarshal` and `NewView` accept, and what a message holds once its fields are decoded: under
each number what the bytes of that field read as, and nothing else.
-/

namespace Protowire.Sbe

open Support

variable {data block : Bytes} {maxRepeated pos : Nat} {tmpl : MessageTemplate}
  {back before after target : Message}

def HeaderFits (data : Bytes) (maxRepeated pos : Nat) (gt : GroupTemplate) : Prop :=
  pos + 4 ≤ data.length ∧ gt.blockLength ≤ loadU16 data pos ∧
    (loadU16 data pos = 0 → loadU16 data (pos + 2) = 0) ∧
    (0 < loadU16 data pos →
      loadU16 data (pos + 2) ≤ (data.length - (pos + 4)) / loadU16 data pos) ∧
    loadU16 data (pos + 2) ≤ maxRepeated

theorem validateGroups_cons {gt : GroupTemplate} {rest : List GroupTemplate} :
    validateGroups data maxRepeated pos (gt :: rest) = .ok () ↔
      HeaderFits data maxRepeated pos gt ∧
        validateGroups data maxRepeated
          (pos + 4 + loadU16 data pos * loadU16 data (pos + 2)) rest = .ok () := by
  simp only [validateGroups, except_guard_ok_iff, HeaderFits]
  constructor
  · rintro ⟨long, wide, some_, fits, few, following⟩
    exact ⟨⟨by omega, by omega, by omega, by omega, by omega⟩, following⟩
  · rintro ⟨⟨long, wide, some_, fits, few⟩, following⟩
    exact ⟨by omega, by omega, by omega, by omega, by omega, following⟩

structure MessageTemplate.Heads (tmpl : MessageTemplate) (data : Bytes) : Prop where
  long : 8 ≤ data.length
  templateId : loadU16 data 2 = tmpl.templateId
  schemaId : loadU16 data 4 = tmpl.schemaId
  wide : tmpl.blockLength ≤ loadU16 data 0
  fits : 8 + loadU16 data 0 ≤ data.length

theorem MessageTemplate.unmarshalInto_ok {msg : Message} :
    tmpl.unmarshalInto maxRepeated data msg = .ok back ↔
      tmpl.Heads data ∧
        validateGroups data maxRepeated (8 + loadU16 data 0) tmpl.groups = .ok () ∧
        ∃ root, decodeFields (subspan data 8 (loadU16 data 0)) tmpl.fields msg = .ok root ∧
          decodeGroups data (8 + loadU16 data 0) tmpl.groups root = .ok back := by
  simp only [MessageTemplate.unmarshalInto, except_guard_ok_iff, except_bind_ok_iff]
  constructor
  · rintro ⟨long, template, schema, wide, fits, ⟨⟩, valid, rest⟩
    exact ⟨⟨by omega, by omega, by omega, by omega, by omega⟩, valid, rest⟩
  · rintro ⟨⟨long, template, schema, wide, fits⟩, valid, rest⟩
    exact ⟨by omega, by omega, by omega, by omega, by omega, (), valid, rest⟩

theorem Codec.unmarshal_ok {c : Codec} {fullName : Bytes} {msg : Message} :
    c.unmarshal fullName data msg = .ok back ↔
      data.length ≤ c.maxMessageSize ∧ ∃ tmpl, c.templateByName fullName = some tmpl ∧
        tmpl.unmarshalInto c.maxRepeated data msg = .ok back := by
  rw [Codec.unmarshal]
  split
  · rename_i large
    simp
    omega
  · rename_i small
    cases c.templateByName fullName with
    | none => simp
    | some tmpl => simp; omega

theorem Codec.newView_of_heads {c : Codec} (sound : c.Sound) {fullName : Bytes}
    (registered : c.templateByName fullName = some tmpl) (small : data.length ≤ c.maxMessageSize)
    (heads : tmpl.Heads data)
    (valid : validateGroups data c.maxRepeated (8 + loadU16 data 0) tmpl.groups = .ok ()) :
    c.newView data = .ok { data, block := subspan data 8 (loadU16 data 0)
                           fields := tmpl.fields, groups := tmpl.groups } := by
  obtain ⟨-, found⟩ := sound fullName tmpl registered
  have wide := heads.wide
  have fits := heads.fits
  simp only [Codec.newView, except_guard_ok_iff]
  refine ⟨by omega, by have := heads.long; omega, ?_⟩
  simp only [heads.templateId, heads.schemaId, found, except_guard_ok_iff, except_bind_ok_iff]
  exact ⟨by omega, by omega, (), valid, rfl⟩

mutual

def Stored : List FieldTemplate → Bytes → Message → Prop
  | [], _, _ => True
  | ft :: rest, block, back => StoredAt ft block back ∧ Stored rest block back

def StoredAt : FieldTemplate → Bytes → Message → Prop
  | .mk fd offset size encoding composite, block, back =>
    match fd, encoding with
    | .scalar info kind, some primitive =>
      ∃ value, decodeScalar (.scalar info kind) kind primitive (subspan block offset size) =
        .ok value ∧ back.scalar info.number =
          if (FieldDescriptor.scalar info kind).drops value then none else some value
    | _, _ =>
      composite ≠ [] → ∃ sub, back.child fd.number = some sub ∧
        Stored composite (subspan block offset size) sub

end

/-- Whether `DecodeFields` sets the field, and with that ends the other members of its oneof. -/
def FieldTemplate.sets (block : Bytes) : FieldTemplate → Bool
  | .mk (.scalar info kind) offset size (some primitive) _ =>
    match decodeScalar (.scalar info kind) kind primitive (subspan block offset size) with
    | .ok value => !(FieldDescriptor.scalar info kind).drops value
    | .error _ => false
  | .mk _ _ _ _ composite => !composite.isEmpty

def overridden (block : Bytes) (number : Nat) (later : List FieldTemplate) : Bool :=
  later.any fun ft => (ft.fd.info.oneof.getD []).contains number && ft.sets block

/-- What decoding fields leaves of the others: it ends the members of their oneofs. -/
structure Cleared (block : Bytes) (fields : List FieldTemplate) (before after : Message) : Prop where
  entries : after.entries = before.entries
  scalar : ∀ n, n ∉ fields.map (fun ft => ft.fd.number) →
    after.scalar n = if overridden block n fields then none else before.scalar n
  child : ∀ n, n ∉ fields.map (fun ft => ft.fd.number) →
    after.child n = if overridden block n fields then none else before.child n

theorem Cleared.refl {fields : List FieldTemplate} (msg : Message)
    (none_ : ∀ n, overridden block n fields = false) : Cleared block fields msg msg :=
  ⟨rfl, fun n _ => by simp [none_], fun n _ => by simp [none_]⟩

theorem Cleared.cons {ft : FieldTemplate} {rest : List FieldTemplate} {middle : Message}
    (first : Cleared block [ft] before middle) (second : Cleared block rest middle after) :
    Cleared block (ft :: rest) before after := by
  have both (n : Nat) : overridden block n (ft :: rest) =
      (overridden block n [ft] || overridden block n rest) := by simp [overridden]
  refine ⟨second.entries.trans first.entries, fun n other => ?_, fun n other => ?_⟩
  all_goals rw [List.map_cons, List.mem_cons, not_or] at other
  · rw [second.scalar n other.2, first.scalar n (by simpa using other.1), both]
    cases overridden block n [ft] <;> cases overridden block n rest <;> rfl
  · rw [second.child n other.2, first.child n (by simpa using other.1), both]
    cases overridden block n [ft] <;> cases overridden block n rest <;> rfl

theorem overridden_one (block : Bytes) (n : Nat) (ft : FieldTemplate) :
    overridden block n [ft] = ((ft.fd.info.oneof.getD []).contains n && ft.sets block) := by
  simp [overridden]

namespace Message

variable (msg : Message) {fd : FieldDescriptor}

theorem getMessage_unset (fd : FieldDescriptor) (unset : msg.child fd.number = none) :
    msg.getMessage fd = fresh := by
  rw [getMessage, unset]
  rfl

theorem clearOneof_scalar (fd : FieldDescriptor) (n : Nat) : (msg.clearOneof fd).scalar n =
    if (fd.info.oneof.getD []).contains n then none else msg.scalar n := by
  simp [clearOneof, scalar]

theorem clearOneof_child (fd : FieldDescriptor) (n : Nat) : (msg.clearOneof fd).child n =
    if (fd.info.oneof.getD []).contains n then none else msg.child n := by
  simp [clearOneof, child]

theorem setScalar_keeps {value : Scalar} (keeps : fd.drops value = false) :
    (msg.setScalar fd value).entries = msg.entries ∧
      (msg.setScalar fd value).scalar fd.number = some value ∧
      (∀ n, n ≠ fd.number → (msg.setScalar fd value).scalar n = (msg.clearOneof fd).scalar n) ∧
      (msg.setScalar fd value).child = (msg.clearOneof fd).child := by
  rw [setScalar, keeps]
  exact ⟨rfl, Function.update_self .., fun n other => Function.update_of_ne other _ _, rfl⟩

theorem setScalar_drops {value : Scalar} (drops : fd.drops value = true) :
    msg.setScalar fd value = msg := by
  rw [setScalar, drops]
  rfl

end Message

theorem StoredAt.congr {ft : FieldTemplate} (stored : StoredAt ft block before)
    (scalar : after.scalar ft.fd.number = before.scalar ft.fd.number)
    (child : after.child ft.fd.number = before.child ft.fd.number) : StoredAt ft block after := by
  obtain ⟨fd, offset, size, encoding, composite⟩ := ft
  cases fd with
  | scalar info kind =>
    cases encoding with
    | some primitive =>
      obtain ⟨value, read, held⟩ := stored
      exact ⟨value, read, scalar.trans held⟩
    | none =>
      intro nonempty
      obtain ⟨sub, held, inner⟩ := stored nonempty
      exact ⟨sub, child.trans held, inner⟩
  | message info type =>
    intro nonempty
    obtain ⟨sub, held, inner⟩ := stored nonempty
    exact ⟨sub, child.trans held, inner⟩

theorem Stored.congr {fields : List FieldTemplate} (stored : Stored fields block before)
    (scalar : after.scalar = before.scalar) (child : after.child = before.child) :
    Stored fields block after := by
  induction fields with
  | nil => trivial
  | cons ft rest ih => exact ⟨stored.1.congr (by rw [scalar]) (by rw [child]), ih stored.2⟩

theorem decodeLeaf_left {ft : FieldTemplate} (sound : ft.Sound) (leaf : ft.composite = [])
    (unset : target.scalar ft.fd.number = none) (read : decodeLeaf ft block target = .ok back) :
    StoredAt ft block back ∧ Cleared block [ft] target back := by
  obtain ⟨fd, offset, size, encoding, composite⟩ := ft
  cases leaf
  cases fd with
  | scalar info kind =>
    obtain ⟨-, primitive, rfl, -⟩ := sound
    obtain ⟨value, decoded, stored⟩ := except_bind_ok read
    cases stored
    have decoded : decodeScalar _ kind primitive (subspan block offset size) = .ok value := decoded
    have sets : FieldTemplate.sets block (.mk (.scalar info kind) offset size (some primitive) []) =
        !(FieldDescriptor.scalar info kind).drops value := by
      rw [FieldTemplate.sets, decoded]
    cases dropped : (FieldDescriptor.scalar info kind).drops value with
    | true =>
      rw [Message.setScalar_drops target dropped]
      rw [dropped] at sets
      refine ⟨⟨value, decoded, by rw [dropped]; exact unset⟩, .refl _ fun n => ?_⟩
      rw [overridden_one, sets, Bool.not_true, Bool.and_false]
    | false =>
      obtain ⟨entries, own, scalar, child⟩ := Message.setScalar_keeps target dropped
      rw [dropped] at sets
      refine ⟨⟨value, decoded, by rw [dropped]; exact own⟩, entries, fun n other => ?_, fun n _ => ?_⟩
      all_goals rw [overridden_one, sets, Bool.not_false, Bool.and_true]
      · rw [scalar n (List.mem_singleton.not.mp other), Message.clearOneof_scalar]
        rfl
      · rw [child, Message.clearOneof_child]
        rfl
  | message info type =>
    cases read
    refine ⟨fun nonempty => absurd rfl nonempty, .refl _ fun n => ?_⟩
    simp [overridden, FieldTemplate.sets]

/-- What a message holds once the fields are decoded into it: of a field that a later member of its
oneof replaces, nothing. -/
def Left (block : Bytes) (back : Message) : List FieldTemplate → Prop
  | [] => True
  | ft :: rest =>
    (if overridden block ft.fd.number rest then
      back.scalar ft.fd.number = none ∧ back.child ft.fd.number = none
    else StoredAt ft block back) ∧ Left block back rest

theorem overridden_plain {fields : List FieldTemplate} (plain : NoOneof fields) (n : Nat) :
    overridden block n fields = false := by
  rw [overridden, List.any_eq_false]
  intro ft member
  simp [plain ft member]

theorem stored_of_left {fields : List FieldTemplate} (plain : NoOneof fields)
    (left : Left block back fields) : Stored fields block back := by
  induction fields with
  | nil => trivial
  | cons ft rest ih =>
    have others : NoOneof rest := fun other member => plain other (by simp [member])
    have first := left.1
    rw [overridden_plain others] at first
    exact ⟨first, ih others left.2⟩

mutual

theorem decodeFields_left : ∀ {fields : List FieldTemplate} {block : Bytes}
    {target back : Message}, AllSound fields → (fields.map fun ft => ft.fd.number).Nodup →
    (∀ ft ∈ fields, target.scalar ft.fd.number = none ∧ target.child ft.fd.number = none) →
    decodeFields block fields target = .ok back →
    Left block back fields ∧ Cleared block fields target back
  | [], _, _, _, _, _, _, read => by
    cases read
    exact ⟨trivial, .refl _ fun _ => rfl⟩
  | ft :: rest, block, target, back, sound, distinct, unset, read => by
    rw [decodeFields] at read
    obtain ⟨middle, first, read⟩ := except_bind_ok read
    rw [List.map_cons, List.nodup_cons] at distinct
    obtain ⟨stored, cleared⟩ := decodeField_left sound.1 (unset ft (by simp)) first
    have unsetRest : ∀ other ∈ rest,
        middle.scalar other.fd.number = none ∧ middle.child other.fd.number = none := by
      intro other member
      have different : other.fd.number ∉ [ft].map fun ft => ft.fd.number := by
        rw [List.map_singleton, List.mem_singleton]
        exact fun same => distinct.1 (same ▸ List.mem_map_of_mem member)
      obtain ⟨scalar, child⟩ := unset other (by simp [member])
      rw [cleared.scalar _ different, cleared.child _ different, scalar, child]
      simp
    obtain ⟨leftRest, clearedRest⟩ := decodeFields_left sound.2 distinct.2 unsetRest read
    have scalar := clearedRest.scalar _ distinct.1
    have child := clearedRest.child _ distinct.1
    refine ⟨⟨?_, leftRest⟩, cleared.cons clearedRest⟩
    split
    · rename_i replaced
      rw [if_pos replaced] at scalar child
      exact ⟨scalar, child⟩
    · rename_i keeps
      rw [if_neg keeps] at scalar child
      exact stored.congr scalar child

theorem decodeField_left : ∀ {ft : FieldTemplate} {block : Bytes} {target back : Message},
    ft.Sound → target.scalar ft.fd.number = none ∧ target.child ft.fd.number = none →
    decodeField block ft target = .ok back →
    StoredAt ft block back ∧ Cleared block [ft] target back
  | .mk fd offset size encoding composite, block, target, back, sound, unset, read => by
    rw [decodeField] at read
    split at read
    · rename_i leaf
      exact decodeLeaf_left sound (List.isEmpty_iff.mp leaf) unset.1 read
    · rename_i inner_
      cases fd with
      | scalar info kind =>
        obtain ⟨rfl, -⟩ := sound
        contradiction
      | message info type =>
        obtain ⟨sub, decoded, stored⟩ := except_bind_ok read
        cases stored
        obtain ⟨rfl, -, distinct, plainInner, -, inner⟩ := sound
        rw [Message.getMessage_unset target (.message info type) unset.2] at decoded
        obtain ⟨leftInner, -⟩ := decodeFields_left inner distinct.1 (fun _ _ => ⟨rfl, rfl⟩) decoded
        have sets : FieldTemplate.sets block
            (.mk (.message info type) offset size none composite) = true := by
          simpa [FieldTemplate.sets] using inner_
        refine ⟨fun _ => ⟨sub, Function.update_self .., stored_of_left plainInner leftInner⟩, rfl,
          fun n _ => ?_, fun n other => ?_⟩
        all_goals rw [overridden_one, sets, Bool.and_true]
        · exact Message.clearOneof_scalar target (.message info type) n
        · exact (Function.update_of_ne (List.mem_singleton.not.mp other) _ _).trans
            (Message.clearOneof_child target (.message info type) n)

end

def EntriesRead (data : Bytes) (gt : GroupTemplate) (entryBlock : Nat) :
    Nat → List Message → Prop
  | _, [] => True
  | pos, entry :: rest =>
    decodeFields (subspan data pos entryBlock) gt.fields .fresh = .ok entry ∧
      EntriesRead data gt entryBlock (pos + entryBlock) rest

theorem decodeEntries_ok {gt : GroupTemplate} {entryBlock count : Nat}
    (read : decodeEntries data gt entryBlock count pos target = .ok back) :
    ∃ entries, EntriesRead data gt entryBlock pos entries ∧ entries.length = count ∧
      back.scalar = target.scalar ∧ back.child = target.child ∧
      back.entries gt.fd.number = target.entries gt.fd.number ++ entries ∧
      ∀ n, n ≠ gt.fd.number → back.entries n = target.entries n := by
  induction count generalizing pos target with
  | zero =>
    cases read
    exact ⟨[], trivial, rfl, rfl, rfl, (List.append_nil _).symm, fun _ _ => rfl⟩
  | succ count ih =>
    obtain ⟨entry, decoded, read⟩ := except_bind_ok read
    obtain ⟨entries, others, length, scalar, child, added, untouched⟩ := ih read
    refine ⟨entry :: entries, ⟨decoded, others⟩, by simp [length], scalar, child, ?_, ?_⟩
    · rw [added]
      simp [Message.addMessage, Message.entries]
    · intro n other
      rw [untouched n other]
      exact Function.update_of_ne other ..

def GroupsRead (data : Bytes) : Nat → List GroupTemplate → Message → Prop
  | _, [], _ => True
  | pos, gt :: rest, back =>
    EntriesRead data gt (loadU16 data pos) (pos + 4) (back.entries gt.fd.number) ∧
      (back.entries gt.fd.number).length = loadU16 data (pos + 2) ∧
      GroupsRead data (pos + 4 + loadU16 data pos * loadU16 data (pos + 2)) rest back

theorem decodeGroups_ok {groups : List GroupTemplate}
    (distinct : (groups.map fun gt => gt.fd.number).Nodup)
    (empty : ∀ gt ∈ groups, target.entries gt.fd.number = [])
    (read : decodeGroups data pos groups target = .ok back) :
    GroupsRead data pos groups back ∧ back.scalar = target.scalar ∧ back.child = target.child ∧
      ∀ n, n ∉ groups.map (fun gt => gt.fd.number) → back.entries n = target.entries n := by
  induction groups generalizing pos target with
  | nil =>
    cases read
    exact ⟨trivial, rfl, rfl, fun _ _ => rfl⟩
  | cons gt rest ih =>
    rw [List.map_cons, List.nodup_cons] at distinct
    obtain ⟨middle, first, read⟩ := except_bind_ok read
    obtain ⟨entries, decoded, length, scalar, child, added, untouched⟩ := decodeEntries_ok first
    have emptyRest : ∀ other ∈ rest, middle.entries other.fd.number = [] := by
      intro other member
      have different : other.fd.number ≠ gt.fd.number := fun same =>
        distinct.1 (same ▸ List.mem_map_of_mem member)
      rw [untouched _ different, empty other (by simp [member])]
    obtain ⟨following, scalars, children, kept⟩ := ih distinct.2 emptyRest read
    have held : back.entries gt.fd.number = entries := by
      rw [kept _ distinct.1, added, empty gt (by simp), List.nil_append]
    refine ⟨⟨held ▸ decoded, held ▸ length, following⟩, scalars.trans scalar,
      children.trans child, fun n other => ?_⟩
    rw [List.map_cons, List.mem_cons, not_or] at other
    rw [kept n other.2, untouched n other.1]

theorem MessageTemplate.unmarshalInto_stored (sound : tmpl.Sound)
    (read : tmpl.unmarshalInto maxRepeated data .fresh = .ok back) :
    Stored tmpl.fields (subspan data 8 (loadU16 data 0)) back ∧
      GroupsRead data (8 + loadU16 data 0) tmpl.groups back := by
  obtain ⟨-, -, root, decoded, read⟩ := MessageTemplate.unmarshalInto_ok.mp read
  obtain ⟨left, cleared⟩ := decodeFields_left sound.block.sound sound.block.distinct.1
    (fun _ _ => ⟨rfl, rfl⟩) decoded
  have empty : ∀ gt ∈ tmpl.groups, root.entries gt.fd.number = [] := by
    intro gt _
    rw [cleared.entries]
    rfl
  obtain ⟨groups, scalar, child, -⟩ := decodeGroups_ok sound.groupNumbers empty read
  exact ⟨(stored_of_left sound.plain left).congr scalar child, groups⟩

end Protowire.Sbe
