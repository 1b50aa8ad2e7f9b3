import Protowire.Sbe.Reading
import Protowire.Sbe.Scalars
import Protowire.Sbe.Written

/-!
Reading back what was written. The one thing the writer puts out and the reader refuses is a group
that has entries and whose entry type takes no bytes.
-/

namespace Protowire.Sbe

open Support

variable {bytes : Bytes} {msg : Message} {gt : GroupTemplate} {groups : List GroupTemplate}
  {tmpl : MessageTemplate}

mutual

def Typed : List FieldTemplate → Message → Prop
  | [], _ => True
  | ft :: rest, msg => TypedAt ft msg ∧ Typed rest msg

def TypedAt : FieldTemplate → Message → Prop
  | .mk fd _ _ _ composite, msg =>
    match fd with
    | .scalar info kind => kind.Admits (.scalar info kind) msg
    | .message info type => Typed composite (msg.getMessage (.message info type))

end

def MessageTemplate.Typed (tmpl : MessageTemplate) (msg : Message) : Prop :=
  Sbe.Typed tmpl.fields msg ∧
    ∀ gt ∈ tmpl.groups, ∀ entry ∈ msg.entries gt.fd.number, Sbe.Typed gt.fields entry

mutual

def Restores : List FieldTemplate → Message → Message → Prop
  | [], _, _ => True
  | ft :: rest, msg, back => RestoresAt ft msg back ∧ Restores rest msg back

def RestoresAt : FieldTemplate → Message → Message → Prop
  | .mk fd _ size encoding composite, msg, back =>
    match fd, encoding with
    | .scalar info kind, some primitive =>
      ∃ value, back.scalar info.number = some value ∧
        value.Same (kept (.scalar info kind) kind size primitive msg)
    | fd, _ =>
      ∃ sub, back.child fd.number = some sub ∧ Restores composite (msg.getMessage fd) sub

end

def MessageTemplate.Restores (tmpl : MessageTemplate) (msg back : Message) : Prop :=
  Sbe.Restores tmpl.fields msg back ∧
    ∀ gt ∈ tmpl.groups,
      List.Forall₂ (Sbe.Restores gt.fields) (msg.entries gt.fd.number)
        (back.entries gt.fd.number)

theorem subspan_middle {front back : Bytes} {offset size : Nat} (start : front.length = offset)
    (length : bytes.length = size) : subspan (front ++ bytes ++ back) offset size = bytes := by
  subst start length
  simp [subspan]

theorem blockBytes_first {ft : FieldTemplate} {others : List FieldTemplate} {front : Bytes}
    {stop : Nat} (tiled : Tiled front.length (ft :: others) stop) (sound : ft.Sound)
    (written : blockBytes (ft :: others) msg = .ok bytes) :
    ∃ first more, bytes = first ++ more ∧ fieldBytes ft msg = .ok first ∧
      blockBytes others msg = .ok more ∧
      (∀ rest, subspan (front ++ (first ++ more) ++ rest) ft.offset ft.size = first) ∧
      Tiled (front ++ first).length others stop := by
  rw [blockBytes] at written
  obtain ⟨first, writtenFirst, written⟩ := except_bind_ok written
  obtain ⟨more, writtenRest, written⟩ := except_bind_ok written
  cases written
  have length := fieldBytes_length sound writtenFirst
  refine ⟨first, more, rfl, writtenFirst, writtenRest, fun rest => ?_, ?_⟩
  · rw [← List.append_assoc, List.append_assoc]
    exact subspan_middle tiled.1.symm length
  · rw [List.length_append, length]
    exact tiled.2

theorem decodeLeaf_written {ft : FieldTemplate} {block : Bytes} (sound : ft.Sound)
    (typed : TypedAt ft msg) (written : leafBytes ft msg = .ok bytes)
    (region : subspan block ft.offset ft.size = bytes) (target : Message) :
    ∃ back, decodeLeaf ft block target = .ok back := by
  obtain ⟨fd, offset, size, encoding, composite⟩ := ft
  cases fd with
  | message info type => cases written
  | scalar info kind =>
    obtain ⟨rfl, primitive, rfl, taken⟩ := sound
    obtain ⟨value, read, -⟩ := scalar_restored rfl rfl taken typed written
    refine ⟨target.setScalar (.scalar info kind) value, ?_⟩
    change (decodeScalar _ kind primitive (subspan block offset size) >>= _) = _
    rw [show subspan block offset size = bytes from region, read]
    rfl

mutual

theorem decodeFields_written : ∀ {fields : List FieldTemplate} {stop : Nat} {msg : Message}
    {bytes : Bytes} (front rest : Bytes), Tiled front.length fields stop → AllSound fields →
    Typed fields msg → blockBytes fields msg = .ok bytes → ∀ (target : Message),
      ∃ back, decodeFields (front ++ bytes ++ rest) fields target = .ok back
  | [], _, _, _, _, _, _, _, _, _, target => ⟨target, rfl⟩
  | ft :: others, stop, msg, bytes, front, rest, tiled, sound, typed, written, target => by
    obtain ⟨first, more, rfl, writtenFirst, writtenRest, region, following⟩ :=
      blockBytes_first tiled sound.1 written
    obtain ⟨middle, readFirst⟩ := decodeField_written sound.1 typed.1 writtenFirst (region rest)
      target
    obtain ⟨back, readRest⟩ := decodeFields_written (front ++ first) rest following sound.2
      typed.2 writtenRest middle
    refine ⟨back, ?_⟩
    rw [List.append_assoc front first more] at readRest
    rw [decodeFields, readFirst]
    exact readRest

theorem decodeField_written : ∀ {ft : FieldTemplate} {msg : Message} {block bytes : Bytes},
    ft.Sound → TypedAt ft msg → fieldBytes ft msg = .ok bytes →
    subspan block ft.offset ft.size = bytes → ∀ (target : Message),
      ∃ back, decodeField block ft target = .ok back
  | .mk fd offset size encoding composite, msg, block, bytes, sound, typed, written, region,
      target => by
      rw [fieldBytes] at written
      rw [decodeField]
      split at written
      · rename_i leaf
        rw [if_pos leaf]
        exact decodeLeaf_written sound typed written region target
      · rename_i inner
        rw [if_neg inner]
        cases fd with
        | scalar info kind =>
          obtain ⟨rfl, -⟩ := sound
          contradiction
        | message info type =>
          obtain ⟨sub, read⟩ := decodeFields_written [] [] sound.2.1 sound.2.2.2.2.2 typed written
            (target.getMessage (.message info type))
          rw [List.nil_append, List.append_nil] at read
          rw [show subspan block offset size = bytes from region, read]
          exact ⟨_, rfl⟩

end

mutual

theorem restores_of_stored : ∀ {fields : List FieldTemplate} {stop : Nat} {msg back : Message}
    {bytes : Bytes} (front rest : Bytes), Tiled front.length fields stop → AllSound fields →
    Typed fields msg → blockBytes fields msg = .ok bytes →
    Stored fields (front ++ bytes ++ rest) back → Restores fields msg back
  | [], _, _, _, _, _, _, _, _, _, _, _ => trivial
  | ft :: others, stop, msg, back, bytes, front, rest, tiled, sound, typed, written, stored => by
    obtain ⟨first, more, rfl, writtenFirst, writtenRest, region, following⟩ :=
      blockBytes_first tiled sound.1 written
    have storedRest : Stored others (front ++ first ++ more ++ rest) back := by
      rw [List.append_assoc front first more]
      exact stored.2
    exact ⟨restoresAt_of_stored sound.1 typed.1 writtenFirst (region rest) stored.1,
      restores_of_stored (front ++ first) rest following sound.2 typed.2 writtenRest storedRest⟩

theorem restoresAt_of_stored : ∀ {ft : FieldTemplate} {msg back : Message} {block bytes : Bytes},
    ft.Sound → TypedAt ft msg → fieldBytes ft msg = .ok bytes →
    subspan block ft.offset ft.size = bytes → StoredAt ft block back → RestoresAt ft msg back
  | .mk (.scalar info kind) offset size encoding composite, msg, back, block, bytes, sound, typed,
      written, region, stored => by
      obtain ⟨rfl, primitive, rfl, taken⟩ := sound
      obtain ⟨value, read, held⟩ := stored
      rw [show subspan block offset size = bytes from region] at read
      obtain ⟨expected, restored, same⟩ := scalar_restored rfl rfl taken typed written
      rw [read] at restored
      cases restored
      rw [drops_kept typed same] at held
      exact ⟨value, held, same⟩
  | .mk (.message info type) offset size encoding composite, msg, back, block, bytes, sound, typed,
      written, region, stored => by
      obtain ⟨rfl, tiled, -, -, -, inner⟩ := sound
      rw [fieldBytes] at written
      split at written
      · cases written
      · rename_i nonempty
        obtain ⟨sub, held, storedInner⟩ := stored (by simpa using nonempty)
        rw [show subspan block offset size = bytes from region] at storedInner
        refine ⟨sub, held, restores_of_stored [] [] tiled inner typed written ?_⟩
        simpa using storedInner

end

theorem loadU16_written (front rest : Bytes) {n : Nat} (small : n ≤ maxUint16) :
    loadU16 (front ++ toLittle 2 n ++ rest) front.length = n := by
  rw [loadU16, subspan_middle rfl (length_toLittle 2 n), ofLittle_toLittle]
  exact Nat.mod_eq_of_lt (by rw [maxUint16] at small; omega)

def groupBytes (gt : GroupTemplate) (count : Nat) (entries : Bytes) : Bytes :=
  toLittle 2 gt.blockLength ++ toLittle 2 count ++ entries

theorem groupsBytes_cons {rest : List GroupTemplate}
    (written : groupsBytes msg (gt :: rest) = .ok bytes) :
    ∃ entries others, (msg.entries gt.fd.number).length ≤ maxUint16 ∧
      entriesBytes gt.fields (msg.entries gt.fd.number) = .ok entries ∧
      groupsBytes msg rest = .ok others ∧
      bytes = groupBytes gt (msg.entries gt.fd.number).length entries ++ others := by
  rw [groupsBytes] at written
  obtain ⟨few, written⟩ := except_guard_ok_iff.mp written
  obtain ⟨entries, writtenEntries, written⟩ := except_bind_ok written
  obtain ⟨others, writtenRest, written⟩ := except_bind_ok written
  cases written
  exact ⟨entries, others, by omega, writtenEntries, writtenRest, rfl⟩

theorem load_groupBytes (sound : gt.Sound) {count : Nat} (few : count ≤ maxUint16)
    (front entries rest : Bytes) :
    loadU16 (front ++ (groupBytes gt count entries ++ rest)) front.length = gt.blockLength ∧
      loadU16 (front ++ (groupBytes gt count entries ++ rest)) (front.length + 2) = count := by
  constructor
  · have := loadU16_written front (toLittle 2 count ++ entries ++ rest) sound.small
    simpa [groupBytes] using this
  · have := loadU16_written (front ++ toLittle 2 gt.blockLength) (entries ++ rest) few
    simpa [groupBytes] using this

theorem length_groupBytes (gt : GroupTemplate) (count : Nat) (entries : Bytes) :
    (groupBytes gt count entries).length = 4 + entries.length := by
  simp [groupBytes]
  omega

theorem entries_groupBytes (gt : GroupTemplate) (count : Nat) (front entries rest : Bytes) :
    front ++ toLittle 2 gt.blockLength ++ toLittle 2 count ++ entries ++ rest =
      front ++ (groupBytes gt count entries ++ rest) := by
  simp [groupBytes]

theorem length_groupHeader (gt : GroupTemplate) (count : Nat) (front : Bytes) :
    (front ++ toLittle 2 gt.blockLength ++ toLittle 2 count).length = front.length + 4 := by
  simp

def Readable (maxRepeated : Nat) (msg : Message) (gt : GroupTemplate) : Prop :=
  (fieldWeightless gt.fd = true → msg.entries gt.fd.number = []) ∧
    (msg.entries gt.fd.number).length ≤ maxRepeated

theorem headerFits_written (sound : gt.Sound) {front entries rest : Bytes}
    (few : (msg.entries gt.fd.number).length ≤ maxUint16)
    (written : entriesBytes gt.fields (msg.entries gt.fd.number) = .ok entries) (maxRepeated : Nat) :
    HeaderFits (front ++ (groupBytes gt (msg.entries gt.fd.number).length entries ++ rest))
        maxRepeated front.length gt ↔ Readable maxRepeated msg gt := by
  obtain ⟨block, count⟩ := load_groupBytes sound few front entries rest
  have length := entriesBytes_length sound written
  have total : (front ++ (groupBytes gt (msg.entries gt.fd.number).length entries ++ rest)).length =
      front.length + 4 + gt.blockLength * (msg.entries gt.fd.number).length + rest.length := by
    rw [List.length_append, List.length_append, length_groupBytes, length]
    omega
  rw [HeaderFits, Readable, block, count, total, ← sound.weight, List.length_eq_zero_iff]
  constructor
  · rintro ⟨-, -, empty, -, within⟩
    exact ⟨empty, within⟩
  · rintro ⟨empty, within⟩
    refine ⟨by omega, le_rfl, empty, fun positive => ?_, within⟩
    rw [Nat.le_div_iff_mul_le positive, Nat.mul_comm]
    omega

theorem validateGroups_written (sound : ∀ gt ∈ groups, gt.Sound)
    (written : groupsBytes msg groups = .ok bytes) (maxRepeated : Nat) (front : Bytes) :
    validateGroups (front ++ bytes) maxRepeated front.length groups = .ok () ↔
      ∀ gt ∈ groups, Readable maxRepeated msg gt := by
  induction groups generalizing front bytes with
  | nil => simp [validateGroups]
  | cons gt rest ih =>
    obtain ⟨entries, others, few, writtenEntries, writtenRest, rfl⟩ := groupsBytes_cons written
    have good := sound gt (by simp)
    have length := entriesBytes_length good writtenEntries
    have following := ih (fun gt member => sound gt (by simp [member])) writtenRest
      (front ++ groupBytes gt (msg.entries gt.fd.number).length entries)
    rw [List.append_assoc, List.length_append, length_groupBytes, length] at following
    obtain ⟨block, count⟩ := load_groupBytes good few front entries others
    rw [validateGroups_cons, headerFits_written good few writtenEntries, block, count,
      List.forall_mem_cons, ← following, Nat.add_assoc front.length 4]

theorem decodeEntries_written (sound : gt.Sound) {entries : List Message}
    (typed : ∀ entry ∈ entries, Typed gt.fields entry)
    (written : entriesBytes gt.fields entries = .ok bytes) (front rest : Bytes) (target : Message) :
    ∃ back, decodeEntries (front ++ bytes ++ rest) gt gt.blockLength entries.length front.length
      target = .ok back := by
  induction entries generalizing front bytes target with
  | nil => exact ⟨target, rfl⟩
  | cons entry others ih =>
    obtain ⟨first, writtenFirst, written⟩ := except_bind_ok written
    obtain ⟨more, writtenRest, written⟩ := except_bind_ok written
    cases written
    have length := blockBytes_length sound.block.tiled sound.block.sound writtenFirst
    obtain ⟨decoded, read⟩ := decodeFields_written [] [] sound.block.tiled sound.block.sound
      (typed entry (by simp)) writtenFirst .fresh
    rw [List.nil_append, List.append_nil] at read
    obtain ⟨back, following⟩ := ih (fun entry member => typed entry (by simp [member]))
      writtenRest (front ++ first) (target.addMessage gt.fd decoded)
    refine ⟨back, ?_⟩
    have region : subspan (front ++ (first ++ more) ++ rest) front.length gt.blockLength =
        first := by
      rw [← List.append_assoc, List.append_assoc]
      exact subspan_middle rfl (by omega)
    rw [List.length_cons, decodeEntries, region, read]
    rw [List.length_append, List.append_assoc front first more,
      show first.length = gt.blockLength by omega] at following
    exact following

theorem decodeGroups_written (sound : ∀ gt ∈ groups, gt.Sound)
    (typed : ∀ gt ∈ groups, ∀ entry ∈ msg.entries gt.fd.number, Typed gt.fields entry)
    (written : groupsBytes msg groups = .ok bytes) (front : Bytes) (target : Message) :
    ∃ back, decodeGroups (front ++ bytes) front.length groups target = .ok back := by
  induction groups generalizing front bytes target with
  | nil => exact ⟨target, rfl⟩
  | cons gt rest ih =>
    obtain ⟨entries, others, few, writtenEntries, writtenRest, rfl⟩ := groupsBytes_cons written
    have good := sound gt (by simp)
    have length := entriesBytes_length good writtenEntries
    obtain ⟨block, count⟩ := load_groupBytes good few front entries others
    obtain ⟨middle, read⟩ := decodeEntries_written good (typed gt (by simp)) writtenEntries
      (front ++ toLittle 2 gt.blockLength ++ toLittle 2 (msg.entries gt.fd.number).length)
      others target
    obtain ⟨back, following⟩ := ih (fun gt member => sound gt (by simp [member]))
      (fun gt member => typed gt (by simp [member])) writtenRest
      (front ++ groupBytes gt (msg.entries gt.fd.number).length entries) middle
    refine ⟨back, ?_⟩
    rw [entries_groupBytes, length_groupHeader] at read
    rw [List.append_assoc, List.length_append, length_groupBytes, length,
      ← Nat.add_assoc] at following
    rw [decodeGroups, block, count, read]
    exact following

theorem entries_restored (sound : gt.Sound) (plain : NoOneof gt.fields)
    {entries decoded : List Message} (typed : ∀ entry ∈ entries, Typed gt.fields entry)
    (written : entriesBytes gt.fields entries = .ok bytes) (front rest : Bytes)
    (read : EntriesRead (front ++ bytes ++ rest) gt gt.blockLength front.length decoded)
    (same : decoded.length = entries.length) :
    List.Forall₂ (Restores gt.fields) entries decoded := by
  induction entries generalizing front bytes decoded with
  | nil =>
    rw [List.length_eq_zero_iff.mp same]
    exact .nil
  | cons entry others ih =>
    obtain ⟨found, more, rfl⟩ := List.exists_cons_of_length_eq_add_one same
    obtain ⟨first, writtenFirst, written⟩ := except_bind_ok written
    obtain ⟨following, writtenRest, written⟩ := except_bind_ok written
    cases written
    have length := blockBytes_length sound.block.tiled sound.block.sound writtenFirst
    have region : subspan (front ++ (first ++ following) ++ rest) front.length gt.blockLength =
        first := by
      rw [← List.append_assoc, List.append_assoc]
      exact subspan_middle rfl (by omega)
    obtain ⟨decodedFirst, readRest⟩ := read
    rw [region] at decodedFirst
    obtain ⟨left, -⟩ := decodeFields_left sound.block.sound sound.block.distinct.1
      (fun _ _ => ⟨rfl, rfl⟩) decodedFirst
    have stored := stored_of_left plain left
    have restored := restores_of_stored [] [] sound.block.tiled sound.block.sound
      (typed entry (by simp)) writtenFirst (by simpa using stored)
    refine .cons restored (ih (fun entry member => typed entry (by simp [member])) writtenRest
      (front ++ first) ?_ (by simpa using same))
    rw [List.append_assoc front first following, List.length_append,
      show first.length = gt.blockLength by omega]
    exact readRest

theorem groups_restored (sound : ∀ gt ∈ groups, gt.Sound) (plain : ∀ gt ∈ groups, NoOneof gt.fields)
    {back : Message}
    (typed : ∀ gt ∈ groups, ∀ entry ∈ msg.entries gt.fd.number, Typed gt.fields entry)
    (written : groupsBytes msg groups = .ok bytes) (front : Bytes)
    (read : GroupsRead (front ++ bytes) front.length groups back) :
    ∀ gt ∈ groups, List.Forall₂ (Restores gt.fields) (msg.entries gt.fd.number)
      (back.entries gt.fd.number) := by
  induction groups generalizing front bytes with
  | nil => simp
  | cons gt rest ih =>
    obtain ⟨entries, others, few, writtenEntries, writtenRest, rfl⟩ := groupsBytes_cons written
    have good := sound gt (by simp)
    have length := entriesBytes_length good writtenEntries
    obtain ⟨block, count⟩ := load_groupBytes good few front entries others
    obtain ⟨readFirst, same, readRest⟩ := read
    rw [block] at readFirst readRest
    rw [count] at same readRest
    refine List.forall_mem_cons.mpr ⟨?_, ?_⟩
    · rw [← entries_groupBytes, ← length_groupHeader] at readFirst
      exact entries_restored good (plain gt (by simp)) (typed gt (by simp)) writtenEntries _ _
        readFirst same
    · refine ih (fun gt member => sound gt (by simp [member]))
        (fun gt member => plain gt (by simp [member]))
        (fun gt member => typed gt (by simp [member])) writtenRest
        (front ++ groupBytes gt (msg.entries gt.fd.number).length entries) ?_
      rw [List.append_assoc, List.length_append, length_groupBytes, length, ← Nat.add_assoc]
      exact readRest

theorem MessageTemplate.load_header (sound : tmpl.Sound) (rest : Bytes) :
    loadU16 (tmpl.header ++ rest) 0 = tmpl.blockLength ∧
      loadU16 (tmpl.header ++ rest) 2 = tmpl.templateId ∧
      loadU16 (tmpl.header ++ rest) 4 = tmpl.schemaId := by
  obtain ⟨block, template, schema, -⟩ := sound.small
  refine ⟨?_, ?_, ?_⟩
  · have := loadU16_written [] (toLittle 2 tmpl.templateId ++ toLittle 2 tmpl.schemaId ++
      toLittle 2 tmpl.version ++ rest) block
    simpa [header] using this
  · have := loadU16_written (toLittle 2 tmpl.blockLength) (toLittle 2 tmpl.schemaId ++
      toLittle 2 tmpl.version ++ rest) template
    simpa [header] using this
  · have := loadU16_written (toLittle 2 tmpl.blockLength ++ toLittle 2 tmpl.templateId)
      (toLittle 2 tmpl.version ++ rest) schema
    simpa [header] using this

theorem MessageTemplate.heads_written (sound : tmpl.Sound) {block : Bytes}
    (length : block.length = tmpl.blockLength) (groups : Bytes) :
    tmpl.Heads (tmpl.header ++ block ++ groups) := by
  obtain ⟨load, template, schema⟩ := tmpl.load_header sound (block ++ groups)
  rw [← List.append_assoc] at load template schema
  refine ⟨?_, template, schema, load.ge, ?_⟩
  · simp [tmpl.length_header]
  · rw [load]
    simp [tmpl.length_header, length]

theorem MessageTemplate.unmarshalInto_marshal (sound : tmpl.Sound) (typed : tmpl.Typed msg)
    (written : tmpl.marshal msg = .ok bytes) (maxRepeated : Nat) (target : Message) :
    tmpl.Heads bytes ∧
      (validateGroups bytes maxRepeated (8 + loadU16 bytes 0) tmpl.groups = .ok () ↔
        ∀ gt ∈ tmpl.groups, Readable maxRepeated msg gt) ∧
      ((∃ back, tmpl.unmarshalInto maxRepeated bytes target = .ok back) ↔
        ∀ gt ∈ tmpl.groups, Readable maxRepeated msg gt) := by
  obtain ⟨block, groups, writtenBlock, writtenGroups, length, rfl⟩ := marshal_ok sound written
  have heads := heads_written sound length groups
  obtain ⟨load, -, -⟩ := tmpl.load_header sound (block ++ groups)
  rw [← List.append_assoc] at load
  have start : 8 + loadU16 (tmpl.header ++ block ++ groups) 0 = (tmpl.header ++ block).length := by
    rw [load, List.length_append, tmpl.length_header, length]
  have valid := validateGroups_written sound.groups writtenGroups maxRepeated (tmpl.header ++ block)
  rw [← start] at valid
  refine ⟨heads, valid, ?_⟩
  constructor
  · rintro ⟨back, read⟩
    exact valid.mp (unmarshalInto_ok.mp read).2.1
  · intro readable
    have region : subspan (tmpl.header ++ block ++ groups) 8
        (loadU16 (tmpl.header ++ block ++ groups) 0) = block := by
      rw [load]
      exact subspan_middle tmpl.length_header length
    obtain ⟨root, readBlock⟩ := decodeFields_written [] [] sound.block.tiled sound.block.sound
      typed.1 writtenBlock target
    rw [List.nil_append, List.append_nil, ← region] at readBlock
    obtain ⟨back, readGroups⟩ := decodeGroups_written sound.groups typed.2 writtenGroups
      (tmpl.header ++ block) root
    rw [← start] at readGroups
    exact ⟨back, unmarshalInto_ok.mpr ⟨heads, valid.mpr readable, root, readBlock, readGroups⟩⟩

theorem MessageTemplate.restores_marshal (sound : tmpl.Sound)
    (plain : ∀ gt ∈ tmpl.groups, NoOneof gt.fields) {back : Message} (typed : tmpl.Typed msg)
    (written : tmpl.marshal msg = .ok bytes) {maxRepeated : Nat}
    (read : tmpl.unmarshalInto maxRepeated bytes .fresh = .ok back) : tmpl.Restores msg back := by
  obtain ⟨block, groups, writtenBlock, writtenGroups, length, rfl⟩ := marshal_ok sound written
  obtain ⟨load, -, -⟩ := tmpl.load_header sound (block ++ groups)
  rw [← List.append_assoc] at load
  obtain ⟨stored, readGroups⟩ := unmarshalInto_stored sound read
  rw [load, subspan_middle tmpl.length_header length] at stored
  rw [load, ← tmpl.length_header, ← length, ← List.length_append] at readGroups
  exact ⟨restores_of_stored [] [] sound.block.tiled sound.block.sound typed.1 writtenBlock
      (by simpa using stored),
    groups_restored sound.groups plain typed.2 writtenGroups _ readGroups⟩

theorem groupsBytes_few (written : groupsBytes msg groups = .ok bytes) :
    ∀ gt ∈ groups, (msg.entries gt.fd.number).length ≤ maxUint16 := by
  induction groups generalizing bytes with
  | nil => simp
  | cons gt rest ih =>
    obtain ⟨_, _, few, -, writtenRest, -⟩ := groupsBytes_cons written
    exact List.forall_mem_cons.mpr ⟨few, ih writtenRest⟩

theorem Codec.marshal_ok {c : Codec} {fullName : Bytes}
    (registered : c.templateByName fullName = some tmpl)
    (written : c.marshal fullName msg = .ok bytes) : tmpl.marshal msg = .ok bytes := by
  rw [Codec.marshal, registered] at written
  exact written

/-- Unmarshalling what was marshalled restores every field, exactly when no group of a weightless
entry type has entries and none has more than the codec's limit. -/
theorem Codec.unmarshal_restores {files : List FileDescriptor} {opts : CodecOptions} {c : Codec}
    (accepted : Codec.new files opts = .ok c) {fullName : Bytes} {tmpl : MessageTemplate}
    (registered : c.templateByName fullName = some tmpl)
    (plain : ∀ gt ∈ tmpl.groups, NoOneof gt.fields) {msg : Message} (typed : tmpl.Typed msg)
    {bytes : Bytes} (written : c.marshal fullName msg = .ok bytes)
    (small : bytes.length ≤ c.maxMessageSize) :
    (∃ back, c.unmarshal fullName bytes .fresh = .ok back ∧ tmpl.Restores msg back) ↔
      ∀ gt ∈ tmpl.groups, Readable c.maxRepeated msg gt := by
  obtain ⟨sound, -⟩ := Codec.new_sound accepted fullName tmpl registered
  have marshalled := Codec.marshal_ok registered written
  obtain ⟨-, -, readable⟩ :=
    tmpl.unmarshalInto_marshal sound typed marshalled c.maxRepeated .fresh
  rw [← readable]
  constructor
  · rintro ⟨back, read, -⟩
    obtain ⟨-, other, found, read⟩ := Codec.unmarshal_ok.mp read
    cases registered.symm.trans found
    exact ⟨back, read⟩
  · rintro ⟨back, read⟩
    exact ⟨back, Codec.unmarshal_ok.mpr ⟨small, tmpl, registered, read⟩,
      tmpl.restores_marshal sound plain typed marshalled read⟩

/-- Under the default limits the reader and the view take what the writer puts out, exactly when
no group of a weightless entry type has entries. -/
theorem Codec.reads_written {files : List FileDescriptor} {c : Codec}
    (accepted : Codec.new files = .ok c) {fullName : Bytes} {tmpl : MessageTemplate}
    (registered : c.templateByName fullName = some tmpl) {msg : Message} (typed : tmpl.Typed msg)
    {bytes : Bytes} (written : c.marshal fullName msg = .ok bytes)
    (small : bytes.length ≤ c.maxMessageSize) :
    ((∀ target, ∃ back, c.unmarshal fullName bytes target = .ok back) ∧
        ∃ view, c.newView bytes = .ok view) ↔
      ∀ gt ∈ tmpl.groups, fieldWeightless gt.fd = true → msg.entries gt.fd.number = [] := by
  have codec := Codec.new_sound accepted
  obtain ⟨sound, -⟩ := codec fullName tmpl registered
  have marshalled := Codec.marshal_ok registered written
  obtain ⟨_, _, _, writtenGroups, -, -⟩ := MessageTemplate.marshal_ok sound marshalled
  have limit : c.maxRepeated = Limit.maxRepeatedCount := (Codec.new_limits accepted).2
  have counts : ∀ gt ∈ tmpl.groups, (msg.entries gt.fd.number).length ≤ c.maxRepeated := by
    intro gt member
    have few := groupsBytes_few writtenGroups gt member
    rw [limit, Limit.maxRepeatedCount, Limit.maxMessageSize]
    rw [maxUint16] at few
    omega
  constructor
  · rintro ⟨reads, -⟩ gt member
    obtain ⟨back, read⟩ := reads .fresh
    obtain ⟨-, other, found, read⟩ := Codec.unmarshal_ok.mp read
    cases registered.symm.trans found
    obtain ⟨-, -, readable⟩ :=
      tmpl.unmarshalInto_marshal sound typed marshalled c.maxRepeated .fresh
    exact (readable.mp ⟨back, read⟩ gt member).1
  · intro empty
    have readable : ∀ gt ∈ tmpl.groups, Readable c.maxRepeated msg gt := fun gt member =>
      ⟨empty gt member, counts gt member⟩
    refine ⟨fun target => ?_, ?_⟩
    · obtain ⟨-, -, reads⟩ :=
        tmpl.unmarshalInto_marshal sound typed marshalled c.maxRepeated target
      obtain ⟨back, read⟩ := reads.mpr readable
      exact ⟨back, Codec.unmarshal_ok.mpr ⟨small, tmpl, registered, read⟩⟩
    · obtain ⟨heads, valid, -⟩ :=
        tmpl.unmarshalInto_marshal sound typed marshalled c.maxRepeated .fresh
      exact ⟨_, Codec.newView_of_heads codec registered small heads (valid.mpr readable)⟩

def legType : Descriptor :=
  .mk (text "Leg") none false
    [.scalar { name := text "buy", fullName := text "Leg.buy", number := 1 } .bool] []

def tradeId : FieldDescriptor :=
  .scalar { name := text "id", fullName := text "Trade.id", number := 1 } .uint32

def tradeSymbol : FieldDescriptor :=
  .scalar { name := text "symbol", fullName := text "Trade.symbol", number := 2, length := some 4 }
    .string

def tradeLegs : FieldDescriptor :=
  .message { name := text "legs", fullName := text "Trade.legs", number := 3, repeated := true }
    legType

def tradeFile : FileDescriptor where
  name := text "trade.proto"
  schemaId := some 9
  messageTypes := [legType, .mk (text "Trade") (some 5) false [tradeSymbol, tradeId, tradeLegs] []]
  wellFormed := by decide

def tradeTemplate : MessageTemplate where
  templateId := 5
  schemaId := 9
  version := 0
  blockLength := 8
  fields := [.mk tradeId 0 4 (some .uint32) [], .mk tradeSymbol 4 4 (some .char) []]
  groups := [{ fd := tradeLegs, blockLength := 1, fields := [.mk
    (.scalar { name := text "buy", fullName := text "Leg.buy", number := 1 } .bool) 0 1
    (some .uint8) []] }]

def tradeCodec : Codec where
  byName := [(text "Trade", tradeTemplate)]
  byId := [((9, 5), (text "Trade", tradeTemplate))]
  maxMessageSize := Limit.maxMessageSize
  maxRepeated := Limit.maxRepeatedCount

def trade : Message :=
  .mk
    (fun n =>
      if n = 1 then some (.int 7) else if n = 2 then some (.bytes (text "EURUSD")) else none)
    (fun _ => none)
    (fun n => if n = 3 then [.mk (fun _ => some (.bool true)) (fun _ => none) fun _ => []] else [])

def tradeBytes : Bytes :=
  [8, 0, 5, 0, 9, 0, 0, 0, 7, 0, 0, 0, 0x45, 0x55, 0x52, 0x55, 1, 0, 1, 0, 1]

theorem trade_accepted : Codec.new [tradeFile] = .ok tradeCodec := rfl

theorem trade_registered : tradeCodec.templateByName (text "Trade") = some tradeTemplate := rfl

theorem trade_written : tradeCodec.marshal (text "Trade") trade = .ok tradeBytes := rfl

theorem trade_typed : tradeTemplate.Typed trade := by
  refine ⟨⟨⟨by decide, by decide⟩, fun _ => by decide, trivial⟩, ?_⟩
  intro gt member entry held
  cases List.mem_singleton.mp member
  cases List.mem_singleton.mp held
  exact ⟨trivial, trivial⟩

theorem trade_plain : ∀ gt ∈ tradeTemplate.groups, NoOneof gt.fields := by
  intro gt member ft field
  cases List.mem_singleton.mp member
  cases List.mem_singleton.mp field
  rfl

def markType : Descriptor :=
  .mk (text "Mark") none false
    [.scalar { name := text "note", fullName := text "Mark.note", number := 1, length := some 0 }
      .string] []

def batchMarks : FieldDescriptor :=
  .message { name := text "marks", fullName := text "Batch.marks", number := 1, repeated := true }
    markType

def batchFile : FileDescriptor where
  name := text "batch.proto"
  schemaId := some 1
  messageTypes := [markType, .mk (text "Batch") (some 7) false [batchMarks] []]
  wellFormed := by decide

def batchTemplate : MessageTemplate where
  templateId := 7
  schemaId := 1
  version := 0
  blockLength := 0
  fields := []
  groups := [{ fd := batchMarks, blockLength := 0, fields := [.mk
    (.scalar { name := text "note", fullName := text "Mark.note", number := 1, length := some 0 }
      .string) 0 0 (some .char) []] }]

def batchCodec : Codec where
  byName := [(text "Batch", batchTemplate)]
  byId := [((1, 7), (text "Batch", batchTemplate))]
  maxMessageSize := Limit.maxMessageSize
  maxRepeated := Limit.maxRepeatedCount

def batch : Message :=
  .mk (fun _ => none) (fun _ => none) fun n => if n = 1 then [.fresh] else []

theorem batch_typed : batchTemplate.Typed batch := by
  refine ⟨trivial, ?_⟩
  intro gt member entry held
  cases List.mem_singleton.mp member
  cases List.mem_singleton.mp held
  exact ⟨fun _ => rfl, trivial⟩

theorem batch_plain : ∀ gt ∈ batchTemplate.groups, NoOneof gt.fields := by
  intro gt member ft field
  cases List.mem_singleton.mp member
  cases List.mem_singleton.mp field
  rfl

theorem Codec.unmarshal_restores_trade :
    ∃ back, tradeCodec.unmarshal (text "Trade") tradeBytes .fresh = .ok back ∧
      tradeTemplate.Restores trade back := by
  refine (Codec.unmarshal_restores trade_accepted trade_registered trade_plain trade_typed
    trade_written (by decide)).mpr ?_
  intro gt member
  cases List.mem_singleton.mp member
  exact ⟨by decide, by decide⟩

theorem Codec.reads_written_trade :
    (∀ target, ∃ back, tradeCodec.unmarshal (text "Trade") tradeBytes target = .ok back) ∧
      ∃ view, tradeCodec.newView tradeBytes = .ok view := by
  refine (Codec.reads_written trade_accepted trade_registered trade_typed trade_written
    (by decide)).mpr ?_
  intro gt member weightless
  cases List.mem_singleton.mp member
  cases weightless

theorem Codec.unmarshal_refuses_batch :
    Codec.new [batchFile] = .ok batchCodec ∧
      batchCodec.templateByName (text "Batch") = some batchTemplate ∧
      (∀ gt ∈ batchTemplate.groups, NoOneof gt.fields) ∧ batchTemplate.Typed batch ∧
      batchCodec.marshal (text "Batch") batch = .ok [0, 0, 7, 0, 1, 0, 0, 0, 0, 0, 1, 0] ∧
      batchCodec.unmarshal (text "Batch") [0, 0, 7, 0, 1, 0, 0, 0, 0, 0, 1, 0] .fresh =
        .error (.stated (text "sbe: group marks declares 1 entries of 0 bytes")) :=
  ⟨rfl, rfl, batch_plain, batch_typed, rfl, rfl⟩

theorem Codec.newView_refuses_batch :
    Codec.new [batchFile] = .ok batchCodec ∧
      batchCodec.templateByName (text "Batch") = some batchTemplate ∧
      batchTemplate.Typed batch ∧
      batchCodec.marshal (text "Batch") batch = .ok [0, 0, 7, 0, 1, 0, 0, 0, 0, 0, 1, 0] ∧
      (batchCodec.unmarshal (text "Batch") [0, 0, 7, 0, 1, 0, 0, 0, 0, 0, 1, 0] .fresh =
        .error (.stated (text "sbe: group marks declares 1 entries of 0 bytes"))) ∧
      batchCodec.newView [0, 0, 7, 0, 1, 0, 0, 0, 0, 0, 1, 0] =
        .error (.stated (text "sbe: group marks declares 1 entries of 0 bytes")) :=
  ⟨rfl, rfl, batch_typed, rfl, rfl, rfl⟩

end Protowire.Sbe
