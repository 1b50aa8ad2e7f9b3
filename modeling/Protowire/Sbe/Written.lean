import Protowire.Sbe.Template

/-!
What `Marshal` writes, as bytes one after another. The writer patches fields into a block of
zeros; since the fields of a template lie end to end, the block is what the fields write, in
order.
-/

namespace Protowire.Sbe

open Support

variable {buf bytes : Bytes} {offset : Nat} {msg : Message}

theorem writeAt_inside (inside : offset + bytes.length ≤ buf.length) :
    writeAt buf offset bytes = buf.take offset ++ bytes ++ buf.drop (offset + bytes.length) := by
  rw [writeAt, Nat.sub_eq_zero_of_le inside]
  simp

theorem length_writeAt (inside : offset + bytes.length ≤ buf.length) :
    (writeAt buf offset bytes).length = buf.length := by
  rw [writeAt_inside inside]
  simp
  omega

theorem writeAt_nil (inside : offset ≤ buf.length) : writeAt buf offset [] = buf := by
  rw [writeAt_inside (by simpa using inside)]
  simp

theorem writeAt_writeAt {a b : Bytes} (inside : offset + a.length + b.length ≤ buf.length) :
    writeAt (writeAt buf offset a) (offset + a.length) b = writeAt buf offset (a ++ b) := by
  have first : offset + a.length ≤ buf.length := by omega
  have length := length_writeAt first
  rw [writeAt_inside (by omega), writeAt_inside first, writeAt_inside (by simp; omega)]
  have front : (buf.take offset ++ a).length = offset + a.length := by simp; omega
  rw [List.take_append_of_le_length (by omega), List.take_of_length_le (by omega),
    ← front, List.drop_append, List.drop_drop, front]
  simp [Nat.add_assoc]
  omega

theorem writeAt_end (buf : Bytes) {n : Nat} (full : bytes.length = n) :
    writeAt (buf ++ List.replicate n 0) buf.length bytes = buf ++ bytes := by
  rw [writeAt_inside (by simp [full])]
  simp [full]

mutual

def blockBytes : List FieldTemplate → Message → Except Problem Bytes
  | [], _ => .ok []
  | ft :: rest, msg => do
    let bytes ← fieldBytes ft msg
    let others ← blockBytes rest msg
    return bytes ++ others

def fieldBytes : FieldTemplate → Message → Except Problem Bytes
  | .mk fd offset size encoding composite, msg =>
    if composite.isEmpty then leafBytes (.mk fd offset size encoding composite) msg
    else blockBytes composite (msg.getMessage fd)

end

theorem characterStart_le (s : Bytes) (n : Nat) : characterStart s n ≤ n := by
  induction n with
  | zero => exact Nat.le_refl _
  | succ n ih =>
    rw [characterStart]
    split <;> omega

theorem cutLength_le (s : Bytes) (size : Nat) (isString : Bool) :
    cutLength s size isString ≤ size ∧ cutLength s size isString ≤ s.length := by
  have := characterStart_le s size
  rw [cutLength]
  split
  · omega
  · split <;> omega

theorem length_fixedString (fd : FieldDescriptor) (kind : Kind) (size : Nat) (msg : Message) :
    (fixedString fd kind size msg).length = size := by
  have := cutLength_le (msg.getString fd) size (kind = .string)
  simp [fixedString]
  omega

theorem length_scalarBytes {fd : FieldDescriptor} {kind : Kind} {size : Nat} {encoding : Primitive}
    (number : encoding ≠ .char) (sized : size = encoding.width)
    (written : scalarBytes fd kind size encoding msg = .ok bytes) : bytes.length = size := by
  subst sized
  cases encoding <;> simp only [scalarBytes] at written <;> try contradiction
  case double =>
    cases written
    exact length_toLittle _ _
  all_goals
    split at written <;> cases written
    exact length_toLittle _ _

theorem leafBytes_length {ft : FieldTemplate} (sound : ft.Sound)
    (written : leafBytes ft msg = .ok bytes) : bytes.length = ft.size := by
  obtain ⟨fd, offset, size, encoding, composite⟩ := ft
  cases fd with
  | message info type => cases written
  | scalar info kind =>
    obtain ⟨rfl, primitive, rfl, taken⟩ := sound
    by_cases char : primitive = .char
    · subst char
      cases written
      exact length_fixedString _ _ _ _
    · have type : kind.cppType ≠ .string := by
        intro string
        simp [Kind.takes, string, char] at taken
      have number : scalarBytes (.scalar info kind) kind size primitive msg = .ok bytes := by
        cases primitive <;> first | exact written | contradiction
      exact length_scalarBytes char (takes_number type taken).2.1 number

mutual

theorem blockBytes_length : ∀ {fields : List FieldTemplate} {offset stop : Nat},
    Tiled offset fields stop → AllSound fields → ∀ {msg : Message} {bytes : Bytes},
    blockBytes fields msg = .ok bytes → offset + bytes.length = stop
  | [], _, _, tiled, _, _, _, written => by
    cases written
    exact tiled
  | ft :: rest, offset, stop, tiled, sound, msg, bytes, written => by
    rw [blockBytes] at written
    obtain ⟨first, writtenFirst, written⟩ := except_bind_ok written
    obtain ⟨others, writtenRest, written⟩ := except_bind_ok written
    cases written
    have length := fieldBytes_length sound.1 writtenFirst
    have := blockBytes_length tiled.2 sound.2 writtenRest
    rw [List.length_append]
    omega

theorem fieldBytes_length : ∀ {ft : FieldTemplate}, ft.Sound → ∀ {msg : Message} {bytes : Bytes},
    fieldBytes ft msg = .ok bytes → bytes.length = ft.size
  | .mk fd offset size encoding composite, sound, msg, bytes, written => by
    rw [fieldBytes] at written
    split at written
    · exact leafBytes_length sound written
    · cases fd with
      | scalar info kind =>
        obtain ⟨rfl, -⟩ := sound
        contradiction
      | message info type =>
        have := blockBytes_length sound.2.1 sound.2.2.2.2.2 written
        exact (Nat.zero_add _).symm.trans this

end

mutual

theorem writeFields_eq : ∀ {fields : List FieldTemplate} {buf : Bytes} {base offset stop : Nat},
    Tiled offset fields stop → AllSound fields → base + stop ≤ buf.length → ∀ (msg : Message),
    writeFields buf base fields msg =
      (blockBytes fields msg).map (writeAt buf (base + offset))
  | [], buf, base, offset, stop, tiled, _, room, msg => by
    have within : base + offset ≤ buf.length := by
      rw [show offset = stop from tiled]
      exact room
    rw [writeFields, blockBytes, Except.map, writeAt_nil within]
  | ft :: rest, buf, base, offset, stop, tiled, sound, room, msg => by
    have placed : ft.offset = offset := tiled.1
    have ends := tiled.2.offset_le
    rw [writeFields, blockBytes, writeField_eq sound.1 (by omega) msg, placed]
    cases first : fieldBytes ft msg with
    | error problem => rfl
    | ok bytes =>
      have length := fieldBytes_length sound.1 first
      have inside : base + offset + bytes.length ≤ buf.length := by omega
      have kept := length_writeAt inside
      change writeFields (writeAt buf (base + offset) bytes) base rest msg = _
      rw [writeFields_eq tiled.2 sound.2 (by omega) msg]
      cases others : blockBytes rest msg with
      | error problem => rfl
      | ok more =>
        have total := blockBytes_length tiled.2 sound.2 others
        change Except.ok _ = Except.ok _
        rw [← writeAt_writeAt (by omega), length, Nat.add_assoc]

theorem writeField_eq : ∀ {ft : FieldTemplate} {buf : Bytes} {base : Nat}, ft.Sound →
    base + ft.offset + ft.size ≤ buf.length → ∀ (msg : Message),
    writeField buf base ft msg = (fieldBytes ft msg).map (writeAt buf (base + ft.offset))
  | .mk fd offset size encoding composite, buf, base, sound, room, msg => by
    rw [writeField, fieldBytes]
    split
    · cases leafBytes (.mk fd offset size encoding composite) msg <;> rfl
    · cases fd with
      | scalar info kind =>
        obtain ⟨rfl, -⟩ := sound
        contradiction
      | message info type =>
        exact writeFields_eq sound.2.1 sound.2.2.2.2.2 room _

end

theorem writeBlock_eq {fields : List FieldTemplate} {total : Nat} (block : Block fields total)
    (buf : Bytes) (msg : Message) :
    writeBlock buf total fields msg = (blockBytes fields msg).map (buf ++ ·) := by
  rw [writeBlock, writeFields_eq block.tiled block.sound (by simp) msg]
  cases written : blockBytes fields msg with
  | error problem => rfl
  | ok bytes =>
    have length := blockBytes_length block.tiled block.sound written
    change Except.ok _ = Except.ok _
    rw [Nat.add_zero, writeAt_end buf (by omega)]

def entriesBytes (fields : List FieldTemplate) : List Message → Except Problem Bytes
  | [] => .ok []
  | entry :: rest => do
    let bytes ← blockBytes fields entry
    let others ← entriesBytes fields rest
    return bytes ++ others

theorem writeEntries_eq {gt : GroupTemplate} (sound : gt.Sound) (buf : Bytes)
    (entries : List Message) :
    writeEntries gt buf entries = (entriesBytes gt.fields entries).map (buf ++ ·) := by
  induction entries generalizing buf with
  | nil => simp [writeEntries, entriesBytes, Except.map]
  | cons entry rest ih =>
    rw [writeEntries, entriesBytes, writeBlock_eq sound.block]
    cases blockBytes gt.fields entry with
    | error problem => rfl
    | ok bytes =>
      change writeEntries gt (buf ++ bytes) rest = _
      rw [ih]
      cases entriesBytes gt.fields rest with
      | error problem => rfl
      | ok others =>
        change Except.ok _ = Except.ok _
        simp [List.append_assoc]

theorem entriesBytes_length {gt : GroupTemplate} (sound : gt.Sound) {entries : List Message}
    (written : entriesBytes gt.fields entries = .ok bytes) :
    bytes.length = gt.blockLength * entries.length := by
  induction entries generalizing bytes with
  | nil =>
    cases written
    rfl
  | cons entry rest ih =>
    obtain ⟨first, writtenFirst, written⟩ := except_bind_ok written
    obtain ⟨others, writtenRest, written⟩ := except_bind_ok written
    cases written
    have := blockBytes_length sound.block.tiled sound.block.sound writtenFirst
    rw [List.length_append, ih writtenRest, List.length_cons, Nat.mul_succ]
    omega

def groupsBytes (msg : Message) : List GroupTemplate → Except Problem Bytes
  | [] => .ok []
  | gt :: rest => do
    let entries := msg.entries gt.fd.number
    if entries.length > maxUint16 then
      throw (.stated (text "sbe: field " ++ gt.fd.fullName ++ text " has " ++
        decimal entries.length ++ text " entries, past " ++ decimal maxUint16 ++
        text ", the largest numInGroup SBE can state"))
    let bytes ← entriesBytes gt.fields entries
    let others ← groupsBytes msg rest
    return toLittle 2 gt.blockLength ++ toLittle 2 entries.length ++ bytes ++ others

theorem writeGroups_eq {groups : List GroupTemplate} (sound : ∀ gt ∈ groups, gt.Sound)
    (buf : Bytes) (msg : Message) :
    writeGroups msg buf groups = (groupsBytes msg groups).map (buf ++ ·) := by
  induction groups generalizing buf with
  | nil => simp [writeGroups, groupsBytes, Except.map]
  | cons gt rest ih =>
    rw [writeGroups, groupsBytes]
    dsimp only
    split
    · rfl
    · rw [writeEntries_eq (sound gt (by simp))]
      cases entriesBytes gt.fields (msg.entries gt.fd.number) with
      | error problem => rfl
      | ok bytes =>
        change writeGroups msg (_ ++ bytes) rest = _
        rw [ih fun gt member => sound gt (by simp [member])]
        cases groupsBytes msg rest with
        | error problem => rfl
        | ok others =>
          change Except.ok _ = Except.ok _
          simp [List.append_assoc]

theorem MessageTemplate.length_header (tmpl : MessageTemplate) : tmpl.header.length = 8 := by
  simp [MessageTemplate.header]

theorem MessageTemplate.marshal_ok {tmpl : MessageTemplate} (sound : tmpl.Sound)
    (written : tmpl.marshal msg = .ok bytes) :
    ∃ block groups, blockBytes tmpl.fields msg = .ok block ∧
      groupsBytes msg tmpl.groups = .ok groups ∧ block.length = tmpl.blockLength ∧
      bytes = tmpl.header ++ block ++ groups := by
  rw [MessageTemplate.marshal, writeBlock_eq sound.block] at written
  obtain ⟨front, writtenBlock, written⟩ := except_bind_ok written
  cases block : blockBytes tmpl.fields msg with
  | error problem =>
    rw [block] at writtenBlock
    cases writtenBlock
  | ok blockBytes =>
    rw [block] at writtenBlock
    cases writtenBlock
    rw [writeGroups_eq sound.groups] at written
    cases groups : groupsBytes msg tmpl.groups with
    | error problem =>
      rw [groups] at written
      cases written
    | ok groupsBytes =>
      rw [groups] at written
      cases written
      have := blockBytes_length sound.block.tiled sound.block.sound block
      exact ⟨blockBytes, groupsBytes, rfl, rfl, by omega, rfl⟩

theorem MessageTemplate.marshal_bytes {tmpl : MessageTemplate} (sound : tmpl.Sound)
    {block groups : Bytes} (writtenBlock : blockBytes tmpl.fields msg = .ok block)
    (writtenGroups : groupsBytes msg tmpl.groups = .ok groups) :
    tmpl.marshal msg = .ok (tmpl.header ++ block ++ groups) := by
  rw [MessageTemplate.marshal, writeBlock_eq sound.block, writtenBlock]
  change writeGroups msg (tmpl.header ++ block) tmpl.groups = _
  rw [writeGroups_eq sound.groups, writtenGroups]
  rfl

end Protowire.Sbe
