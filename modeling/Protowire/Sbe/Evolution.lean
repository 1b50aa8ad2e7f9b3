import Protowire.Sbe.Layout
import Protowire.Sbe.RoundTrip

/-!
Two versions of a message. Fields added above those there were come after them in their block, and
groups added above after the groups, so the older reader finds its own fields where it left them.
-/

namespace Protowire.Sbe

open Support

variable {ft : FieldTemplate} {fields fields' : List FieldTemplate} {tmpl tmpl' : MessageTemplate}
  {msg : Message} {bytes' block bytes : Bytes} {offset : Nat}

def FieldDescriptor.inOneof (members : Option (List Nat)) : FieldDescriptor → FieldDescriptor
  | .scalar info kind => .scalar { info with oneof := members } kind
  | .message info type => .message { info with oneof := members } type

def Kept (old new : FieldDescriptor) : Prop := ∃ members, new = old.inOneof members

def Extends (same : FieldDescriptor → FieldDescriptor → Prop) (old new : List FieldDescriptor) :
    Prop :=
  ∃ kept added, new.Perm (kept ++ added) ∧ List.Forall₂ same old kept ∧
    ∀ fd ∈ added, ∀ before ∈ old, before.number < fd.number

def Grown : FieldDescriptor → FieldDescriptor → Prop
  | .message info type, .message info' type' => info' = info ∧ Extends Kept type.fields type'.fields
  | _, _ => False

structure Evolves (old new : Descriptor) : Prop where
  singular : Extends Kept (old.fields.filter fun fd => !fd.info.repeated)
    (new.fields.filter fun fd => !fd.info.repeated)
  groups : Extends Grown (old.fields.filter fun fd => fd.info.repeated)
    (new.fields.filter fun fd => fd.info.repeated)

theorem Kept.number {old new : FieldDescriptor} (kept : Kept old new) :
    new.number = old.number := by
  obtain ⟨members, rfl⟩ := kept
  cases old <;> rfl

theorem Grown.number {old new : FieldDescriptor} (grown : Grown old new) :
    new.number = old.number := by
  cases old <;> cases new <;> simp only [Grown] at grown
  rw [FieldDescriptor.number, FieldDescriptor.info, grown.1]
  rfl

structure Carried (ft ft' : FieldTemplate) : Prop where
  kept : Kept ft.fd ft'.fd
  size : ft'.size = ft.size
  encoding : ft'.encoding = ft.encoding
  composite : ft'.composite = ft.composite

def FieldsGrow (fields fields' : List FieldTemplate) : Prop :=
  ∃ front back, fields' = front ++ back ∧ List.Forall₂ Carried fields front

structure GroupGrows (gt gt' : GroupTemplate) : Prop where
  number : gt'.fd.number = gt.fd.number
  fields : FieldsGrow gt.fields gt'.fields

structure MessageTemplate.Grows (tmpl tmpl' : MessageTemplate) : Prop where
  fields : FieldsGrow tmpl.fields tmpl'.fields
  groups : ∃ front back, tmpl'.groups = front ++ back ∧
    List.Forall₂ GroupGrows tmpl.groups front

theorem fieldShape_inOneof (fd : FieldDescriptor) (members : Option (List Nat)) :
    fieldShape (fd.inOneof members) = fieldShape fd := by
  cases fd <;> rfl

theorem carried_of_shaped {ft' : FieldTemplate} (shaped : ft.Shaped) (shaped' : ft'.Shaped)
    (kept : Kept ft.fd ft'.fd) : Carried ft ft' := by
  have same := kept
  obtain ⟨members, renewed⟩ := same
  rw [FieldTemplate.Shaped, renewed, fieldShape_inOneof, shaped] at shaped'
  simp only [Except.ok.injEq, Prod.mk.injEq] at shaped'
  obtain ⟨size, encoding, composite⟩ := shaped'
  exact ⟨kept, size.symm, encoding.symm, composite.symm⟩

theorem forall₂_of_map {α : Type} {key : α → FieldDescriptor}
    {same : FieldDescriptor → FieldDescriptor → Prop} {good : α → Prop} {good' : α → Prop}
    {related : α → α → Prop}
    (lifts : ∀ a b, good a → good' b → same (key a) (key b) → related a b) :
    ∀ {list other : List α}, (∀ a ∈ list, good a) → (∀ b ∈ other, good' b) →
      List.Forall₂ same (list.map key) (other.map key) → List.Forall₂ related list other
  | [], [], _, _, _ => .nil
  | _ :: _, _ :: _, left, right, .cons first rest =>
    .cons (lifts _ _ (left _ (by simp)) (right _ (by simp)) first)
      (forall₂_of_map lifts (fun a member => left a (by simp [member]))
        (fun b member => right b (by simp [member])) rest)

theorem Extends.front {α : Type} {key : α → FieldDescriptor}
    {same : FieldDescriptor → FieldDescriptor → Prop}
    (keeps : ∀ old new, same old new → new.number = old.number)
    {old new : List FieldDescriptor} (extended : Extends same old new) {list other : List α}
    (perm : (list.map key).Perm old) (perm' : (other.map key).Perm new)
    (sorted : (list.map key).Pairwise fun a b => a.number ≤ b.number)
    (sorted' : (other.map key).Pairwise fun a b => a.number ≤ b.number)
    (distinct : (list.map fun a => (key a).number).Nodup)
    (distinct' : (other.map fun a => (key a).number).Nodup) :
    ∃ front back, other = front ++ back ∧ List.Forall₂ same (list.map key) (front.map key) := by
  obtain ⟨kept, added, split_, carried, above⟩ := extended
  have ordered : Ordered FieldDescriptor.number (list.map key) :=
    ordered_of_nodup sorted (by rw [List.map_map]; exact distinct)
  have ordered' : Ordered FieldDescriptor.number (other.map key) :=
    ordered_of_nodup sorted' (by rw [List.map_map]; exact distinct')
  obtain ⟨_, _, joined, related⟩ :=
    ordered.exists_append keeps ordered' perm (perm'.trans split_) carried above
  obtain ⟨front, back, rfl, rfl, -⟩ := List.map_eq_append_iff.mp joined
  exact ⟨front, back, rfl, related⟩

theorem fieldsGrow_of_extends {old new : List FieldDescriptor} (extended : Extends Kept old new)
    (perm : (fields.map (·.fd)).Perm old) (perm' : (fields'.map (·.fd)).Perm new)
    (sorted : (fields.map (·.fd)).Pairwise fun a b => a.number ≤ b.number)
    (sorted' : (fields'.map (·.fd)).Pairwise fun a b => a.number ≤ b.number)
    (distinct : Distinct fields) (distinct' : Distinct fields') (shaped : ∀ ft ∈ fields, ft.Shaped)
    (shaped' : ∀ ft ∈ fields', ft.Shaped) : FieldsGrow fields fields' := by
  obtain ⟨front, back, rfl, related⟩ := extended.front (fun _ _ => Kept.number) perm perm'
    sorted sorted' distinct.1 distinct'.1
  refine ⟨front, back, rfl, forall₂_of_map (fun _ _ => carried_of_shaped) shaped ?_ related⟩
  exact fun ft member => shaped' ft (by simp [member])

theorem groupGrows_of_grown {gt gt' : GroupTemplate} (sound : gt.Sound) (sound' : gt'.Sound)
    (laidOut : ∃ info type, gt.fd = .message info type ∧ gt.LaidOut type)
    (laidOut' : ∃ info type, gt'.fd = .message info type ∧ gt'.LaidOut type)
    (grown : Grown gt.fd gt'.fd) : GroupGrows gt gt' := by
  refine ⟨grown.number, ?_⟩
  obtain ⟨info, type, field, laidOut⟩ := laidOut
  obtain ⟨info', type', field', laidOut'⟩ := laidOut'
  rw [field, field'] at grown
  exact fieldsGrow_of_extends grown.2 laidOut.fields laidOut'.fields laidOut.sorted laidOut'.sorted
    sound.block.distinct sound'.block.distinct laidOut.shaped laidOut'.shaped

theorem grows_of_evolves (sound : tmpl.Sound) (sound' : tmpl'.Sound) {md md' : Descriptor}
    (laidOut : tmpl.LaidOut md) (laidOut' : tmpl'.LaidOut md') (evolved : Evolves md md') :
    tmpl.Grows tmpl' := by
  refine ⟨fieldsGrow_of_extends evolved.singular laidOut.fields laidOut'.fields
    laidOut.fieldsSorted laidOut'.fieldsSorted sound.block.distinct sound'.block.distinct
    laidOut.shaped laidOut'.shaped, ?_⟩
  obtain ⟨front, back, joined, related⟩ := evolved.groups.front (fun _ _ => Grown.number)
    laidOut.groups laidOut'.groups laidOut.groupsSorted laidOut'.groupsSorted
    sound.groupNumbers sound'.groupNumbers
  have inside : ∀ gt ∈ front, gt ∈ tmpl'.groups := by
    intro gt member
    rw [joined]
    exact List.mem_append_left _ member
  refine ⟨front, back, joined, forall₂_of_map
    (fun (gt gt' : GroupTemplate) (good : gt.Sound ∧ _) (good' : gt'.Sound ∧ _) grown =>
      groupGrows_of_grown good.1 good'.1 good.2 good'.2 grown) ?_ ?_ related⟩
  · exact fun gt member => ⟨sound.groups gt member, laidOut.groupsLaidOut gt member⟩
  · exact fun gt member =>
      ⟨sound'.groups gt (inside gt member), laidOut'.groupsLaidOut gt (inside gt member)⟩

theorem fieldBytes_carried {ft' : FieldTemplate} (carried : Carried ft ft') (msg : Message) :
    fieldBytes ft' msg = fieldBytes ft msg := by
  obtain ⟨fd, offset, size, encoding, composite⟩ := ft
  obtain ⟨fd', offset', size', encoding', composite'⟩ := ft'
  obtain ⟨⟨members, renewed⟩, size, encoding, composite⟩ := carried
  change fd' = fd.inOneof members at renewed
  change size' = _ at size
  change encoding' = _ at encoding
  change composite' = _ at composite
  subst renewed size encoding composite
  rw [fieldBytes, fieldBytes]
  congr 1
  · cases fd with
    | scalar info kind => cases encoding' with
        | none => rfl
        | some primitive => cases primitive <;> rfl
    | message info type => rfl
  · cases fd <;> rfl

theorem blockBytes_grown (grown : FieldsGrow fields fields')
    (written : blockBytes fields' msg = .ok bytes') :
    ∃ bytes extra, blockBytes fields msg = .ok bytes ∧ bytes' = bytes ++ extra := by
  obtain ⟨front, back, rfl, related⟩ := grown
  induction related generalizing bytes' with
  | nil => exact ⟨[], bytes', rfl, rfl⟩
  | cons first _ ih =>
    rw [List.cons_append, blockBytes] at written
    obtain ⟨own, writtenFirst, written⟩ := except_bind_ok written
    obtain ⟨others, writtenRest, written⟩ := except_bind_ok written
    cases written
    obtain ⟨bytes, extra, following, rfl⟩ := ih writtenRest
    rw [fieldBytes_carried first] at writtenFirst
    refine ⟨own ++ bytes, extra, ?_, (List.append_assoc ..).symm⟩
    rw [blockBytes, writtenFirst, following]
    rfl

theorem entriesBytes_grown (grown : FieldsGrow fields fields') {entries : List Message}
    (written : entriesBytes fields' entries = .ok bytes') :
    ∃ bytes, entriesBytes fields entries = .ok bytes := by
  induction entries generalizing bytes' with
  | nil => exact ⟨[], rfl⟩
  | cons entry rest ih =>
    obtain ⟨first, writtenFirst, written⟩ := except_bind_ok written
    obtain ⟨others, writtenRest, -⟩ := except_bind_ok written
    obtain ⟨bytes, extra, own, -⟩ := blockBytes_grown grown writtenFirst
    obtain ⟨more, following⟩ := ih writtenRest
    refine ⟨bytes ++ more, ?_⟩
    rw [entriesBytes, own, following]
    rfl

theorem groupsBytes_of {gt : GroupTemplate} {rest : List GroupTemplate} {entries others : Bytes}
    (few : (msg.entries gt.fd.number).length ≤ maxUint16)
    (written : entriesBytes gt.fields (msg.entries gt.fd.number) = .ok entries)
    (following : groupsBytes msg rest = .ok others) :
    groupsBytes msg (gt :: rest) =
      .ok (groupBytes gt (msg.entries gt.fd.number).length entries ++ others) := by
  rw [groupsBytes]
  dsimp only
  rw [if_neg (by omega), written, following]
  rfl

theorem groupsBytes_grown {groups front : List GroupTemplate}
    (related : List.Forall₂ GroupGrows groups front) {back : List GroupTemplate}
    (written : groupsBytes msg (front ++ back) = .ok bytes') :
    (∃ bytes, groupsBytes msg groups = .ok bytes) ∧
      ∃ bytes extra, groupsBytes msg front = .ok bytes ∧ bytes' = bytes ++ extra := by
  induction related generalizing bytes' with
  | nil => exact ⟨⟨[], rfl⟩, [], bytes', rfl, rfl⟩
  | cons first _ ih =>
    obtain ⟨entries, others, few, writtenEntries, writtenRest, rfl⟩ := groupsBytes_cons written
    obtain ⟨⟨older, olderRest⟩, newer, extra, newerRest, rfl⟩ := ih writtenRest
    refine ⟨?_, _, extra, groupsBytes_of few writtenEntries newerRest,
      (List.append_assoc ..).symm⟩
    rw [first.number] at few writtenEntries
    obtain ⟨own, writtenOwn⟩ := entriesBytes_grown first.fields writtenEntries
    exact ⟨_, groupsBytes_of few writtenOwn olderRest⟩

theorem MessageTemplate.marshal_of (sound : tmpl.Sound) {groups : Bytes}
    (written : blockBytes tmpl.fields msg = .ok block)
    (following : groupsBytes msg tmpl.groups = .ok groups) :
    tmpl.marshal msg = .ok (tmpl.header ++ block ++ groups) := by
  rw [MessageTemplate.marshal, writeBlock_eq sound.block, written]
  change writeGroups msg (tmpl.header ++ block) tmpl.groups = _
  rw [writeGroups_eq sound.groups, following]
  rfl

theorem subspan_append {size : Nat} (inside : offset + size ≤ block.length) (extra : Bytes) :
    subspan (block ++ extra) offset size = subspan block offset size := by
  rw [subspan, subspan, List.drop_append_of_le_length (by omega),
    List.take_append_of_le_length (by rw [List.length_drop]; omega)]

theorem decodeField_congr {block' : Bytes}
    (same : subspan block' ft.offset ft.size = subspan block ft.offset ft.size) (target : Message) :
    decodeField block' ft target = decodeField block ft target := by
  obtain ⟨fd, offset, size, encoding, composite⟩ := ft
  change subspan block' offset size = subspan block offset size at same
  rw [decodeField, decodeField, decodeLeaf, decodeLeaf]
  simp only [FieldTemplate.offset, FieldTemplate.size, same]

theorem decodeFields_append {stop : Nat} (tiled : Tiled offset fields stop)
    (inside : stop ≤ block.length) (extra : Bytes) (target : Message) :
    decodeFields (block ++ extra) fields target = decodeFields block fields target := by
  induction fields generalizing offset target with
  | nil => rfl
  | cons ft rest ih =>
    have placed : ft.offset = offset := tiled.1
    have ends := tiled.2.offset_le
    rw [decodeFields, decodeFields,
      decodeField_congr (subspan_append (by omega) extra) target]
    cases decodeField block ft target with
    | error problem => rfl
    | ok middle => exact ih tiled.2 middle

theorem Tiled.stop_le {front back : List FieldTemplate} {stop stop' : Nat}
    (tiled : Tiled offset fields stop) (tiled' : Tiled offset (front ++ back) stop')
    (related : List.Forall₂ Carried fields front) : stop ≤ stop' := by
  induction related generalizing offset with
  | nil =>
    cases tiled
    exact tiled'.offset_le
  | cons first _ ih =>
    have following := tiled'.2
    rw [first.size] at following
    exact ih tiled.2 following

theorem Block.length_le {total total' : Nat} (block : Block fields total)
    (block' : Block fields' total') (grown : FieldsGrow fields fields') : total ≤ total' := by
  obtain ⟨front, back, rfl, related⟩ := grown
  exact block.tiled.stop_le block'.tiled related

section Groups

variable {gt gt' : GroupTemplate} (sound : gt.Sound) (sound' : gt'.Sound)
  (grown : FieldsGrow gt.fields gt'.fields)

include sound sound' grown

theorem decodeEntries_grown {entries : List Message}
    (written : entriesBytes gt.fields entries = .ok bytes)
    (written' : entriesBytes gt'.fields entries = .ok bytes') (front rest front' rest' : Bytes)
    (target : Message) :
    decodeEntries (front' ++ bytes' ++ rest') gt gt'.blockLength entries.length front'.length
        target =
      decodeEntries (front ++ bytes ++ rest) gt gt.blockLength entries.length front.length
        target := by
  induction entries generalizing front front' bytes bytes' target with
  | nil => rfl
  | cons entry others ih =>
    obtain ⟨first, writtenFirst, written⟩ := except_bind_ok written
    obtain ⟨more, writtenRest, written⟩ := except_bind_ok written
    obtain ⟨first', writtenFirst', written'⟩ := except_bind_ok written'
    obtain ⟨more', writtenRest', written'⟩ := except_bind_ok written'
    cases written
    cases written'
    have length := blockBytes_length sound.block.tiled sound.block.sound writtenFirst
    have length' := blockBytes_length sound'.block.tiled sound'.block.sound writtenFirst'
    rw [Nat.zero_add] at length length'
    obtain ⟨own, extra, writtenOwn, rfl⟩ := blockBytes_grown grown writtenFirst'
    cases writtenFirst.symm.trans writtenOwn
    have region : subspan (front ++ (first ++ more) ++ rest) front.length gt.blockLength =
        first := by
      rw [← List.append_assoc, List.append_assoc]
      exact subspan_middle rfl length
    have region' : subspan (front' ++ (first ++ extra ++ more') ++ rest') front'.length
        gt'.blockLength = first ++ extra := by
      rw [← List.append_assoc, List.append_assoc]
      exact subspan_middle rfl length'
    rw [List.length_cons, decodeEntries, decodeEntries, region, region',
      decodeFields_append sound.block.tiled length.ge]
    cases decodeFields first gt.fields .fresh with
    | error problem => rfl
    | ok decoded =>
      have following := ih writtenRest writtenRest' (front ++ first) (front' ++ (first ++ extra))
        (target.addMessage gt.fd decoded)
      have start : (front ++ first).length = front.length + gt.blockLength := by
        rw [List.length_append, length]
      have start' : (front' ++ (first ++ extra)).length = front'.length + gt'.blockLength := by
        rw [List.length_append, length']
      rw [start, start', List.append_assoc front first more,
        List.append_assoc front' (first ++ extra) more'] at following
      exact following

theorem headerFits_grown {maxRepeated : Nat} {entries : Bytes}
    (readable : Readable maxRepeated msg gt) (few : (msg.entries gt.fd.number).length ≤ maxUint16)
    (written : entriesBytes gt'.fields (msg.entries gt.fd.number) = .ok entries)
    (front rest : Bytes) :
    HeaderFits (front ++ (groupBytes gt' (msg.entries gt.fd.number).length entries ++ rest))
      maxRepeated front.length gt := by
  obtain ⟨block, count⟩ := load_groupBytes sound' few front entries rest
  have length := entriesBytes_length sound' written
  have wider := sound.block.length_le sound'.block grown
  have total : (front ++ (groupBytes gt' (msg.entries gt.fd.number).length entries ++ rest)).length =
      front.length + 4 + gt'.blockLength * (msg.entries gt.fd.number).length + rest.length := by
    rw [List.length_append, List.length_append, length_groupBytes, length]
    omega
  rw [HeaderFits, block, count, total]
  refine ⟨by omega, wider, fun empty => ?_, fun positive => ?_, readable.2⟩
  · rw [readable.1 (sound.weight.mp (by omega))]
    rfl
  · rw [Nat.le_div_iff_mul_le positive, Nat.mul_comm]
    omega

end Groups

theorem groups_grown {groups groups' : List GroupTemplate}
    (related : List.Forall₂ GroupGrows groups groups') (sound : ∀ gt ∈ groups, gt.Sound)
    (sound' : ∀ gt ∈ groups', gt.Sound) {maxRepeated : Nat}
    (readable : ∀ gt ∈ groups, Readable maxRepeated msg gt)
    (written : groupsBytes msg groups = .ok bytes) (written' : groupsBytes msg groups' = .ok bytes')
    (front front' rest : Bytes) (target : Message) :
    validateGroups (front' ++ (bytes' ++ rest)) maxRepeated front'.length groups = .ok () ∧
      decodeGroups (front' ++ (bytes' ++ rest)) front'.length groups target =
        decodeGroups (front ++ bytes) front.length groups target := by
  induction related generalizing front front' bytes bytes' target with
  | nil => exact ⟨rfl, rfl⟩
  | @cons gt gt' others others' first _ ih =>
    obtain ⟨entries, more, few, writtenEntries, writtenRest, rfl⟩ := groupsBytes_cons written
    obtain ⟨entries', more', -, writtenEntries', writtenRest', rfl⟩ := groupsBytes_cons written'
    rw [first.number] at writtenEntries' ⊢
    have good := sound gt (by simp)
    have good' := sound' gt' (by simp)
    obtain ⟨block, count⟩ := load_groupBytes good few front entries more
    obtain ⟨block', count'⟩ := load_groupBytes good' few front' entries' (more' ++ rest)
    have length := entriesBytes_length good writtenEntries
    have length' := entriesBytes_length good' writtenEntries'
    have following := ih (fun gt member => sound gt (by simp [member]))
      (fun gt member => sound' gt (by simp [member]))
      (fun gt member => readable gt (by simp [member])) writtenRest writtenRest'
      (front ++ groupBytes gt (msg.entries gt.fd.number).length entries)
      (front' ++ groupBytes gt' (msg.entries gt.fd.number).length entries')
    simp only [List.append_assoc, List.length_append, length_groupBytes, length, length']
      at following
    rw [List.append_assoc]
    refine ⟨validateGroups_cons.mpr ⟨headerFits_grown good good' first.fields
      (readable gt (by simp)) few writtenEntries' front' _, ?_⟩, ?_⟩
    · rw [block', count', Nat.add_assoc front'.length]
      exact (following target).1
    · have read := decodeEntries_grown good good' first.fields writtenEntries writtenEntries'
        (front ++ toLittle 2 gt.blockLength ++ toLittle 2 (msg.entries gt.fd.number).length) more
        (front' ++ toLittle 2 gt'.blockLength ++ toLittle 2 (msg.entries gt.fd.number).length)
        (more' ++ rest) target
      rw [entries_groupBytes, entries_groupBytes, length_groupHeader, length_groupHeader] at read
      rw [decodeGroups, decodeGroups, block, count, block', count', read]
      cases decodeEntries (front ++ (groupBytes gt _ entries ++ more)) gt gt.blockLength
          (msg.entries gt.fd.number).length (front.length + 4) target with
      | error problem => rfl
      | ok middle =>
        have next := (following middle).2
        rw [← Nat.add_assoc, ← Nat.add_assoc] at next
        exact next

theorem MessageTemplate.heads_grown (sound : tmpl.Sound) (sound' : tmpl'.Sound)
    (grows : tmpl.Grows tmpl') (schema : tmpl'.schemaId = tmpl.schemaId)
    (template : tmpl'.templateId = tmpl.templateId) (heads : tmpl'.Heads bytes) :
    tmpl.Heads bytes := by
  have wider := sound.block.length_le sound'.block grows.fields
  exact ⟨heads.long, heads.templateId.trans template, heads.schemaId.trans schema,
    wider.trans heads.wide, heads.fits⟩

theorem MessageTemplate.unmarshalInto_grown (sound : tmpl.Sound) (sound' : tmpl'.Sound)
    (grows : tmpl.Grows tmpl') (schema : tmpl'.schemaId = tmpl.schemaId)
    (template : tmpl'.templateId = tmpl.templateId) (written : tmpl'.marshal msg = .ok bytes) :
    ∃ own, tmpl.marshal msg = .ok own ∧ ∀ maxRepeated target back,
      tmpl.unmarshalInto maxRepeated own target = .ok back →
      tmpl.unmarshalInto maxRepeated bytes target = .ok back := by
  obtain ⟨block', groups', writtenBlock', writtenGroups', length', rfl⟩ :=
    marshal_ok sound' written
  obtain ⟨block, extra, writtenBlock, rfl⟩ := blockBytes_grown grows.fields writtenBlock'
  obtain ⟨front, back, joined, related⟩ := grows.groups
  rw [joined] at writtenGroups'
  obtain ⟨⟨groups, writtenGroups⟩, kept, more, writtenKept, rfl⟩ :=
    groupsBytes_grown related writtenGroups'
  have length : block.length = tmpl.blockLength := by
    have := blockBytes_length sound.block.tiled sound.block.sound writtenBlock
    omega
  refine ⟨_, tmpl.marshal_of sound writtenBlock writtenGroups, ?_⟩
  intro maxRepeated target result read
  obtain ⟨-, valid, root, readBlock, readGroups⟩ := unmarshalInto_ok.mp read
  obtain ⟨load, -, -⟩ := tmpl.load_header sound (block ++ groups)
  obtain ⟨load', -, -⟩ := tmpl'.load_header sound' (block ++ extra ++ (kept ++ more))
  rw [← List.append_assoc] at load load'
  have start : 8 + tmpl.blockLength = (tmpl.header ++ block).length := by
    rw [List.length_append, tmpl.length_header, length]
  have start' : 8 + tmpl'.blockLength = (tmpl'.header ++ (block ++ extra)).length := by
    rw [List.length_append, tmpl'.length_header, length']
  rw [load, subspan_middle tmpl.length_header length] at readBlock
  rw [load, start] at valid readGroups
  have readable := (validateGroups_written sound.groups writtenGroups maxRepeated _).mp valid
  have inside : ∀ gt ∈ front, gt.Sound := fun gt member =>
    sound'.groups gt (joined ▸ List.mem_append_left _ member)
  obtain ⟨validNew, same⟩ := groups_grown related sound.groups inside readable writtenGroups
    writtenKept (tmpl.header ++ block) (tmpl'.header ++ (block ++ extra)) more root
  have heads := tmpl.heads_grown sound sound' grows schema template
    (tmpl'.heads_written sound' length' (kept ++ more))
  refine unmarshalInto_ok.mpr ⟨heads, ?_, root, ?_, ?_⟩
  · rw [load', start']
    exact validNew
  · rw [load', subspan_middle tmpl'.length_header length',
      decodeFields_append sound.block.tiled length.ge]
    exact readBlock
  · rw [load', start', same]
    exact readGroups

/-- An older codec reads what a newer one writes as it reads its own bytes for the same message,
and so restores every field it knows. -/
theorem Codec.unmarshal_newer {files files' : List FileDescriptor} {opts opts' : CodecOptions}
    {c c' : Codec} (accepted : Codec.new files opts = .ok c)
    (accepted' : Codec.new files' opts' = .ok c') {md md' : Descriptor}
    {tmpl tmpl' : MessageTemplate} (lays : c.Lays md tmpl) (lays' : c'.Lays md' tmpl')
    (schema : tmpl'.schemaId = tmpl.schemaId) (template : tmpl'.templateId = tmpl.templateId)
    (evolved : Evolves md md') {msg : Message} {bytes : Bytes}
    (written : c'.marshal md'.fullName msg = .ok bytes)
    (small : bytes.length ≤ c.maxMessageSize)
    (reads : ∀ own, c.marshal md.fullName msg = .ok own →
      ∃ back, c.unmarshal md.fullName own .fresh = .ok back) :
    ∃ own back, c.marshal md.fullName msg = .ok own ∧
      c.unmarshal md.fullName own .fresh = .ok back ∧
      c.unmarshal md.fullName bytes .fresh = .ok back ∧
      ((∀ gt ∈ tmpl.groups, NoOneof gt.fields) → tmpl.Typed msg → tmpl.Restores msg back) := by
  obtain ⟨registered, _, _, built⟩ := lays
  obtain ⟨registered', _, _, built'⟩ := lays'
  obtain ⟨sound, -⟩ := Codec.new_sound accepted _ _ registered
  obtain ⟨sound', -⟩ := Codec.new_sound accepted' _ _ registered'
  have grows := grows_of_evolves sound sound' (buildTemplate_laidOut built)
    (buildTemplate_laidOut built') evolved
  obtain ⟨own, marshalled, same⟩ := MessageTemplate.unmarshalInto_grown sound sound' grows schema
    template (Codec.marshal_ok registered' written)
  have ownWritten : c.marshal md.fullName msg = .ok own := by
    rw [Codec.marshal, registered]
    exact marshalled
  obtain ⟨back, read⟩ := reads own ownWritten
  obtain ⟨-, other, found, readOwn⟩ := Codec.unmarshal_ok.mp read
  cases registered.symm.trans found
  refine ⟨own, back, ownWritten, read, ?_, fun plain typed => ?_⟩
  · exact Codec.unmarshal_ok.mpr ⟨small, tmpl, registered, same _ _ _ readOwn⟩
  · exact tmpl.restores_marshal sound plain typed marshalled readOwn

def tradeType : Descriptor :=
  .mk (text "Trade") (some 5) false [tradeSymbol, tradeId, tradeLegs] []

def legBuy : FieldDescriptor :=
  .scalar { name := text "buy", fullName := text "Leg.buy", number := 1 } .bool

def legRatio : FieldDescriptor :=
  .scalar { name := text "ratio", fullName := text "Leg.ratio", number := 2 } .uint32

def newerLegType : Descriptor := .mk (text "Leg") none false [legBuy, legRatio] []

def newerLegs : FieldDescriptor :=
  .message { name := text "legs", fullName := text "Trade.legs", number := 3, repeated := true }
    newerLegType

def tradeVenue : FieldDescriptor :=
  .scalar { name := text "venue", fullName := text "Trade.venue", number := 4 } .int64

def tradeFees : FieldDescriptor :=
  .message { name := text "fees", fullName := text "Trade.fees", number := 5, repeated := true }
    newerLegType

def newerTradeType : Descriptor :=
  .mk (text "Trade") (some 5) false [tradeSymbol, tradeId, newerLegs, tradeVenue, tradeFees] []

def newerTradeFile : FileDescriptor where
  name := text "trade.proto"
  schemaId := some 9
  version := some 1
  messageTypes := [newerLegType, newerTradeType]
  wellFormed := by decide

def newerLegFields : List FieldTemplate :=
  [.mk legBuy 0 1 (some .uint8) [], .mk legRatio 1 4 (some .uint32) []]

def newerTradeTemplate : MessageTemplate where
  templateId := 5
  schemaId := 9
  version := 1
  blockLength := 16
  fields := [.mk tradeId 0 4 (some .uint32) [], .mk tradeSymbol 4 4 (some .char) [],
    .mk tradeVenue 8 8 (some .int64) []]
  groups := [{ fd := newerLegs, blockLength := 5, fields := newerLegFields },
    { fd := tradeFees, blockLength := 5, fields := newerLegFields }]

def newerTradeCodec : Codec where
  byName := [(text "Trade", newerTradeTemplate)]
  byId := [((9, 5), (text "Trade", newerTradeTemplate))]
  maxMessageSize := Limit.maxMessageSize
  maxRepeated := Limit.maxRepeatedCount

def newerTradeBytes : Bytes :=
  [16, 0, 5, 0, 9, 0, 1, 0, 7, 0, 0, 0, 0x45, 0x55, 0x52, 0x55, 0, 0, 0, 0, 0, 0, 0, 0,
    5, 0, 1, 0, 1, 0, 0, 0, 0, 5, 0, 0, 0]

theorem legs_grown : Grown tradeLegs newerLegs := by
  refine ⟨rfl, [legBuy], [legRatio], .refl _, .cons ⟨none, rfl⟩ .nil, ?_⟩
  intro fd member before older
  cases List.mem_singleton.mp member
  cases List.mem_singleton.mp older
  decide

theorem trade_evolves : Evolves tradeType newerTradeType := by
  constructor
  · refine ⟨[tradeSymbol, tradeId], [tradeVenue], .refl _,
      .cons ⟨none, rfl⟩ (.cons ⟨none, rfl⟩ .nil), ?_⟩
    intro fd member before older
    cases List.mem_singleton.mp member
    rcases List.mem_cons.mp older with rfl | older
    · decide
    · cases List.mem_singleton.mp older
      decide
  · refine ⟨[newerLegs], [tradeFees], .refl _, .cons legs_grown .nil, ?_⟩
    intro fd member before older
    cases List.mem_singleton.mp member
    cases List.mem_singleton.mp older
    decide

theorem newerTrade_accepted : Codec.new [newerTradeFile] = .ok newerTradeCodec := rfl

theorem trade_lays : tradeCodec.Lays tradeType tradeTemplate := ⟨rfl, 9, 0, rfl⟩

theorem newerTrade_lays : newerTradeCodec.Lays newerTradeType newerTradeTemplate :=
  ⟨rfl, 9, 1, rfl⟩

theorem newerTrade_written : newerTradeCodec.marshal (text "Trade") trade = .ok newerTradeBytes := rfl

theorem trade_reads : ∀ own, tradeCodec.marshal (text "Trade") trade = .ok own →
    ∃ back, tradeCodec.unmarshal (text "Trade") own .fresh = .ok back := by
  intro own written
  cases trade_written.symm.trans written
  exact ⟨_, rfl⟩

theorem Codec.unmarshal_newer_trade :
    ∃ back, tradeCodec.unmarshal (text "Trade") tradeBytes .fresh = .ok back ∧
      tradeCodec.unmarshal (text "Trade") newerTradeBytes .fresh = .ok back ∧
      tradeTemplate.Restores trade back := by
  obtain ⟨own, back, written, read, readNewer, restores⟩ := Codec.unmarshal_newer trade_accepted
    newerTrade_accepted trade_lays newerTrade_lays rfl rfl trade_evolves newerTrade_written
    (by decide) trade_reads
  cases trade_written.symm.trans written
  exact ⟨back, read, readNewer, restores trade_plain trade_typed⟩

theorem Codec.unmarshal_newer_cuts :
    Codec.new [tradeFile] = .ok tradeCodec ∧ Codec.new [newerTradeFile] = .ok newerTradeCodec ∧
      tradeCodec.Lays tradeType tradeTemplate ∧
      newerTradeCodec.Lays newerTradeType newerTradeTemplate ∧
      newerTradeTemplate.schemaId = tradeTemplate.schemaId ∧
      newerTradeTemplate.templateId = tradeTemplate.templateId ∧
      Evolves tradeType newerTradeType ∧
      newerTradeCodec.marshal (text "Trade") trade = .ok newerTradeBytes ∧
      newerTradeBytes.length ≤ tradeCodec.maxMessageSize ∧
      (∀ own, tradeCodec.marshal (text "Trade") trade = .ok own →
        ∃ back, tradeCodec.unmarshal (text "Trade") own .fresh = .ok back) ∧
      ∃ back, tradeCodec.unmarshal (text "Trade") newerTradeBytes .fresh = .ok back ∧
        trade.getString tradeSymbol = text "EURUSD" ∧ back.getString tradeSymbol = text "EURU" :=
  ⟨rfl, rfl, trade_lays, newerTrade_lays, rfl, rfl, trade_evolves, rfl, by decide, trade_reads, _,
    rfl, rfl, rfl⟩

end Protowire.Sbe
