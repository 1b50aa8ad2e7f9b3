import Protowire.Sbe.CodecCore
import Protowire.Support.Outcome

/-!
What `Codec::New` builds. The fields of a block lie end to end from its start, a composite's in
the place of its field, every field in a primitive that its kind takes; and a codec finds the
same template by name as by id.
-/

namespace Protowire.Sbe

open Support

variable {fields : List FieldTemplate} {offset size next schemaId version : Nat} {e : Bytes}
  {primitive : Primitive} {kind : Kind} {info : FieldInfo} {places : Places} {ft : FieldTemplate}
  {fds : List FieldDescriptor} {md : Descriptor} {c after : Codec} {files : List FileDescriptor}
  {opts : CodecOptions}

def Tiled : Nat → List FieldTemplate → Nat → Prop
  | offset, [], stop => offset = stop
  | offset, ft :: rest, stop => ft.offset = offset ∧ Tiled (offset + ft.size) rest stop

def Distinct (fields : List FieldTemplate) : Prop :=
  (fields.map fun ft => ft.fd.number).Nodup ∧ (fields.map fun ft => ft.fd.name).Nodup

def NoOneof (fields : List FieldTemplate) : Prop := ∀ ft ∈ fields, ft.fd.info.oneof = none

def Covers (type : Descriptor) (fields : List FieldTemplate) : Prop :=
  (fields.map fun ft => ft.fd).Perm type.fields

def Kind.takes (kind : Kind) (encoding : Primitive) (size : Nat) : Bool :=
  match kind.cppType with
  | .string => encoding = .char
  | .float | .double => (encoding = .float || encoding = .double) && size = encoding.width
  | _ => encoding.isInt && size = encoding.width

mutual

def FieldTemplate.Sound : FieldTemplate → Prop
  | .mk (.scalar _ kind) _ size encoding composite =>
    composite = [] ∧ ∃ primitive, encoding = some primitive ∧ kind.takes primitive size = true
  | .mk (.message _ type) _ size encoding composite =>
    encoding = none ∧ Tiled 0 composite size ∧ Distinct composite ∧ NoOneof composite ∧
      Covers type composite ∧ AllSound composite

def AllSound : List FieldTemplate → Prop
  | [] => True
  | ft :: rest => ft.Sound ∧ AllSound rest

end

structure Block (fields : List FieldTemplate) (total : Nat) : Prop where
  tiled : Tiled 0 fields total
  distinct : Distinct fields
  sound : AllSound fields

theorem Tiled.offset_le {stop : Nat} (tiled : Tiled offset fields stop) : offset ≤ stop := by
  induction fields generalizing offset with
  | nil => exact Nat.le_of_eq tiled
  | cons ft rest ih =>
    have := ih tiled.2
    omega

mutual

def Descriptor.weightless : Descriptor → Bool
  | .mk _ _ _ fields _ => fieldsWeightless fields

def fieldsWeightless : List FieldDescriptor → Bool
  | [] => true
  | fd :: rest => fieldWeightless fd && fieldsWeightless rest

def fieldWeightless : FieldDescriptor → Bool
  | .scalar info kind => kind.cppType = .string && info.length = some 0
  | .message _ type => type.weightless

end

theorem fieldsWeightless_iff (fds : List FieldDescriptor) :
    fieldsWeightless fds = true ↔ ∀ fd ∈ fds, fieldWeightless fd = true := by
  induction fds with
  | nil => simp [fieldsWeightless]
  | cons fd rest ih => simp [fieldsWeightless, ih]

theorem wrap_ok {α : Type} {place : Bytes} {status : Except Bytes α} {a : α}
    (success : wrap place status = .ok a) : status = .ok a :=
  except_mapError_ok success

theorem endOfField_ok (success : endOfField offset size = .ok next) :
    next = offset + size ∧ next ≤ maxUint16 := by
  rw [endOfField] at success
  split at success
  · cases success
  · cases success
    omega

theorem ofName_some (found : Primitive.ofName e = some primitive) :
    e = primitive.encodingName ∧ primitive ≠ .char := by
  have named := List.mem_of_find?_eq_some found
  have name := List.find?_some found
  simp only [decide_eq_true_eq] at name
  refine ⟨name.symm, ?_⟩
  rintro rfl
  revert named
  decide

theorem namedEncoding_takes (success : namedEncoding kind e = .ok (primitive, size)) :
    kind.takes primitive size = true := by
  unfold namedEncoding at success
  unfold Kind.takes
  cases found : Primitive.ofName e with
  | none =>
    cases type : kind.cppType <;> simp only [found, type] at success
    case string => cases success
    all_goals split at success <;> cases success
  | some p =>
    obtain ⟨rfl, number⟩ := ofName_some found
    cases type : kind.cppType <;> simp only [found, type] at success ⊢
    case string => cases success
    all_goals
      split at success
      · cases success
      · rename_i admitted
        cases success
        revert admitted number
        cases primitive <;> decide

theorem fieldEncodingSize_takes (success : fieldEncodingSize info kind = .ok (primitive, size)) :
    kind.takes primitive size = true := by
  unfold fieldEncodingSize at success
  cases option : info.encoding with
  | some e =>
    rw [option] at success
    exact namedEncoding_takes success
  | none =>
    unfold Kind.takes
    cases type : kind.cppType <;> simp only [option, type] at success ⊢
    case string =>
      cases given : info.length with
      | none => simp [given] at success
      | some len =>
        simp only [given] at success
        split at success <;> cases success
        rfl
    all_goals
      cases success
      rfl

theorem namedEncoding_size (success : namedEncoding kind e = .ok (primitive, size)) :
    kind.cppType ≠ .string := by
  intro type
  simp only [namedEncoding, type] at success
  cases success

theorem takes_number (number : kind.cppType ≠ .string) (taken : kind.takes primitive size = true) :
    primitive ≠ .char ∧ size = primitive.width ∧ size ≠ 0 := by
  have sized : primitive ≠ .char ∧ size = primitive.width := by
    revert taken number
    unfold Kind.takes
    cases kind.cppType <;> cases primitive <;> simp [Primitive.isInt]
  obtain ⟨notChar, rfl⟩ := sized
  refine ⟨notChar, rfl, ?_⟩
  revert notChar
  cases primitive <;> decide

theorem fieldEncodingSize_weight (success : fieldEncodingSize info kind = .ok (primitive, size)) :
    size = 0 ↔ fieldWeightless (.scalar info kind) = true := by
  have taken := fieldEncodingSize_takes success
  rw [fieldWeightless, Bool.and_eq_true, decide_eq_true_eq, decide_eq_true_eq]
  by_cases type : kind.cppType = .string
  · unfold fieldEncodingSize at success
    cases option : info.encoding with
    | some e =>
      rw [option] at success
      exact absurd type (namedEncoding_size success)
    | none =>
      simp only [option, type] at success
      cases given : info.length with
      | none => simp [given] at success
      | some len =>
        simp only [given] at success
        split at success <;> cases success
        simp [type]
  · have := (takes_number type taken).2.2
    simp [type, this]

theorem placeField_scalar {subs : Except Bytes (List FieldTemplate × Nat)}
    (placed : placeField places offset ⟨.scalar info kind, subs⟩ = .ok (ft, next)) :
    ∃ primitive size, fieldEncodingSize info kind = .ok (primitive, size) ∧
      ft = .mk (.scalar info kind) offset size (some primitive) [] ∧ next = offset + size ∧
      next ≤ maxUint16 := by
  obtain ⟨⟨primitive, size⟩, encoded, placed⟩ := except_bind_ok placed
  obtain ⟨_, ended, placed⟩ := except_bind_ok placed
  cases placed
  exact ⟨primitive, size, wrap_ok encoded, rfl, endOfField_ok (wrap_ok ended)⟩

theorem placeField_message {type : Descriptor} {subs : Except Bytes (List FieldTemplate × Nat)}
    (placed : placeField places offset ⟨.message info type, subs⟩ = .ok (ft, next)) :
    ∃ composite size, subs = .ok (composite, size) ∧
      ft = .mk (.message info type) offset size none composite ∧ next = offset + size ∧
      next ≤ maxUint16 := by
  obtain ⟨⟨composite, size⟩, built, placed⟩ := except_bind_ok placed
  obtain ⟨_, ended, placed⟩ := except_bind_ok placed
  cases placed
  refine ⟨composite, size, ?_, rfl, endOfField_ok (wrap_ok ended)⟩
  split at built
  · exact wrap_ok built
  · exact built

def Part.Sound (part : Part) : Prop :=
  ∀ info type composite size, part.fd = .message info type →
    part.subs = .ok (composite, size) →
    Block composite size ∧ NoOneof composite ∧ Covers type composite ∧
      (size = 0 ↔ type.weightless = true)

theorem placeField_ok {part : Part} (sound : part.Sound)
    (placed : placeField places offset part = .ok (ft, next)) :
    ft.fd = part.fd ∧ ft.offset = offset ∧ next = offset + ft.size ∧ next ≤ maxUint16 ∧
      ft.Sound ∧ (ft.size = 0 ↔ fieldWeightless part.fd = true) := by
  obtain ⟨fd, subs⟩ := part
  cases fd with
  | scalar info kind =>
    obtain ⟨primitive, size, encoded, rfl, ended, bounded⟩ := placeField_scalar placed
    exact ⟨rfl, rfl, ended, bounded, ⟨rfl, primitive, rfl, fieldEncodingSize_takes encoded⟩,
      fieldEncodingSize_weight encoded⟩
  | message info type =>
    obtain ⟨composite, size, built, rfl, ended, bounded⟩ := placeField_message placed
    obtain ⟨block, plain, covers, weight⟩ := sound info type composite size rfl built
    exact ⟨rfl, rfl, ended, bounded,
      ⟨rfl, block.tiled, block.distinct, plain, covers, block.sound⟩, weight⟩

theorem placeFields_cons {refusal : FieldDescriptor → Option Bytes} {part : Part} {rest : List Part}
    {total : Nat} (placed : placeFields refusal places offset (part :: rest) = .ok (fields, total)) :
    refusal part.fd = none ∧ ∃ ft next others, placeField places offset part = .ok (ft, next) ∧
      placeFields refusal places next rest = .ok (others, total) ∧ fields = ft :: others := by
  rw [placeFields] at placed
  cases refused : refusal part.fd with
  | some message =>
    rw [refused] at placed
    cases placed
  | none =>
    simp only [refused] at placed
    obtain ⟨⟨ft, next⟩, first, placed⟩ := except_bind_ok placed
    obtain ⟨⟨others, _⟩, following, placed⟩ := except_bind_ok placed
    cases placed
    exact ⟨rfl, ft, next, others, first, following, rfl⟩

theorem placeFields_ok {refusal : FieldDescriptor → Option Bytes} {parts : List Part} {total : Nat}
    (sound : ∀ part ∈ parts, part.Sound) (small : offset ≤ maxUint16)
    (placed : placeFields refusal places offset parts = .ok (fields, total)) :
    fields.map (·.fd) = parts.map (·.fd) ∧ Tiled offset fields total ∧ AllSound fields ∧
      total ≤ maxUint16 ∧ (∀ ft ∈ fields, refusal ft.fd = none) ∧
      (total = offset ↔ ∀ part ∈ parts, fieldWeightless part.fd = true) := by
  induction parts generalizing offset total fields with
  | nil =>
    cases placed
    exact ⟨rfl, rfl, trivial, small, by simp, by simp⟩
  | cons part rest ih =>
    obtain ⟨refused, ft, next, others, first, following, rfl⟩ := placeFields_cons placed
    obtain ⟨field, start, stop, bounded, good, weight⟩ :=
      placeField_ok (sound part (by simp)) first
    obtain ⟨fds, tiled, goods, small, admitted, weights⟩ :=
      ih (fun part member => sound part (by simp [member])) bounded following
    refine ⟨by simp [field, fds], ⟨start, stop ▸ tiled⟩, ⟨good, goods⟩, small, ?_, ?_⟩
    · exact List.forall_mem_cons.mpr ⟨by rw [field, refused], admitted⟩
    · have := tiled.offset_le
      rw [List.forall_mem_cons, ← weight, ← weights]
      omega

theorem parts_fd (fds : List FieldDescriptor) : (parts fds).map (·.fd) = fds := by
  induction fds with
  | nil => rfl
  | cons fd rest ih =>
    rw [parts, List.map_cons, ih]
    cases fd <;> rfl

theorem sortedParts_perm (list : List Part) : (sortedParts list).Perm list :=
  List.perm_insertionSort _ _

theorem sortedParts_fd (fds : List FieldDescriptor) :
    ((sortedParts (parts fds)).map (·.fd)).Perm fds := by
  simpa only [parts_fd] using (sortedParts_perm (parts fds)).map (·.fd)

theorem distinct_of_sublist {sorted : List FieldDescriptor}
    (kept : (fields.map (·.fd)).Sublist sorted) (sorted_ : sorted.Perm fds)
    (numbers : (fds.map FieldDescriptor.number).Nodup)
    (names : (fds.map FieldDescriptor.name).Nodup) : Distinct fields := by
  constructor
  · have := ((sorted_.map FieldDescriptor.number).nodup_iff.mpr numbers).sublist
      (kept.map FieldDescriptor.number)
    rwa [List.map_map] at this
  · have := ((sorted_.map FieldDescriptor.name).nodup_iff.mpr names).sublist
      (kept.map FieldDescriptor.name)
    rwa [List.map_map] at this

theorem compositeRefusal_none {mdName : Bytes} {fd : FieldDescriptor}
    (admitted : compositeRefusal mdName fd = none) : fd.info.oneof = none := by
  rw [compositeRefusal] at admitted
  split at admitted
  · cases admitted
  · split at admitted
    · cases admitted
    · rename_i single
      simpa using single

theorem sortedParts_weightless (fds : List FieldDescriptor) :
    (∀ part ∈ sortedParts (parts fds), fieldWeightless part.fd = true) ↔
      fieldsWeightless fds = true := by
  rw [fieldsWeightless_iff]
  constructor
  · intro all fd member
    obtain ⟨part, present, rfl⟩ := List.mem_map.mp ((sortedParts_fd fds).mem_iff.mpr member)
    exact all part present
  · intro all part present
    exact all part.fd ((sortedParts_fd fds).mem_iff.mp (List.mem_map_of_mem present))

mutual

theorem buildCompositeFields_sound : ∀ (md : Descriptor), md.wellFormed = true →
    ∀ composite size, buildCompositeFields md = .ok (composite, size) →
      Block composite size ∧ NoOneof composite ∧ Covers md composite ∧
        (size = 0 ↔ md.weightless = true)
  | .mk fullName templateId stale fields nested, wellFormed, composite, size, built => by
    simp only [Descriptor.wellFormed, Bool.and_eq_true, decide_eq_true_eq] at wellFormed
    obtain ⟨⟨⟨numbers, names⟩, inner⟩, -⟩ := wellFormed
    rw [buildCompositeFields] at built
    have sound : ∀ part ∈ sortedParts (parts fields), part.Sound := fun part member =>
      parts_sound fields inner part ((sortedParts_perm _).mem_iff.mp member)
    obtain ⟨fds, tiled, goods, -, admitted, weights⟩ :=
      placeFields_ok sound (Nat.zero_le _) built
    have distinct := distinct_of_sublist (by rw [fds]) (sortedParts_fd fields) numbers names
    refine ⟨⟨tiled, distinct, goods⟩,
      fun ft member => compositeRefusal_none (admitted ft member),
      (List.Perm.of_eq fds).trans (sortedParts_fd fields), ?_⟩
    rw [weights, sortedParts_weightless, Descriptor.weightless]

theorem parts_sound : ∀ (fds : List FieldDescriptor), fieldsWellFormed fds = true →
    ∀ part ∈ parts fds, part.Sound
  | [], _, _, member => by simp [parts] at member
  | fd :: rest, wellFormed, entry, member => by
    simp only [fieldsWellFormed, Bool.and_eq_true] at wellFormed
    rw [parts, List.mem_cons] at member
    rcases member with rfl | later
    · exact part_sound fd wellFormed.1
    · exact parts_sound rest wellFormed.2 entry later

theorem part_sound : ∀ (fd : FieldDescriptor), fieldWellFormed fd = true → (part fd).Sound
  | .scalar info kind, _ => fun _ _ _ _ message _ => by cases message
  | .message info type, wellFormed => fun _ _ composite size same built => by
    cases same
    exact buildCompositeFields_sound type wellFormed composite size built

end

theorem sortedParts_sound (wellFormed : fieldsWellFormed fds = true) :
    ∀ part ∈ sortedParts (parts fds), part.Sound := fun part member =>
  parts_sound fds wellFormed part ((sortedParts_perm _).mem_iff.mp member)

theorem fieldsWellFormed_mem (wellFormed : fieldsWellFormed fds = true) {fd : FieldDescriptor}
    (member : fd ∈ fds) : fieldWellFormed fd = true := by
  induction fds with
  | nil => cases member
  | cons first rest ih =>
    simp only [fieldsWellFormed, Bool.and_eq_true] at wellFormed
    rcases List.mem_cons.mp member with rfl | later
    · exact wellFormed.1
    · exact ih wellFormed.2 later

theorem Descriptor.wellFormed_fields (wellFormed : md.wellFormed = true) :
    (md.fields.map FieldDescriptor.number).Nodup ∧ (md.fields.map FieldDescriptor.name).Nodup ∧
      fieldsWellFormed md.fields = true := by
  cases md
  simp only [Descriptor.wellFormed, Bool.and_eq_true, decide_eq_true_eq] at wellFormed
  exact ⟨wellFormed.1.1.1, wellFormed.1.1.2, wellFormed.1.2⟩

structure GroupTemplate.Sound (gt : GroupTemplate) : Prop where
  block : Block gt.fields gt.blockLength
  covers : ∃ info type, gt.fd = .message info type ∧ Covers type gt.fields
  small : gt.blockLength ≤ maxUint16
  weight : gt.blockLength = 0 ↔ fieldWeightless gt.fd = true

theorem buildGroupTemplate_sound {gt : GroupTemplate} (wellFormed : md.wellFormed = true)
    (built : buildGroupTemplate (.message info md) md = .ok gt) :
    gt.fd = .message info md ∧ gt.Sound := by
  obtain ⟨numbers, names, inner⟩ := Descriptor.wellFormed_fields wellFormed
  obtain ⟨⟨fields, blockLength⟩, placed, built⟩ := except_bind_ok built
  cases built
  obtain ⟨fds, tiled, goods, small, -, weights⟩ :=
    placeFields_ok (sortedParts_sound inner) (Nat.zero_le _) placed
  have distinct := distinct_of_sublist (by rw [fds]) (sortedParts_fd md.fields) numbers names
  have covers : Covers md fields := (List.Perm.of_eq fds).trans (sortedParts_fd md.fields)
  refine ⟨rfl, ⟨tiled, distinct, goods⟩, ⟨info, md, rfl, covers⟩, small, ?_⟩
  rw [weights, sortedParts_weightless, fieldWeightless]
  cases md
  rfl

theorem placeMembers_cons {mdName : Bytes} {part : Part} {rest : List Part} {total : Nat}
    {groups : List GroupTemplate}
    (placed : placeMembers mdName offset (part :: rest) = .ok (fields, total, groups)) :
    part.fd.info.isMap = false ∧ part.fd.info.oneof = none ∧
      ((∃ info type gt others, part.fd = .message info type ∧ part.fd.info.repeated = true ∧
          buildGroupTemplate part.fd type = .ok gt ∧
          placeMembers mdName offset rest = .ok (fields, total, others) ∧ groups = gt :: others) ∨
        part.fd.info.repeated = false ∧ ∃ ft next others,
          placeField (messagePlaces mdName) offset part = .ok (ft, next) ∧
          placeMembers mdName next rest = .ok (others, total, groups) ∧ fields = ft :: others) := by
  rw [placeMembers] at placed
  split at placed
  · cases placed
  rename_i notMap
  split at placed
  · cases placed
  rename_i single
  refine ⟨by simpa using notMap, by simpa using single, ?_⟩
  split at placed
  · rename_i repeated
    obtain ⟨fd, subs⟩ := part
    cases fd with
    | scalar info kind => cases placed
    | message info type =>
      obtain ⟨gt, built, placed⟩ := except_bind_ok placed
      obtain ⟨⟨fields, _, others⟩, following, placed⟩ := except_bind_ok placed
      cases placed
      exact .inl ⟨info, type, gt, others, rfl, repeated, built, following, rfl⟩
  · rename_i singular
    obtain ⟨⟨ft, next⟩, first, placed⟩ := except_bind_ok placed
    obtain ⟨⟨others, _, groups⟩, following, placed⟩ := except_bind_ok placed
    cases placed
    exact .inr ⟨by simpa using singular, ft, next, others, first, following, rfl⟩

theorem placeMembers_ok {mdName : Bytes} {parts : List Part} {total : Nat}
    {groups : List GroupTemplate} (sound : ∀ part ∈ parts, part.Sound)
    (wellFormed : ∀ part ∈ parts, fieldWellFormed part.fd = true) (small : offset ≤ maxUint16)
    (placed : placeMembers mdName offset parts = .ok (fields, total, groups)) :
    (fields.map (·.fd) ++ groups.map (·.fd)).Perm (parts.map (·.fd)) ∧ Tiled offset fields total ∧
      AllSound fields ∧ NoOneof fields ∧ total ≤ maxUint16 ∧ ∀ gt ∈ groups, gt.Sound := by
  induction parts generalizing offset total fields groups with
  | nil =>
    cases placed
    exact ⟨.refl _, rfl, trivial, by simp [NoOneof], small, by simp⟩
  | cons part rest ih =>
    have sounds : ∀ part ∈ rest, part.Sound := fun part member => sound part (by simp [member])
    have wellFormeds : ∀ part ∈ rest, fieldWellFormed part.fd = true :=
      fun part member => wellFormed part (by simp [member])
    obtain ⟨-, single, ⟨info, type, gt, others, own, -, built, following, rfl⟩ |
      ⟨-, ft, next, others, first, following, rfl⟩⟩ := placeMembers_cons placed
    · have typed := wellFormed part (by simp)
      rw [own] at built typed
      obtain ⟨field, good⟩ := buildGroupTemplate_sound typed built
      obtain ⟨covers, tiled, goods, plain, small, goodGroups⟩ :=
        ih sounds wellFormeds small following
      refine ⟨?_, tiled, goods, plain, small, List.forall_mem_cons.mpr ⟨good, goodGroups⟩⟩
      rw [List.map_cons, List.map_cons, field, own]
      exact List.perm_middle.trans (covers.cons _)
    · obtain ⟨field, start, stop, bounded, good, -⟩ :=
        placeField_ok (sound part (by simp)) first
      obtain ⟨covers, tiled, goods, plain, small, goodGroups⟩ :=
        ih sounds wellFormeds bounded following
      refine ⟨?_, ⟨start, stop ▸ tiled⟩, ⟨good, goods⟩, ?_, small, goodGroups⟩
      · rw [List.map_cons, List.map_cons, field]
        exact covers.cons _
      · exact List.forall_mem_cons.mpr ⟨by rw [field, single], plain⟩

structure MessageTemplate.Sound (tmpl : MessageTemplate) : Prop where
  block : Block tmpl.fields tmpl.blockLength
  plain : NoOneof tmpl.fields
  groups : ∀ gt ∈ tmpl.groups, gt.Sound
  groupNumbers : (tmpl.groups.map fun gt => gt.fd.number).Nodup
  groupNames : (tmpl.groups.map fun gt => gt.fd.name).Nodup
  small : tmpl.blockLength ≤ maxUint16 ∧ tmpl.templateId ≤ maxUint16 ∧
    tmpl.schemaId ≤ maxUint16 ∧ tmpl.version ≤ maxUint16

def MessageTemplate.Covers (tmpl : MessageTemplate) (md : Descriptor) : Prop :=
  (tmpl.fields.map (·.fd) ++ tmpl.groups.map (·.fd)).Perm md.fields

theorem buildTemplate_sound {tmpl : MessageTemplate} (wellFormed : md.wellFormed = true)
    (schema : schemaId ≤ maxUint16) (versioned : version ≤ maxUint16)
    (built : buildTemplate md schemaId version = .ok tmpl) :
    tmpl.Sound ∧ tmpl.schemaId = schemaId ∧ tmpl.Covers md := by
  obtain ⟨numbers, names, inner⟩ := Descriptor.wellFormed_fields wellFormed
  rw [buildTemplate] at built
  split at built
  · cases built
  split at built
  · cases built
  obtain ⟨⟨fields, blockLength, groups⟩, placed, built⟩ := except_bind_ok built
  cases built
  have members : ∀ part ∈ sortedParts (parts md.fields), fieldWellFormed part.fd = true :=
    fun part member => fieldsWellFormed_mem inner
      ((sortedParts_fd md.fields).mem_iff.mp (List.mem_map_of_mem member))
  obtain ⟨sorted, tiled, goods, plain, small, goodGroups⟩ :=
    placeMembers_ok (sortedParts_sound inner) members (Nat.zero_le _) placed
  have covers := sorted.trans (sortedParts_fd md.fields)
  have distinct := distinct_of_sublist (List.sublist_append_left ..) covers numbers names
  have groupNumbers := ((covers.map FieldDescriptor.number).nodup_iff.mpr numbers).sublist
    ((List.sublist_append_right ..).map FieldDescriptor.number)
  have groupNames := ((covers.map FieldDescriptor.name).nodup_iff.mpr names).sublist
    ((List.sublist_append_right ..).map FieldDescriptor.name)
  rw [List.map_map] at groupNumbers groupNames
  exact ⟨⟨⟨tiled, distinct, goods⟩, plain, goodGroups, groupNumbers, groupNames,
    small, by simp only; omega, schema, versioned⟩, rfl, covers⟩

namespace Codec

def Sound (c : Codec) : Prop :=
  ∀ name tmpl, c.byName.lookup name = some tmpl →
    tmpl.Sound ∧ c.byId.lookup (tmpl.schemaId, tmpl.templateId) = some (name, tmpl)

theorem registerOne_ok (registered : registerOne schemaId version c md = .ok after) :
    md.templateId = none ∧ after = c ∨ ∃ tmpl, buildTemplate md schemaId version = .ok tmpl ∧
      (∀ previous, c.byId.lookup (schemaId, tmpl.templateId) = some previous →
        previous.1 = md.fullName) ∧
      after = { c with
        byId := ((schemaId, tmpl.templateId), (md.fullName, tmpl)) :: c.byId
        byName := (md.fullName, tmpl) :: c.byName } := by
  rw [registerOne] at registered
  split at registered
  · rename_i plain
    split at registered <;> cases registered
    exact .inl ⟨plain, rfl⟩
  · right
    obtain ⟨tmpl, built, registered⟩ := except_bind_ok registered
    refine ⟨tmpl, built, ?_⟩
    cases found : c.byId.lookup (schemaId, tmpl.templateId) with
    | none =>
      simp only [found] at registered
      cases registered
      exact ⟨by simp, rfl⟩
    | some previous =>
      simp only [found] at registered
      obtain ⟨same, registered⟩ := except_guard_ok_iff.mp registered
      cases registered
      exact ⟨by simpa using same, rfl⟩

theorem registerOne_sound (wellFormed : md.wellFormed = true) (schema : schemaId ≤ maxUint16)
    (versioned : version ≤ maxUint16) (sound : c.Sound)
    (registered : registerOne schemaId version c md = .ok after) : after.Sound := by
  obtain ⟨-, rfl⟩ | ⟨tmpl, built, unshared, rfl⟩ := registerOne_ok registered
  · exact sound
  obtain ⟨good, same, -⟩ := buildTemplate_sound wellFormed schema versioned built
  intro name other found
  rw [List.lookup_cons] at found
  split at found
  · rename_i first
    cases found
    refine ⟨good, ?_⟩
    rw [same, List.lookup_cons_self, beq_iff_eq.mp first]
  · rename_i first
    obtain ⟨goodOther, present⟩ := sound name other found
    refine ⟨goodOther, ?_⟩
    rw [List.lookup_cons]
    split
    · -- the same ids under another name were refused
      rename_i key
      rw [beq_iff_eq.mp key] at present
      have := unshared _ present
      simp [← this] at first
    · exact present

mutual

theorem withNested_wellFormed : ∀ (md : Descriptor), md.wellFormed = true →
    ∀ inner ∈ withNested md, inner.wellFormed = true
  | .mk fullName templateId stale fields nested, wellFormed, inner, member => by
    rw [withNested, List.mem_cons] at member
    rcases member with rfl | deeper
    · exact wellFormed
    · rw [Descriptor.wellFormed, Bool.and_eq_true] at wellFormed
      exact allNested_wellFormed nested wellFormed.2 inner deeper

theorem allNested_wellFormed : ∀ (mds : List Descriptor), allWellFormed mds = true →
    ∀ inner ∈ allNested mds, inner.wellFormed = true
  | [], _, _, member => by simp [allNested] at member
  | md :: rest, wellFormed, inner, member => by
    rw [allWellFormed, Bool.and_eq_true] at wellFormed
    rw [allNested, List.mem_append] at member
    rcases member with first | later
    · exact withNested_wellFormed md wellFormed.1 inner first
    · exact allNested_wellFormed rest wellFormed.2 inner later

end

theorem registerFile_ok {file : FileDescriptor} (registered : registerFile c file = .ok after) :
    ∃ schema version, schema ≤ maxUint16 ∧ version ≤ maxUint16 ∧ file.schemaId = some schema ∧
      (allNested file.messageTypes).foldlM (registerOne schema version) c = .ok after := by
  unfold registerFile at registered
  cases given : file.schemaId with
  | none =>
    simp only [given] at registered
    obtain ⟨-, registered⟩ := except_guard_ok_iff.mp registered
    cases registered
  | some schema =>
    simp only [given] at registered
    obtain ⟨schema, registered⟩ := except_guard_ok_iff.mp registered
    obtain ⟨versioned, registered⟩ := except_guard_ok_iff.mp registered
    exact ⟨_, _, by omega, by omega, rfl, registered⟩

theorem new_sound (accepted : new files opts = .ok c) : c.Sound := by
  refine foldlM_ok Codec.Sound (fun file _ before after sound registered => ?_) ?_ accepted
  · obtain ⟨schema, version, small, versioned, -, registered⟩ := registerFile_ok registered
    refine foldlM_ok Codec.Sound (fun md member before after => ?_) sound registered
    exact registerOne_sound (allNested_wellFormed _ file.wellFormed md member) small versioned
  · intro name tmpl found
    cases found

def HasLimits (opts : CodecOptions) (c : Codec) : Prop :=
  c.maxMessageSize = Limit.resolve opts.maxMessageSize Limit.maxMessageSize ∧
    c.maxRepeated = Limit.resolve opts.maxRepeatedCount Limit.maxRepeatedCount

theorem new_limits (accepted : new files opts = .ok c) : c.HasLimits opts := by
  refine foldlM_ok (HasLimits opts) (fun file _ before after limits registered => ?_) ⟨rfl, rfl⟩
    accepted
  obtain ⟨schema, version, -, -, -, registered⟩ := registerFile_ok registered
  refine foldlM_ok (HasLimits opts) (fun md _ before after limits registered => ?_) limits
    registered
  obtain ⟨-, rfl⟩ | ⟨_, _, _, rfl⟩ := registerOne_ok registered
  · exact limits
  · exact limits

end Codec

end Protowire.Sbe
