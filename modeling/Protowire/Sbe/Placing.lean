import Mathlib.Algebra.GroupWithZero.Nat
import Protowire.Sbe.Layout

/-!
What building a template comes to, in numbers: a block is laid out just when each of its fields
has a size and they do not reach past the end of the largest block, and then the fields lie end to
end in the order of their numbers.
-/

namespace Protowire.Sbe

open Support

variable {fd : FieldDescriptor} {offset size total schemaId version : Nat} {places : Places}
  {refusal : FieldDescriptor → Option Bytes} {fds others : List FieldDescriptor}
  {fields : List FieldTemplate} {pieces : List Piece} {md : Descriptor}
  {groups : List GroupTemplate} {tmpl : MessageTemplate}

inductive Slot where
  | mk (name : Bytes) (offset size : Nat) (members : List Slot)

mutual

def FieldTemplate.slot : FieldTemplate → Slot
  | .mk fd offset size _ composite => .mk fd.name offset size (slots composite)

def slots : List FieldTemplate → List Slot
  | [] => []
  | ft :: rest => ft.slot :: slots rest

end

abbrev Piece := Bytes × Nat × List Slot

def extent (pieces : List Piece) : Nat := (pieces.map (·.2.1)).sum

def endToEnd : Nat → List Piece → List Slot
  | _, [] => []
  | offset, (name, size, members) :: rest =>
    .mk name offset size members :: endToEnd (offset + size) rest

def Slot.name : Slot → Bytes
  | .mk name _ _ _ => name

theorem slots_names (fields : List FieldTemplate) :
    (slots fields).map Slot.name = fields.map (·.fd.name) := by
  induction fields with
  | nil => rfl
  | cons ft rest ih =>
    rw [slots, List.map_cons, List.map_cons, ih]
    cases ft
    rfl

theorem endToEnd_names (offset : Nat) (pieces : List Piece) :
    (endToEnd offset pieces).map Slot.name = pieces.map (·.1) := by
  induction pieces generalizing offset with
  | nil => rfl
  | cons p rest ih =>
    rw [endToEnd, List.map_cons, List.map_cons, ih]
    rfl

@[simp] theorem extent_cons (piece : Piece) (rest : List Piece) :
    extent (piece :: rest) = piece.2.1 + extent rest := by
  simp [extent]

def piece (fd : FieldDescriptor) : Option Piece :=
  (fieldShape fd).toOption.map fun shape => (fd.name, shape.1, slots shape.2.2)

theorem piece_name {p : Piece} (shaped : piece fd = some p) : p.1 = fd.name := by
  obtain ⟨shape, -, rfl⟩ := Option.map_eq_some_iff.mp shaped
  rfl

theorem endOfField_fits (fits : offset + size ≤ maxUint16) :
    endOfField offset size = .ok (offset + size) := if_neg (by omega)

theorem wrap_of_ok {α : Type} (place : Bytes) {status : Except Bytes α} {a : α}
    (success : status = .ok a) : wrap place status = .ok a := by
  rw [success]
  rfl

theorem piece_of_placeField {next : Nat} {ft : FieldTemplate}
    (placed : placeField places offset (part fd) = .ok (ft, next)) :
    ∃ size members, piece fd = some (fd.name, size, members) ∧ next = offset + size ∧
      next ≤ maxUint16 ∧ ft.slot = .mk fd.name offset size members := by
  have shaped := (placeField_shaped placed).2
  cases fd with
  | scalar info kind =>
    obtain ⟨primitive, size, -, rfl, ended, small⟩ := placeField_scalar placed
    refine ⟨size, [], ?_, ended, small, rfl⟩
    change fieldShape (.scalar info kind) = _ at shaped
    rw [piece, shaped]
    rfl
  | message info type =>
    obtain ⟨composite, size, -, rfl, ended, small⟩ := placeField_message placed
    refine ⟨size, slots composite, ?_, ended, small, rfl⟩
    change fieldShape (.message info type) = _ at shaped
    rw [piece, shaped]
    rfl

theorem placeField_of_piece (places : Places) {name : Bytes} {members : List Slot}
    (shaped : piece fd = some (name, size, members)) (fits : offset + size ≤ maxUint16) :
    ∃ ft, placeField places offset (part fd) = .ok (ft, offset + size) ∧
      ft.slot = .mk name offset size members := by
  obtain ⟨⟨size, encoding, composite⟩, shape, same⟩ := Option.map_eq_some_iff.mp shaped
  cases same
  cases fd with
  | scalar info kind =>
    cases encoded : fieldEncodingSize info kind with
    | error _ => simp [fieldShape, encoded, Except.map, Except.toOption] at shape
    | ok found =>
      simp only [fieldShape, encoded, Except.map, Except.toOption, Option.some.injEq] at shape
      cases shape
      exact ⟨.mk (.scalar info kind) offset found.2 (some found.1) [],
        except_bind_ok_iff.mpr ⟨found, wrap_of_ok _ encoded,
          except_bind_ok_iff.mpr ⟨_, wrap_of_ok _ (endOfField_fits fits), rfl⟩⟩, rfl⟩
  | message info type =>
    cases built : buildCompositeFields type with
    | error _ => simp [fieldShape, built, Except.map, Except.toOption] at shape
    | ok found =>
      simp only [fieldShape, built, Except.map, Except.toOption, Option.some.injEq] at shape
      cases shape
      refine ⟨.mk (.message info type) offset found.2 none found.1,
        except_bind_ok_iff.mpr ⟨found, ?_,
          except_bind_ok_iff.mpr ⟨_, wrap_of_ok _ (endOfField_fits fits), rfl⟩⟩, rfl⟩
      split
      · exact wrap_of_ok _ built
      · exact built

theorem pieces_of_placeFields (small : offset ≤ maxUint16)
    (placed : placeFields refusal places offset (fds.map part) = .ok (fields, total)) :
    ∃ pieces, fds.mapM piece = some pieces ∧ total = offset + extent pieces ∧
      total ≤ maxUint16 ∧ slots fields = endToEnd offset pieces := by
  induction fds generalizing offset total fields with
  | nil =>
    cases placed
    exact ⟨[], rfl, rfl, small, rfl⟩
  | cons fd rest ih =>
    obtain ⟨-, ft, next, others, first, following, rfl⟩ := placeFields_cons placed
    obtain ⟨size, members, shaped, rfl, fits, slot⟩ := piece_of_placeField first
    obtain ⟨pieces, shapes, rfl, bounded, lie⟩ := ih fits following
    refine ⟨(fd.name, size, members) :: pieces, ?_, ?_, bounded, ?_⟩
    · rw [List.mapM_cons, shaped, shapes]
      rfl
    · rw [extent_cons, Nat.add_assoc]
    · rw [slots, slot, lie, endToEnd]

theorem placeFields_admits
    (placed : placeFields refusal places offset (fds.map part) = .ok (fields, total)) :
    ∀ fd ∈ fds, refusal fd = none := by
  induction fds generalizing offset total fields with
  | nil => simp
  | cons fd rest ih =>
    obtain ⟨refused, ft, next, others, first, following, rfl⟩ := placeFields_cons placed
    rw [part_fd] at refused
    exact List.forall_mem_cons.mpr ⟨refused, ih following⟩

theorem placeFields_of_pieces (places : Places) (admitted : ∀ fd ∈ fds, refusal fd = none)
    (shapes : fds.mapM piece = some pieces) (fits : offset + extent pieces ≤ maxUint16) :
    ∃ fields, placeFields refusal places offset (fds.map part) =
        .ok (fields, offset + extent pieces) ∧ slots fields = endToEnd offset pieces := by
  induction fds generalizing offset pieces with
  | nil =>
    cases shapes
    exact ⟨[], rfl, rfl⟩
  | cons fd rest ih =>
    rw [mapM_some_iff] at shapes
    cases shapes with
    | @cons _ p _ others first following =>
      rw [extent_cons] at fits ⊢
      have room : offset + p.2.1 ≤ maxUint16 := by omega
      obtain ⟨ft, placed, slot⟩ := placeField_of_piece places first room
      obtain ⟨fields, later, lie⟩ := ih (fun fd member => admitted fd (by simp [member]))
        (mapM_some_iff.mpr following) (by omega : offset + p.2.1 + extent others ≤ maxUint16)
      refine ⟨ft :: fields, ?_, ?_⟩
      · simp only [List.map_cons, placeFields, part_fd, admitted fd (by simp)]
        refine except_bind_ok_iff.mpr ⟨_, placed, except_bind_ok_iff.mpr ⟨_, later, ?_⟩⟩
        rw [← Nat.add_assoc]
        rfl
      · rw [slots, slot, lie]
        rfl

theorem pieces_of_buildCompositeFields {subs : List FieldTemplate}
    (built : buildCompositeFields md = .ok (subs, size)) :
    ∃ pieces, (sortedFields md.fields).mapM piece = some pieces ∧ size = extent pieces ∧
      size ≤ maxUint16 ∧ slots subs = endToEnd 0 pieces := by
  cases md with
  | mk fullName templateId stale fields nested =>
    rw [buildCompositeFields, sortedParts_eq] at built
    obtain ⟨pieces, shapes, ended, bounded, lie⟩ := pieces_of_placeFields (Nat.zero_le _) built
    exact ⟨pieces, shapes, by omega, bounded, lie⟩

def BuildsGroup (fd : FieldDescriptor) (gt : GroupTemplate) : Prop :=
  ∃ info type, fd = .message info type ∧ buildGroupTemplate fd type = .ok gt

theorem pieces_of_buildGroupTemplate {gt : GroupTemplate}
    (built : buildGroupTemplate fd md = .ok gt) :
    ∃ pieces, (sortedFields md.fields).mapM piece = some pieces ∧
      gt.blockLength = extent pieces ∧ gt.blockLength ≤ maxUint16 ∧
      slots gt.fields = endToEnd 0 pieces ∧ gt.fd = fd := by
  obtain ⟨⟨fields, blockLength⟩, placed, built⟩ := except_bind_ok built
  cases built
  rw [sortedParts_eq] at placed
  obtain ⟨pieces, shapes, ended, bounded, lie⟩ := pieces_of_placeFields (Nat.zero_le _) placed
  exact ⟨pieces, shapes, by simpa using ended, bounded, lie, rfl⟩

def singular (fds : List FieldDescriptor) : List FieldDescriptor :=
  fds.filter fun fd => !fd.info.repeated

def plural (fds : List FieldDescriptor) : List FieldDescriptor :=
  fds.filter fun fd => fd.info.repeated

theorem pieces_of_placeMembers {mdName : Bytes} (small : offset ≤ maxUint16)
    (placed : placeMembers mdName offset (fds.map part) = .ok (fields, total, groups)) :
    ∃ pieces, (singular fds).mapM piece = some pieces ∧ total = offset + extent pieces ∧
      total ≤ maxUint16 ∧ slots fields = endToEnd offset pieces ∧
      List.Forall₂ BuildsGroup (plural fds) groups := by
  induction fds generalizing offset total fields groups with
  | nil =>
    cases placed
    exact ⟨[], rfl, rfl, small, rfl, .nil⟩
  | cons fd rest ih =>
    obtain ⟨-, -, ⟨info, type, gt, others, own, repeated, built, following, rfl⟩ |
      ⟨single, ft, next, others, first, following, rfl⟩⟩ := placeMembers_cons placed
    · rw [part_fd] at own repeated built
      subst own
      obtain ⟨pieces, shapes, ended, bounded, lie, related⟩ := ih small following
      rw [singular, plural, List.filter_cons_of_neg (by simpa using repeated),
        List.filter_cons_of_pos (by exact repeated)]
      exact ⟨pieces, shapes, ended, bounded, lie, .cons ⟨info, type, rfl, built⟩ related⟩
    · rw [part_fd] at single
      obtain ⟨size, members, shaped, rfl, fits, slot⟩ := piece_of_placeField first
      obtain ⟨pieces, shapes, rfl, bounded, lie, related⟩ := ih fits following
      rw [singular, plural, List.filter_cons_of_pos (by simpa using single),
        List.filter_cons_of_neg (by simpa using single)]
      refine ⟨(fd.name, size, members) :: pieces, ?_, ?_, bounded, ?_, related⟩
      · rw [List.mapM_cons, shaped]
        change (do let rest ← (singular rest).mapM piece; pure _) = _
        rw [shapes]
        rfl
      · rw [extent_cons, Nat.add_assoc]
      · rw [slots, slot, lie, endToEnd]

theorem placeMembers_admits {mdName : Bytes}
    (placed : placeMembers mdName offset (fds.map part) = .ok (fields, total, groups)) :
    ∀ fd ∈ fds, fd.info.isMap = false ∧ fd.info.oneof = none := by
  induction fds generalizing offset fields total groups with
  | nil => simp
  | cons fd rest ih =>
    obtain ⟨notMap, single, ⟨_, _, _, _, -, -, -, following, -⟩ |
      ⟨-, _, _, _, -, following, -⟩⟩ := placeMembers_cons placed <;>
    · rw [part_fd] at notMap single
      exact List.forall_mem_cons.mpr ⟨⟨notMap, single⟩, ih following⟩

theorem placeMembers_of_pieces (mdName : Bytes)
    (plain : ∀ fd ∈ fds, fd.info.isMap = false ∧ fd.info.oneof = none)
    (shapes : (singular fds).mapM piece = some pieces)
    (related : List.Forall₂ BuildsGroup (plural fds) groups)
    (fits : offset + extent pieces ≤ maxUint16) :
    ∃ fields, placeMembers mdName offset (fds.map part) =
        .ok (fields, offset + extent pieces, groups) ∧ slots fields = endToEnd offset pieces := by
  induction fds generalizing offset pieces groups with
  | nil =>
    cases shapes
    cases related
    exact ⟨[], rfl, rfl⟩
  | cons fd rest ih =>
    obtain ⟨notMap, alone⟩ := plain fd (by simp)
    have others := fun fd member => plain fd (List.mem_cons_of_mem _ member)
    rw [List.map_cons, placeMembers, part_fd]
    simp only [notMap, alone, Option.isSome_none, Bool.false_eq_true, if_false]
    cases repeated : fd.info.repeated with
    | true =>
      rw [singular, List.filter_cons_of_neg (by simpa using repeated)] at shapes
      rw [plural, List.filter_cons_of_pos (by exact repeated)] at related
      cases related with
      | cons first following =>
        obtain ⟨info, type, rfl, built⟩ := first
        obtain ⟨fields, later, lie⟩ := ih others shapes following fits
        refine ⟨fields, ?_, lie⟩
        exact except_bind_ok_iff.mpr ⟨_, built, except_bind_ok_iff.mpr ⟨_, later, rfl⟩⟩
    | false =>
      rw [singular, List.filter_cons_of_pos (by simpa using repeated), mapM_some_iff] at shapes
      rw [plural, List.filter_cons_of_neg (by simpa using repeated)] at related
      cases shapes with
      | @cons _ p _ remaining first following =>
        rw [extent_cons] at fits ⊢
        have room : offset + p.2.1 ≤ maxUint16 := by omega
        obtain ⟨ft, placed, slot⟩ := placeField_of_piece (messagePlaces mdName) first room
        obtain ⟨fields, later, lie⟩ := ih others (mapM_some_iff.mpr following) related
          (by omega : offset + p.2.1 + extent remaining ≤ maxUint16)
        refine ⟨ft :: fields, ?_, ?_⟩
        · refine except_bind_ok_iff.mpr ⟨_, placed, except_bind_ok_iff.mpr ⟨_, later, ?_⟩⟩
          rw [← Nat.add_assoc]
          rfl
        · rw [slots, slot, lie]
          rfl

theorem pieces_of_buildTemplate (built : buildTemplate md schemaId version = .ok tmpl) :
    md.templateId = some tmpl.templateId ∧ tmpl.templateId ≤ maxUint16 ∧
      ∃ pieces, (singular (sortedFields md.fields)).mapM piece = some pieces ∧
        tmpl.blockLength = extent pieces ∧ tmpl.blockLength ≤ maxUint16 ∧
        slots tmpl.fields = endToEnd 0 pieces ∧
        List.Forall₂ BuildsGroup (plural (sortedFields md.fields)) tmpl.groups := by
  rw [buildTemplate] at built
  cases tid : md.templateId with
  | none =>
    rw [tid] at built
    cases built
  | some id =>
    simp only [tid] at built
    split at built
    · cases built
    · rename_i small
      obtain ⟨⟨fields, blockLength, groups⟩, placed, built⟩ := except_bind_ok built
      cases built
      rw [sortedParts_eq] at placed
      obtain ⟨pieces, shapes, ended, bounded, lie, related⟩ :=
        pieces_of_placeMembers (Nat.zero_le _) placed
      exact ⟨rfl, by simpa using small, pieces, shapes, by simpa using ended, bounded, lie,
        related⟩

theorem buildTemplate_admits (built : buildTemplate md schemaId version = .ok tmpl) :
    ∀ fd ∈ md.fields, fd.info.isMap = false ∧ fd.info.oneof = none := by
  rw [buildTemplate] at built
  cases tid : md.templateId with
  | none =>
    rw [tid] at built
    cases built
  | some id =>
    simp only [tid] at built
    split at built
    · cases built
    · obtain ⟨_, placed, -⟩ := except_bind_ok built
      rw [sortedParts_eq] at placed
      exact fun fd member =>
        placeMembers_admits placed fd ((sortedFields_perm md.fields).mem_iff.mpr member)

theorem buildTemplate_of_pieces (schemaId version : Nat) {id : Nat} (tid : md.templateId = some id)
    (small : id ≤ maxUint16)
    (plain : ∀ fd ∈ md.fields, fd.info.isMap = false ∧ fd.info.oneof = none)
    (shapes : (singular (sortedFields md.fields)).mapM piece = some pieces)
    (related : List.Forall₂ BuildsGroup (plural (sortedFields md.fields)) groups)
    (fits : extent pieces ≤ maxUint16) :
    ∃ tmpl, buildTemplate md schemaId version = .ok tmpl ∧ tmpl.templateId = id ∧
      tmpl.blockLength = extent pieces ∧ slots tmpl.fields = endToEnd 0 pieces ∧
      tmpl.groups = groups := by
  have sorted := fun fd member => plain fd ((sortedFields_perm md.fields).mem_iff.mp member)
  rw [← Nat.zero_add (extent pieces)] at fits
  obtain ⟨fields, placed, lie⟩ := placeMembers_of_pieces md.fullName sorted shapes related fits
  rw [Nat.zero_add, ← sortedParts_eq] at placed
  refine ⟨⟨id, schemaId, version, extent pieces, fields, groups⟩, ?_, rfl, rfl, lie, rfl⟩
  rw [buildTemplate, tid]
  simp only [if_neg (Nat.not_lt.mpr small)]
  exact except_bind_ok_iff.mpr ⟨_, placed, rfl⟩

theorem sortedFields_ascending (ascending : Ordered FieldDescriptor.number fds) :
    sortedFields fds = fds := by
  have perm := sortedFields_perm fds
  refine Ordered.eq_of_perm ?_ ascending perm
  exact ordered_of_nodup (sortedFields_pairwise fds)
    ((perm.map FieldDescriptor.number).nodup_iff.mpr ascending.nodup)

theorem ordered_singular (single : ∀ fd ∈ fds, fd.info.repeated = false)
    (groups : ∀ fd ∈ others, fd.info.repeated = true)
    (ascending : Ordered FieldDescriptor.number fds) :
    singular (sortedFields (fds ++ others)) = fds := by
  have perm : (singular (sortedFields (fds ++ others))).Perm fds := by
    refine ((sortedFields_perm _).filter _).trans ?_
    rw [List.filter_append, List.filter_eq_self.mpr (by simpa using single),
      List.filter_eq_nil_iff.mpr (by simpa using groups), List.append_nil]
  refine Ordered.eq_of_perm ?_ ascending perm
  exact ordered_of_nodup ((sortedFields_pairwise _).filter _)
    ((perm.map FieldDescriptor.number).nodup_iff.mpr ascending.nodup)

theorem plural_perm (single : ∀ fd ∈ fds, fd.info.repeated = false)
    (groups : ∀ fd ∈ others, fd.info.repeated = true) :
    (plural (sortedFields (fds ++ others))).Perm others := by
  refine ((sortedFields_perm _).filter _).trans ?_
  rw [List.filter_append, List.filter_eq_nil_iff.mpr (by simpa using single),
    List.filter_eq_self.mpr groups, List.nil_append]

end Protowire.Sbe
