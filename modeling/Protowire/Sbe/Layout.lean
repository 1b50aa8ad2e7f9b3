import Protowire.Sbe.Template
import Protowire.Support.Ordered

/-!
How the place of a field comes about: the fields of a message stand in the order of their numbers,
and what a field takes there is settled by the field alone.
-/

namespace Protowire.Sbe

open Support

def fieldShape : FieldDescriptor → Except Bytes (Nat × Option Primitive × List FieldTemplate)
  | .scalar info kind => (fieldEncodingSize info kind).map fun (p, size) => (size, some p, [])
  | .message _ type => (buildCompositeFields type).map fun (subs, size) => (size, none, subs)

def FieldTemplate.Shaped (ft : FieldTemplate) : Prop :=
  fieldShape ft.fd = .ok (ft.size, ft.encoding, ft.composite)

theorem placeField_shaped {places : Places} {offset next : Nat} {fd : FieldDescriptor}
    {ft : FieldTemplate} (placed : placeField places offset (part fd) = .ok (ft, next)) :
    ft.fd = fd ∧ ft.Shaped := by
  cases fd with
  | scalar info kind =>
    obtain ⟨primitive, size, encoded, rfl, -⟩ := placeField_scalar placed
    refine ⟨rfl, ?_⟩
    change (fieldEncodingSize info kind).map _ = _
    rw [encoded]
    rfl
  | message info type =>
    obtain ⟨composite, size, built, rfl, -⟩ := placeField_message placed
    refine ⟨rfl, ?_⟩
    change (buildCompositeFields type).map _ = _
    rw [built]
    rfl

theorem parts_eq (fds : List FieldDescriptor) : parts fds = fds.map part := by
  induction fds with
  | nil => rfl
  | cons fd rest ih => rw [parts, ih, List.map_cons]

theorem part_fd (fd : FieldDescriptor) : (part fd).fd = fd := by
  cases fd <;> rfl

theorem sortedParts_eq (fds : List FieldDescriptor) :
    sortedParts (parts fds) = (sortedFields fds).map part := by
  have same : ∀ a ∈ fds, ∀ b ∈ fds,
      a.number ≤ b.number ↔ (part a).fd.number ≤ (part b).fd.number := by
    intro a _ b _
    rw [part_fd, part_fd]
  rw [parts_eq, sortedParts, sortedFields]
  exact (List.map_insertionSort _ _ part fds same).symm

theorem sortedFields_perm (fds : List FieldDescriptor) : (sortedFields fds).Perm fds :=
  List.perm_insertionSort _ _

theorem sortedFields_pairwise (fds : List FieldDescriptor) :
    (sortedFields fds).Pairwise fun a b => a.number ≤ b.number := by
  let below : FieldDescriptor → FieldDescriptor → Prop := fun a b => a.number ≤ b.number
  have : Std.Total below := ⟨fun a b => Nat.le_total a.number b.number⟩
  have : IsTrans FieldDescriptor below := ⟨fun _ _ _ => Nat.le_trans⟩
  exact List.pairwise_insertionSort below fds

theorem placeFields_shaped {refusal : FieldDescriptor → Option Bytes} {places : Places}
    {fds : List FieldDescriptor} {offset total : Nat} {fields : List FieldTemplate}
    (placed : placeFields refusal places offset (fds.map part) = .ok (fields, total)) :
    fields.map (·.fd) = fds ∧ ∀ ft ∈ fields, ft.Shaped := by
  induction fds generalizing offset total fields with
  | nil =>
    cases placed
    exact ⟨rfl, by simp⟩
  | cons fd rest ih =>
    obtain ⟨-, ft, next, others, first, following, rfl⟩ := placeFields_cons placed
    obtain ⟨field, shaped⟩ := placeField_shaped first
    obtain ⟨fds, shapes⟩ := ih following
    exact ⟨by rw [List.map_cons, field, fds], List.forall_mem_cons.mpr ⟨shaped, shapes⟩⟩

structure GroupTemplate.LaidOut (gt : GroupTemplate) (type : Descriptor) : Prop where
  fields : (gt.fields.map (·.fd)).Perm type.fields
  sorted : (gt.fields.map (·.fd)).Pairwise fun a b => a.number ≤ b.number
  shaped : ∀ ft ∈ gt.fields, ft.Shaped

theorem buildGroupTemplate_laidOut {fd : FieldDescriptor} {md : Descriptor} {gt : GroupTemplate}
    (built : buildGroupTemplate fd md = .ok gt) : gt.fd = fd ∧ gt.LaidOut md := by
  obtain ⟨⟨fields, blockLength⟩, placed, built⟩ := except_bind_ok built
  cases built
  rw [sortedParts_eq] at placed
  obtain ⟨fds, shaped⟩ := placeFields_shaped placed
  refine ⟨rfl, ?_, ?_, shaped⟩
  · rw [fds]
    exact sortedFields_perm _
  · rw [fds]
    exact sortedFields_pairwise _

theorem placeMembers_laidOut {mdName : Bytes} {fds : List FieldDescriptor} {offset total : Nat}
    {fields : List FieldTemplate} {groups : List GroupTemplate}
    (placed : placeMembers mdName offset (fds.map part) = .ok (fields, total, groups)) :
    fields.map (·.fd) = fds.filter (fun fd => !fd.info.repeated) ∧
      groups.map (·.fd) = fds.filter (fun fd => fd.info.repeated) ∧
      (∀ ft ∈ fields, ft.Shaped) ∧
      ∀ gt ∈ groups, ∃ info type, gt.fd = .message info type ∧ gt.LaidOut type := by
  induction fds generalizing offset total fields groups with
  | nil =>
    cases placed
    exact ⟨rfl, rfl, by simp, by simp⟩
  | cons fd rest ih =>
    obtain ⟨-, -, ⟨info, type, gt, others, own, repeated, built, following, rfl⟩ |
      ⟨single, ft, next, others, first, following, rfl⟩⟩ := placeMembers_cons placed
    · rw [part_fd] at own repeated built
      subst own
      obtain ⟨field, laidOut⟩ := buildGroupTemplate_laidOut built
      obtain ⟨singular, groupFds, shaped, laid⟩ := ih following
      refine ⟨?_, ?_, shaped, List.forall_mem_cons.mpr ⟨⟨info, type, field, laidOut⟩, laid⟩⟩
      · rw [singular, List.filter_cons_of_neg (by simpa using repeated)]
      · rw [List.map_cons, field, groupFds, List.filter_cons_of_pos (by exact repeated)]
    · rw [part_fd] at single
      obtain ⟨field, shape⟩ := placeField_shaped first
      obtain ⟨singular, groupFds, shaped, laid⟩ := ih following
      refine ⟨?_, ?_, List.forall_mem_cons.mpr ⟨shape, shaped⟩, laid⟩
      · rw [List.map_cons, field, singular, List.filter_cons_of_pos (by simpa using single)]
      · rw [groupFds, List.filter_cons_of_neg (by simpa using single)]

structure MessageTemplate.LaidOut (tmpl : MessageTemplate) (md : Descriptor) : Prop where
  fields : (tmpl.fields.map (·.fd)).Perm (md.fields.filter fun fd => !fd.info.repeated)
  groups : (tmpl.groups.map (·.fd)).Perm (md.fields.filter fun fd => fd.info.repeated)
  fieldsSorted : (tmpl.fields.map (·.fd)).Pairwise fun a b => a.number ≤ b.number
  groupsSorted : (tmpl.groups.map (·.fd)).Pairwise fun a b => a.number ≤ b.number
  shaped : ∀ ft ∈ tmpl.fields, ft.Shaped
  groupsLaidOut : ∀ gt ∈ tmpl.groups, ∃ info type, gt.fd = .message info type ∧ gt.LaidOut type

theorem buildTemplate_laidOut {md : Descriptor} {schemaId version : Nat} {tmpl : MessageTemplate}
    (built : buildTemplate md schemaId version = .ok tmpl) : tmpl.LaidOut md := by
  rw [buildTemplate] at built
  split at built
  · cases built
  split at built
  · cases built
  obtain ⟨⟨fields, blockLength, groups⟩, placed, built⟩ := except_bind_ok built
  cases built
  rw [sortedParts_eq] at placed
  obtain ⟨singular, groupFds, shaped, laidOut⟩ := placeMembers_laidOut placed
  refine ⟨?_, ?_, ?_, ?_, shaped, laidOut⟩
  · rw [singular]
    exact (sortedFields_perm _).filter _
  · rw [groupFds]
    exact (sortedFields_perm _).filter _
  · rw [singular]
    exact (sortedFields_pairwise _).filter _
  · rw [groupFds]
    exact (sortedFields_pairwise _).filter _

def Codec.Lays (c : Codec) (md : Descriptor) (tmpl : MessageTemplate) : Prop :=
  c.templateByName md.fullName = some tmpl ∧
    ∃ schemaId version, buildTemplate md schemaId version = .ok tmpl

end Protowire.Sbe
