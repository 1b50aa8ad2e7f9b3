import Protowire.Sbe.Placing

/-!
When a template can be built, and what its blocks are. The fields of a block stand in the order of
their numbers, and its length is the sum of what they take. A type is refused for its size exactly
when such a sum is past 16 bits; one that has no fields leaves a composite that has none either.
-/

namespace Protowire.Sbe

open Support

variable {fields : List FieldTemplate} {fds : List FieldDescriptor} {fd : FieldDescriptor}
  {md type : Descriptor} {ft : FieldTemplate} {info : FieldInfo} {kind : Kind} {total size : Nat}

def scalarExtent (info : FieldInfo) (kind : Kind) : Option Nat :=
  if kind.cppType = .string ∧ info.encoding = none then info.length
  else (fieldEncodingSize info kind).toOption.map (·.2)

mutual

def Descriptor.extent : Descriptor → Nat
  | .mk _ _ _ fields _ => fieldsExtent fields

def fieldsExtent : List FieldDescriptor → Nat
  | [] => 0
  | fd :: rest => fieldExtent fd + fieldsExtent rest

def fieldExtent : FieldDescriptor → Nat
  | .scalar info kind => (scalarExtent info kind).getD 0
  | .message _ type => type.extent

end

mutual

def Descriptor.inside : Descriptor → List Descriptor
  | .mk fullName templateId stale fields nested =>
    .mk fullName templateId stale fields nested :: fieldsInside fields

def fieldsInside : List FieldDescriptor → List Descriptor
  | [] => []
  | fd :: rest => fieldInside fd ++ fieldsInside rest

def fieldInside : FieldDescriptor → List Descriptor
  | .scalar _ _ => []
  | .message _ type => type.inside

end

def FieldDescriptor.sized : FieldDescriptor → Bool
  | .scalar info kind => (scalarExtent info kind).isSome
  | .message _ _ => true

def Descriptor.Layable (md : Descriptor) : Prop :=
  ∀ fd ∈ md.fields, compositeRefusal md.fullName fd = none ∧ fd.sized = true

def FieldDescriptor.Layable (fd : FieldDescriptor) : Prop :=
  fd.sized = true ∧ ∀ type ∈ fieldInside fd, type.Layable

def FieldDescriptor.Populated (fd : FieldDescriptor) : Prop :=
  ∀ type ∈ fieldInside fd, type.fields ≠ []

theorem Descriptor.induct_fields {holds : Descriptor → Prop}
    (step : ∀ md, (∀ info type, .message info type ∈ md.fields → holds type) → holds md)
    (md : Descriptor) : holds md :=
  step md fun info type _ => Descriptor.induct_fields step type
termination_by sizeOf md
decreasing_by
  have inner := List.sizeOf_lt_of_mem ‹_ ∈ md.fields›
  cases md
  simp only [Descriptor.fields, FieldDescriptor.message.sizeOf_spec, Descriptor.mk.sizeOf_spec] at *
  omega

theorem Descriptor.extent_eq (md : Descriptor) : md.extent = (md.fields.map fieldExtent).sum := by
  have sum (fds : List FieldDescriptor) : fieldsExtent fds = (fds.map fieldExtent).sum := by
    induction fds with
    | nil => rfl
    | cons fd rest ih => simp [fieldsExtent, ih]
  cases md
  exact sum _

theorem mem_fieldsInside : type ∈ fieldsInside fds ↔ ∃ fd ∈ fds, type ∈ fieldInside fd := by
  induction fds with
  | nil => simp [fieldsInside]
  | cons fd rest ih => simp [fieldsInside, ih]

theorem mem_inside : type ∈ md.inside ↔ type = md ∨ ∃ fd ∈ md.fields, type ∈ fieldInside fd := by
  cases md
  rw [Descriptor.inside, List.mem_cons, mem_fieldsInside]
  rfl

theorem extent_inside (within : type ∈ fieldInside fd) : type.extent ≤ fieldExtent fd := by
  cases fd with
  | scalar info kind => cases within
  | message info md =>
    rw [fieldExtent]
    change type ∈ md.inside at within
    induction md using Descriptor.induct_fields with
    | step md ih =>
      rcases mem_inside.mp within with rfl | ⟨fd, member, deeper⟩
      · exact Nat.le_refl _
      · have own : fieldExtent fd ≤ md.extent := by
          rw [Descriptor.extent_eq]
          exact List.le_sum_of_mem (List.mem_map_of_mem member)
        cases fd with
        | scalar info kind => cases deeper
        | message info inner => exact (ih info inner member deeper).trans own

theorem fieldEncodingSize_extent {p : Primitive}
    (sized : fieldEncodingSize info kind = .ok (p, size)) : scalarExtent info kind = some size := by
  rw [scalarExtent]
  split
  · rename_i string
    obtain ⟨string, unnamed⟩ := string
    simp only [fieldEncodingSize, unnamed, string] at sized
    cases given : info.length with
    | none => simp [given] at sized
    | some length =>
      simp only [given] at sized
      split at sized <;> cases sized
      rfl
  · rw [sized]
    rfl

theorem fieldEncodingSize_fits 
    (asked : scalarExtent info kind = some size) (small : size ≤ maxUint16) :
    ∃ p, fieldEncodingSize info kind = .ok (p, size) := by
  rw [scalarExtent] at asked
  split at asked
  · rename_i string
    obtain ⟨string, unnamed⟩ := string
    refine ⟨.char, ?_⟩
    simp only [fieldEncodingSize, unnamed, string, asked]
    rw [if_neg (by omega)]
  · cases encoded : fieldEncodingSize info kind with
    | error message => simp [encoded, Except.toOption] at asked
    | ok found =>
      rw [encoded] at asked
      cases asked
      exact ⟨found.1, rfl⟩

def Measured (fd : FieldDescriptor) : Prop :=
  (∀ p, piece fd = some p → fd.Layable ∧ p.2.1 = fieldExtent fd) ∧
    (fd.Layable → fieldExtent fd ≤ maxUint16 → ∃ p, piece fd = some p)

theorem exists_forall₂ {α β : Type} {related : α → β → Prop} {items : List α} :
    (∃ results, List.Forall₂ related items results) ↔ ∀ a ∈ items, ∃ b, related a b := by
  constructor
  · rintro ⟨results, all⟩
    induction all with
    | nil => simp
    | cons first _ ih => exact List.forall_mem_cons.mpr ⟨⟨_, first⟩, ih⟩
  · intro each
    induction items with
    | nil => exact ⟨[], .nil⟩
    | cons a rest ih =>
      obtain ⟨b, first⟩ := each a (by simp)
      obtain ⟨others, following⟩ := ih fun a member => each a (by simp [member])
      exact ⟨b :: others, .cons first following⟩

theorem pieces_measured {pieces : List Piece} (measured : ∀ fd ∈ fds, Measured fd)
    (shapes : fds.mapM piece = some pieces) :
    (∀ fd ∈ fds, fd.Layable) ∧ extent pieces = (fds.map fieldExtent).sum := by
  rw [mapM_some_iff] at shapes
  induction shapes with
  | nil => exact ⟨by simp, rfl⟩
  | cons first following ih =>
    obtain ⟨layable, size⟩ := (measured _ (List.mem_cons_self ..)).1 _ first
    obtain ⟨layables, sum⟩ := ih fun fd member => measured fd (List.mem_cons_of_mem _ member)
    exact ⟨List.forall_mem_cons.mpr ⟨layable, layables⟩, by simp [size, sum]⟩

theorem measured_pieces (measured : ∀ fd ∈ fds, Measured fd) (layable : ∀ fd ∈ fds, fd.Layable)
    (small : (fds.map fieldExtent).sum ≤ maxUint16) :
    ∃ pieces, fds.mapM piece = some pieces ∧ extent pieces = (fds.map fieldExtent).sum := by
  obtain ⟨pieces, shapes⟩ : ∃ pieces, List.Forall₂ (fun fd p => piece fd = some p) fds pieces :=
    exists_forall₂.mpr fun fd member => (measured fd member).2 (layable fd member)
      ((List.le_sum_of_mem (List.mem_map_of_mem member)).trans small)
  have shapes := mapM_some_iff.mpr shapes
  exact ⟨pieces, shapes, (pieces_measured measured shapes).2⟩

theorem placed_iff (measured : ∀ fd ∈ fds, Measured fd) (refusal : FieldDescriptor → Option Bytes)
    (places : Places) (size : Nat) :
    (∃ fields, placeFields refusal places 0 (sortedParts (parts fds)) = .ok (fields, size)) ↔
      (∀ fd ∈ fds, refusal fd = none ∧ fd.Layable) ∧
        size = (fds.map fieldExtent).sum ∧ size ≤ maxUint16 := by
  have perm := sortedFields_perm fds
  have sum := (perm.map fieldExtent).sum_eq
  have sorted : ∀ fd ∈ sortedFields fds, Measured fd := fun fd member =>
    measured fd (perm.mem_iff.mp member)
  rw [sortedParts_eq]
  constructor
  · rintro ⟨fields, placed⟩
    obtain ⟨pieces, shapes, rfl, small, -⟩ := pieces_of_placeFields (Nat.zero_le _) placed
    obtain ⟨layable, total⟩ := pieces_measured sorted shapes
    refine ⟨fun fd member => ?_, by omega, small⟩
    have listed := perm.mem_iff.mpr member
    exact ⟨placeFields_admits placed fd listed, layable fd listed⟩
  · rintro ⟨admitted, rfl, small⟩
    simp only [← perm.mem_iff] at admitted
    obtain ⟨pieces, shapes, total⟩ :=
      measured_pieces sorted (fun fd member => (admitted fd member).2) (by omega)
    obtain ⟨fields, placed, -⟩ := placeFields_of_pieces places
      (fun fd member => (admitted fd member).1) shapes (by omega : 0 + _ ≤ _)
    exact ⟨fields, by rw [placed, total, sum, Nat.zero_add]⟩

theorem layable_inside : (∀ type ∈ md.inside, type.Layable) ↔
    ∀ fd ∈ md.fields, compositeRefusal md.fullName fd = none ∧ fd.Layable := by
  simp only [mem_inside, FieldDescriptor.Layable]
  constructor
  · intro all fd member
    have own := all md (.inl rfl) fd member
    exact ⟨own.1, own.2, fun type within => all type (.inr ⟨fd, member, within⟩)⟩
  · rintro all type (rfl | ⟨fd, member, within⟩)
    · exact fun fd member => ⟨(all fd member).1, (all fd member).2.1⟩
    · exact (all fd member).2.2 type within

theorem populated_inside : (∀ type ∈ md.inside, type.fields ≠ []) ↔
    md.fields ≠ [] ∧ ∀ fd ∈ md.fields, fd.Populated := by
  simp only [mem_inside, FieldDescriptor.Populated]
  constructor
  · intro all
    exact ⟨all md (.inl rfl), fun fd member type within => all type (.inr ⟨fd, member, within⟩)⟩
  · rintro ⟨own, others⟩ type (rfl | ⟨fd, member, within⟩)
    · exact own
    · exact others fd member type within

theorem piece_eq {shape : Nat × Option Primitive × List FieldTemplate}
    (shaped : fieldShape fd = .ok shape) : piece fd = some (fd.name, shape.1, slots shape.2.2) := by
  rw [piece, shaped]
  rfl

theorem shape_of_piece {p : Piece} (shaped : piece fd = some p) :
    ∃ shape, fieldShape fd = .ok shape ∧ p.2.1 = shape.1 := by
  obtain ⟨shape, found, rfl⟩ := Option.map_eq_some_iff.mp shaped
  cases built : fieldShape fd with
  | error message => simp [built, Except.toOption] at found
  | ok other =>
    rw [built] at found
    exact ⟨other, rfl, by rw [Option.some.inj found]⟩

theorem measured_scalar (info : FieldInfo) (kind : Kind) : Measured (.scalar info kind) := by
  refine ⟨fun p shaped => ?_, fun layable small => ?_⟩
  · obtain ⟨shape, built, size⟩ := shape_of_piece shaped
    obtain ⟨⟨primitive, _⟩, encoded, rfl⟩ := except_map_ok built
    have asked := fieldEncodingSize_extent encoded
    exact ⟨⟨by simp [FieldDescriptor.sized, asked], by simp [fieldInside]⟩,
      by simp [size, fieldExtent, asked]⟩
  · obtain ⟨size, asked⟩ := Option.isSome_iff_exists.mp layable.1
    rw [fieldExtent, asked] at small
    obtain ⟨p, encoded⟩ := fieldEncodingSize_fits asked small
    exact ⟨_, piece_eq (by rw [fieldShape, encoded]; rfl)⟩

theorem measured (fd : FieldDescriptor) : Measured fd := by
  cases fd with
  | scalar info kind => exact measured_scalar info kind
  | message info md =>
    induction md using Descriptor.induct_fields generalizing info with
    | step md ih =>
      have inner : ∀ fd ∈ md.fields, Measured fd := by
        rintro (⟨info, kind⟩ | ⟨info, type⟩) member
        · exact measured_scalar info kind
        · exact ih info type member info
      have built (size : Nat) : (∃ subs, buildCompositeFields md = .ok (subs, size)) ↔
          (∀ type ∈ md.inside, type.Layable) ∧ size = md.extent ∧ size ≤ maxUint16 := by
        rw [layable_inside, Descriptor.extent_eq]
        cases md
        exact placed_iff inner _ _ size
      refine ⟨fun p shaped => ?_, fun layable small => ?_⟩
      · obtain ⟨shape, found, size⟩ := shape_of_piece shaped
        obtain ⟨⟨subs, total⟩, composite, rfl⟩ := except_map_ok found
        obtain ⟨layable, rfl, -⟩ := (built total).mp ⟨subs, composite⟩
        exact ⟨⟨rfl, layable⟩, size⟩
      · obtain ⟨subs, composite⟩ := (built md.extent).mpr ⟨layable.2, rfl, small⟩
        exact ⟨_, piece_eq (by rw [fieldShape, composite]; rfl)⟩

def Descriptor.GroupLayable (type : Descriptor) : Prop :=
  ∀ fd ∈ type.fields, groupRefusal type.fullName fd = none ∧ fd.Layable

structure Descriptor.Flawless (md : Descriptor) : Prop where
  id : ∃ tid ≤ maxUint16, md.templateId = some tid
  plain : ∀ fd ∈ md.fields, fd.info.isMap = false ∧ fd.info.oneof = none
  singular : ∀ fd ∈ singular md.fields, fd.Layable
  groups : ∀ fd ∈ plural md.fields, ∃ info type, fd = .message info type ∧ type.GroupLayable

def Descriptor.rootTotal (md : Descriptor) : Nat := ((singular md.fields).map fieldExtent).sum

def Descriptor.blockTotals (md : Descriptor) : List Nat :=
  md.rootTotal :: (fieldsInside md.fields).map Descriptor.extent

theorem buildsGroup_iff : (∃ gt, BuildsGroup fd gt) ↔
    ∃ info type, fd = .message info type ∧ type.GroupLayable ∧ type.extent ≤ maxUint16 := by
  have placed (type : Descriptor) (size : Nat) := placed_iff (fun fd (_ : fd ∈ type.fields) =>
    measured fd) (groupRefusal type.fullName) (groupPlaces type.fullName) size
  simp only [← Descriptor.extent_eq] at placed
  constructor
  · rintro ⟨gt, info, type, rfl, built⟩
    obtain ⟨⟨fields, size⟩, found, -⟩ := except_bind_ok built
    obtain ⟨layable, rfl, small⟩ := (placed type size).mp ⟨fields, found⟩
    exact ⟨info, type, rfl, layable, small⟩
  · rintro ⟨info, type, rfl, layable, small⟩
    obtain ⟨fields, found⟩ := (placed type type.extent).mpr ⟨layable, rfl, small⟩
    exact ⟨_, info, type, rfl, except_bind_ok_iff.mpr ⟨_, found, rfl⟩⟩

theorem blockTotals_iff
    (groups : ∀ fd ∈ plural md.fields, ∃ info type, fd = FieldDescriptor.message info type) :
    (∀ total ∈ md.blockTotals, total ≤ maxUint16) ↔
      md.rootTotal ≤ maxUint16 ∧ ∀ fd ∈ plural md.fields, fieldExtent fd ≤ maxUint16 := by
  rw [Descriptor.blockTotals, List.forall_mem_cons, List.forall_mem_map]
  refine and_congr_right fun root => ⟨fun all fd member => ?_, fun small type member => ?_⟩
  · obtain ⟨info, type, rfl⟩ := groups fd member
    exact all type (mem_fieldsInside.mpr
      ⟨_, List.mem_of_mem_filter member, mem_inside.mpr (.inl rfl)⟩)
  · obtain ⟨fd, listed, within⟩ := mem_fieldsInside.mp member
    have own := extent_inside within
    cases repeated : fd.info.repeated with
    | true => exact own.trans (small fd (List.mem_filter.mpr ⟨listed, repeated⟩))
    | false =>
      have single : fd ∈ singular md.fields := List.mem_filter.mpr ⟨listed, by simp [repeated]⟩
      have part : fieldExtent fd ≤ md.rootTotal :=
        List.le_sum_of_mem (List.mem_map_of_mem single)
      omega

theorem buildTemplate_iff (schemaId version : Nat) :
    (∃ tmpl, buildTemplate md schemaId version = .ok tmpl) ↔
      md.Flawless ∧ ∀ total ∈ md.blockTotals, total ≤ maxUint16 := by
  have perm := sortedFields_perm md.fields
  have singles : (singular (sortedFields md.fields)).Perm (singular md.fields) := perm.filter _
  have plurals : (plural (sortedFields md.fields)).Perm (plural md.fields) := perm.filter _
  have sum := (singles.map fieldExtent).sum_eq
  constructor
  · rintro ⟨tmpl, built⟩
    obtain ⟨tid, small, pieces, shapes, length, bounded, -, related⟩ := pieces_of_buildTemplate built
    obtain ⟨layable, total⟩ := pieces_measured (fun fd _ => measured fd) shapes
    have groups := exists_forall₂.mp ⟨_, related⟩
    simp only [buildsGroup_iff, plurals.mem_iff] at groups
    simp only [singles.mem_iff] at layable
    refine ⟨⟨⟨_, small, tid⟩, buildTemplate_admits built, layable, fun fd member => ?_⟩, ?_⟩
    · obtain ⟨info, type, own, layable, -⟩ := groups fd member
      exact ⟨info, type, own, layable⟩
    · refine (blockTotals_iff fun fd member => ?_).mpr ⟨?_, fun fd member => ?_⟩
      · obtain ⟨info, type, own, -⟩ := groups fd member
        exact ⟨info, type, own⟩
      · rw [Descriptor.rootTotal]
        omega
      · obtain ⟨info, type, rfl, -, small⟩ := groups fd member
        exact small
  · rintro ⟨flawless, totals⟩
    obtain ⟨root, small⟩ := (blockTotals_iff fun fd member => by
      obtain ⟨info, type, own, -⟩ := flawless.groups fd member
      exact ⟨info, type, own⟩).mp totals
    rw [Descriptor.rootTotal] at root
    obtain ⟨pieces, shapes, total⟩ := measured_pieces (fun fd _ => measured fd)
      (fun fd member => flawless.singular fd (singles.mem_iff.mp member)) (by omega)
    obtain ⟨groups, related⟩ : ∃ groups,
        List.Forall₂ BuildsGroup (plural (sortedFields md.fields)) groups := by
      refine exists_forall₂.mpr fun fd member => buildsGroup_iff.mpr ?_
      have listed := plurals.mem_iff.mp member
      obtain ⟨info, type, rfl, layable⟩ := flawless.groups fd listed
      exact ⟨info, type, rfl, layable, small _ listed⟩
    obtain ⟨tid, bounded, given⟩ := flawless.id
    obtain ⟨tmpl, built, -⟩ := buildTemplate_of_pieces schemaId version given bounded flawless.plain
      shapes related (by omega)
    exact ⟨tmpl, built⟩

def Increasing (fields : List FieldTemplate) : Prop := Ordered (fun ft => ft.fd.number) fields

inductive FieldTemplate.Ordered : FieldTemplate → Prop
  | mk {fd : FieldDescriptor} {offset size : Nat} {encoding : Option Primitive}
      {composite : List FieldTemplate} (small : offset + size ≤ maxUint16)
      (increasing : Increasing composite) (inner : ∀ ft ∈ composite, ft.Ordered) :
      Ordered (.mk fd offset size encoding composite)

inductive FieldTemplate.Full : FieldTemplate → Prop
  | scalar {info : FieldInfo} {kind : Kind} {offset size : Nat} {encoding : Option Primitive}
      {composite : List FieldTemplate} : Full (.mk (.scalar info kind) offset size encoding composite)
  | message {info : FieldInfo} {type : Descriptor} {offset size : Nat} {encoding : Option Primitive}
      {composite : List FieldTemplate} (present : composite ≠ []) (inner : ∀ ft ∈ composite, ft.Full) :
      Full (.mk (.message info type) offset size encoding composite)

/-- A block as it is to be: its fields in the order of their numbers, end to end from its start to
its length, within 16 bits, and so on down through their composites. -/
structure TiledBlock (fields : List FieldTemplate) (total : Nat) : Prop where
  tiled : Tiled 0 fields total
  sound : AllSound fields
  increasing : Increasing fields
  ordered : ∀ ft ∈ fields, ft.Ordered
  small : total ≤ maxUint16

def Deep (type : Descriptor) : Prop :=
  ∀ composite size, buildCompositeFields type = .ok (composite, size) →
    Increasing composite ∧ (∀ ft ∈ composite, ft.Ordered) ∧
      (composite ≠ [] ∧ (∀ ft ∈ composite, ft.Full) ↔ ∀ inner ∈ type.inside, inner.fields ≠ [])

theorem shaped_deep (deep : ∀ info type, ft.fd = .message info type → Deep type)
    (shaped : ft.Shaped) (small : ft.offset + ft.size ≤ maxUint16) :
    ft.Ordered ∧ (ft.Full ↔ ft.fd.Populated) := by
  obtain ⟨fd, offset, size, encoding, composite⟩ := ft
  cases fd with
  | scalar info kind =>
    obtain ⟨⟨p, _⟩, -, same⟩ := except_map_ok shaped
    cases same
    exact ⟨.mk small .nil (by simp),
      by simp [FieldDescriptor.Populated, fieldInside, FieldTemplate.fd], fun _ => .scalar⟩
  | message info type =>
    obtain ⟨⟨subs, total⟩, built, same⟩ := except_map_ok shaped
    cases same
    obtain ⟨increasing, ordered, full⟩ := deep info type rfl composite size built
    refine ⟨.mk small increasing ordered, Iff.trans ⟨?_, ?_⟩ full⟩
    · intro full
      cases full with
      | message present inner => exact ⟨present, inner⟩
    · exact fun ⟨present, inner⟩ => .message present inner

theorem Tiled.mem_le {offset stop : Nat} (tiled : Tiled offset fields stop) (member : ft ∈ fields) :
    ft.offset + ft.size ≤ stop := by
  induction fields generalizing offset with
  | nil => cases member
  | cons first rest ih =>
    obtain ⟨start, following⟩ := tiled
    rcases List.mem_cons.mp member with rfl | later
    · have := following.offset_le
      omega
    · exact ih following later

theorem increasing_of_sorted (sorted : (fields.map (·.fd)).Pairwise fun a b => a.number ≤ b.number)
    (distinct : Distinct fields) : Increasing fields := by
  rw [List.pairwise_map] at sorted
  exact ordered_of_nodup sorted distinct.1

theorem block_deep (deep : ∀ info type, .message info type ∈ fds → Deep type)
    (covers : (fields.map (·.fd)).Perm fds) (shaped : ∀ ft ∈ fields, ft.Shaped)
    (tiled : Tiled 0 fields total) (small : total ≤ maxUint16) :
    (∀ ft ∈ fields, ft.Ordered) ∧ ((∀ ft ∈ fields, ft.Full) ↔ ∀ fd ∈ fds, fd.Populated) := by
  have each : ∀ ft ∈ fields, ft.Ordered ∧ (ft.Full ↔ ft.fd.Populated) := fun ft member =>
    shaped_deep (fun info type own => deep info type
      (covers.mem_iff.mp (own ▸ List.mem_map_of_mem member))) (shaped ft member)
      ((tiled.mem_le member).trans small)
  refine ⟨fun ft member => (each ft member).1, ?_⟩
  simp only [← covers.mem_iff, List.forall_mem_map]
  exact forall₂_congr fun ft member => (each ft member).2

theorem deep (wellFormed : md.wellFormed = true) : Deep md := by
  induction md using Descriptor.induct_fields with
  | step md ih =>
    intro composite size built
    have inner := (Descriptor.wellFormed_fields wellFormed).2.2
    obtain ⟨block, -, covers, -⟩ := buildCompositeFields_sound md wellFormed composite size built
    obtain ⟨_, -, -, small, -⟩ := pieces_of_buildCompositeFields built
    have shaped : composite.map (·.fd) = sortedFields md.fields ∧ ∀ ft ∈ composite, ft.Shaped := by
      cases md
      rw [buildCompositeFields, sortedParts_eq] at built
      exact placeFields_shaped built
    obtain ⟨ordered, full⟩ := block_deep (fun info type member =>
      ih info type member (fieldsWellFormed_mem inner member)) covers shaped.2 block.tiled small
    refine ⟨increasing_of_sorted (shaped.1 ▸ sortedFields_pairwise _) block.distinct, ordered, ?_⟩
    have present : composite = [] ↔ md.fields = [] := by
      have length := covers.length_eq
      rw [List.length_map] at length
      rw [← List.length_eq_zero_iff, length, List.length_eq_zero_iff]
    rw [populated_inside, full, ne_eq, present]

theorem deep_fields (wellFormed : md.wellFormed = true) (info : FieldInfo) (type : Descriptor)
    (member : .message info type ∈ md.fields) : Deep type ∧ type.wellFormed = true := by
  have typed := fieldsWellFormed_mem (Descriptor.wellFormed_fields wellFormed).2.2 member
  exact ⟨deep typed, typed⟩

def Descriptor.Filled (md : Descriptor) : Prop :=
  (∀ fd ∈ singular md.fields, fd.Populated) ∧
    ∀ info type, .message info type ∈ plural md.fields → ∀ fd ∈ type.fields, fd.Populated

/-- The blocks of a template are tiled, and its composites have fields where their types do, and
only there. A message that has no other flaw is refused exactly when a block would be past 16
bits. -/
theorem template_blocks_iff {schemaId version : Nat} (wellFormed : md.wellFormed = true)
    (schema : schemaId ≤ maxUint16) (versioned : version ≤ maxUint16) :
    (∀ tmpl, buildTemplate md schemaId version = .ok tmpl →
      TiledBlock tmpl.fields tmpl.blockLength ∧
        (∀ gt ∈ tmpl.groups, TiledBlock gt.fields gt.blockLength) ∧
        ((∀ ft ∈ tmpl.fields, ft.Full) ∧ (∀ gt ∈ tmpl.groups, ∀ ft ∈ gt.fields, ft.Full) ↔
          md.Filled)) ∧
    ((∃ tmpl, buildTemplate md schemaId version = .ok tmpl) ↔
      md.Flawless ∧ ∀ total ∈ md.blockTotals, total ≤ maxUint16) := by
  refine ⟨fun tmpl built => ?_, buildTemplate_iff schemaId version⟩
  obtain ⟨sound, -⟩ := buildTemplate_sound wellFormed schema versioned built
  have laidOut := buildTemplate_laidOut built
  have types := deep_fields wellFormed
  obtain ⟨ordered, full⟩ := block_deep (fun info type member =>
    (types info type (List.mem_of_mem_filter member)).1) laidOut.fields laidOut.shaped
    sound.block.tiled sound.small.1
  have groups : ∀ gt ∈ tmpl.groups, TiledBlock gt.fields gt.blockLength ∧
      ∃ info type, gt.fd = .message info type ∧
        ((∀ ft ∈ gt.fields, ft.Full) ↔ ∀ fd ∈ type.fields, fd.Populated) := by
    intro gt member
    obtain ⟨info, type, own, laid⟩ := laidOut.groupsLaidOut gt member
    have listed : .message info type ∈ plural md.fields :=
      laidOut.groups.mem_iff.mp (own ▸ List.mem_map_of_mem member)
    have typed := (types info type (List.mem_of_mem_filter listed)).2
    have good := sound.groups gt member
    obtain ⟨ordered, full⟩ := block_deep (fun info type member =>
      (deep_fields typed info type member).1) laid.fields laid.shaped good.block.tiled good.small
    exact ⟨⟨good.block.tiled, good.block.sound, increasing_of_sorted laid.sorted good.block.distinct,
      ordered, good.small⟩, info, type, own, full⟩
  refine ⟨⟨sound.block.tiled, sound.block.sound,
    increasing_of_sorted laidOut.fieldsSorted sound.block.distinct, ordered, sound.small.1⟩,
    fun gt member => (groups gt member).1, and_congr full ⟨fun all info type listed => ?_,
      fun all gt member => ?_⟩⟩
  · obtain ⟨gt, member, own⟩ := List.mem_map.mp (laidOut.groups.mem_iff.mpr listed)
    obtain ⟨-, _, _, same, iff⟩ := groups gt member
    cases own.symm.trans same
    exact iff.mp (all gt member)
  · obtain ⟨-, info, type, own, iff⟩ := groups gt member
    exact iff.mpr (all info type (laidOut.groups.mem_iff.mp (own ▸ List.mem_map_of_mem member)))

def flagged (inner : List FieldDescriptor) : Descriptor :=
  .mk (text "Flagged") (some 1) false
    [.scalar { name := text "id", fullName := text "Flagged.id", number := 2 } .uint32,
      .message { name := text "flag", fullName := text "Flagged.flag", number := 1 }
        (.mk (text "Flag") none false inner [])] []

theorem flagged_blocks :
    let md := flagged [.scalar { name := text "on", fullName := text "Flag.on", number := 1 } .bool]
    ∃ tmpl, buildTemplate md 1 0 = .ok tmpl ∧ TiledBlock tmpl.fields tmpl.blockLength ∧
      ∀ ft ∈ tmpl.fields, ft.Full := by
  intro md
  obtain ⟨tmpl, built⟩ : ∃ tmpl, buildTemplate md 1 0 = .ok tmpl := ⟨_, rfl⟩
  obtain ⟨tiled, -, full⟩ := (template_blocks_iff (by decide) (by decide) (by decide)).1 tmpl built
  have filled : md.Filled := by
    simp [md, flagged, Descriptor.Filled, singular, plural, Descriptor.fields, FieldDescriptor.info,
      FieldDescriptor.Populated, fieldInside, fieldsInside, Descriptor.inside]
  exact ⟨tmpl, built, tiled, (full.mpr filled).1⟩

theorem flagged_composite :
    ∃ tmpl, buildTemplate (flagged []) 1 0 = .ok tmpl ∧ ∃ ft ∈ tmpl.fields, ¬ ft.Full := by
  refine ⟨_, rfl, _, List.mem_cons_self .., ?_⟩
  rintro ⟨⟩
  contradiction

end Protowire.Sbe
