import Protowire.Sbe.Declared

/-!
Importing a schema. The template of an imported message has the layout of the document where the
schema numbers its fields in the order it declares them and stays with what the importer reads.
By induction on how deep the composites nest.
-/

namespace Protowire.Sbe

open Support

variable {types : XMLTypes} {fields : List ProtoField} {c : XMLComposite} {m : ProtoMessage}
  {file : ProtoFile} {resolve : Bytes → Option TypeRef} {scope name : Bytes} {f : ProtoField}
  {fd : FieldDescriptor} {kind : Kind} {depth : Nat} {p : Piece} {d e : Xml}
  {fds : List FieldDescriptor}

theorem within_ok {α : Type} {place : Bytes} {result : Except Bytes α} {a : α}
    (success : within place result = .ok a) : result = .ok a :=
  except_mapError_ok success

def groupField (g : XMLGroup) : ProtoField :=
  { repeated := true, type := singularPascal g.name, name := camelToSnake g.name, number := g.id }

theorem compositeTypes_ok {number : Nat} {types : List XMLType}
    (written : compositeTypes number types = .ok fields) :
    List.Forall₂ (fun t f => ∃ r n, resolveType t = .ok r ∧
      f = Resolved.field r (camelToSnake t.name) n) types fields ∧
      fields.map (·.number) = List.range' number types.length := by
  induction types generalizing number fields with
  | nil =>
    cases written
    exact ⟨.nil, rfl⟩
  | cons t rest ih =>
    obtain ⟨r, resolved, written⟩ := except_bind_ok written
    obtain ⟨others, following, written⟩ := except_bind_ok written
    cases written
    obtain ⟨related, numbers⟩ := ih following
    exact ⟨.cons ⟨r, number, resolved, rfl⟩ related, by
      rw [List.map_cons, numbers, List.length_cons, List.range'_succ]
      rfl⟩

theorem compositeRefs_ok (number : Nat) (refs : List XMLRef) :
    List.Forall₂ (fun ref f => ∃ n, f = XMLRef.field ref n) refs (compositeRefs number refs) ∧
      (compositeRefs number refs).map (·.number) = List.range' number refs.length := by
  induction refs generalizing number with
  | nil => exact ⟨.nil, rfl⟩
  | cons ref rest ih =>
    obtain ⟨related, numbers⟩ := ih (number + 1)
    exact ⟨.cons ⟨number, rfl⟩ related, by
      rw [compositeRefs, List.map_cons, numbers, List.length_cons, List.range'_succ]
      rfl⟩

@[simp] theorem asField_fields (fields : List ProtoField) :
    (fields.map ProtoMember.field).filterMap ProtoMember.asField = fields := by
  induction fields with
  | nil => rfl
  | cons f rest ih => rw [List.map_cons, List.filterMap_cons, ih]; rfl

@[simp] theorem asMessage_fields (fields : List ProtoField) :
    (fields.map ProtoMember.field).filterMap ProtoMember.asMessage = [] := by
  induction fields with
  | nil => rfl
  | cons f rest ih => rw [List.map_cons, List.filterMap_cons, ih]; rfl

theorem compositeDeclaration_ok (written : compositeDeclaration c = .ok m) :
    m.name = c.name ∧ m.nested = [] ∧ ∃ types, compositeTypes 1 c.types = .ok types ∧
      m.fields = types ++ compositeRefs (1 + c.types.length) c.refs := by
  obtain ⟨types, resolved, written⟩ := except_bind_ok written
  cases written
  exact ⟨rfl, asMessage_fields _, types, within_ok resolved, asField_fields _⟩

theorem compositeDeclaration_numbers (written : compositeDeclaration c = .ok m) :
    (m.fields.map (·.number)).Pairwise (· < ·) := by
  obtain ⟨-, -, types, resolved, fields⟩ := compositeDeclaration_ok written
  rw [fields, List.map_append, (compositeTypes_ok resolved).2, (compositeRefs_ok _ _).2,
    List.range'_append_1]
  exact List.pairwise_lt_range'

def DeclaresGroup (types : XMLTypes) (g : XMLGroup) (nested : Bytes × List ProtoField) : Prop :=
  nested.1 = singularPascal g.name ∧
    List.Forall₂ (fun f pf => fieldDeclaration types f = .ok pf) g.fields nested.2

theorem groupDeclarations_ok {groups : List XMLGroup} {written : List (List ProtoMember)}
    (declared : List.Forall₂ (fun g ms => groupDeclaration types g = .ok ms) groups written) :
    written.flatten.filterMap ProtoMember.asField = groups.map groupField ∧
      List.Forall₂ (DeclaresGroup types) groups
        (written.flatten.filterMap ProtoMember.asMessage) := by
  induction declared with
  | nil => exact ⟨rfl, .nil⟩
  | cons first _ ih =>
    obtain ⟨fields, read, first⟩ := except_bind_ok first
    cases first
    rw [List.flatten_cons, List.filterMap_append, List.filterMap_append, ih.1]
    exact ⟨rfl, .cons ⟨rfl, mapM_ok_iff.mp (within_ok read)⟩ ih.2⟩

theorem messageDeclaration_ok {msg : XMLMessage} (written : messageDeclaration types msg = .ok m) :
    m.name = msg.name ∧ m.templateId = some msg.id ∧ ∃ fields,
      List.Forall₂ (fun f pf => fieldDeclaration types f = .ok pf) msg.fields fields ∧
      m.fields = fields ++ msg.groups.map groupField ∧
      List.Forall₂ (DeclaresGroup types) msg.groups m.nested := by
  obtain ⟨fields, readFields, written⟩ := except_bind_ok (within_ok written)
  obtain ⟨groups, readGroups, written⟩ := except_bind_ok written
  cases written
  obtain ⟨groupFields, nested⟩ := groupDeclarations_ok (mapM_ok_iff.mp readGroups)
  refine ⟨rfl, rfl, fields, mapM_ok_iff.mp readFields, ?_, ?_⟩
  · rw [ProtoMessage.fields, List.filterMap_append, asField_fields, groupFields]
  · rw [ProtoMessage.nested, List.filterMap_append, asMessage_fields]
    exact nested

structure WrittenFrom (schema : XMLSchema) (file : ProtoFile) : Prop where
  enums : file.enums = schema.types.enums.map enumDeclaration
  messages : ∃ composites messages, file.messages = composites ++ messages ∧
    List.Forall₂ (fun c m => compositeDeclaration c = .ok m)
      (schema.types.composites.filter fun c => !isFraming c.name) composites ∧
    List.Forall₂ (fun msg m => messageDeclaration schema.types msg = .ok m) schema.messages
      messages

theorem protoFile_writtenFrom {schema : XMLSchema} (imported : protoFile schema = .ok file) :
    WrittenFrom schema file := by
  obtain ⟨composites, writtenComposites, imported⟩ := except_bind_ok imported
  obtain ⟨messages, writtenMessages, imported⟩ := except_bind_ok imported
  cases imported
  exact ⟨rfl, composites, messages, rfl, mapM_ok_iff.mp writtenComposites,
    mapM_ok_iff.mp writtenMessages⟩

theorem linkField_info (linked : linkField resolve scope f = some fd) : fd.info = f.info scope := by
  unfold linkField at linked
  split at linked <;> cases linked <;> rfl

theorem linkField_scalar (type : resolve f.type = some (.scalar kind))
    (linked : linkField resolve scope f = some fd) : fd = .scalar (f.info scope) kind := by
  rw [linkField, type] at linked
  cases linked
  rfl

theorem linkField_depth (linked : linkField (file.typeNamed depth m) scope f = some fd) :
    ∃ k, depth = k + 1 := by
  cases depth with
  | zero => rw [linkField, ProtoFile.typeNamed] at linked; cases linked
  | succ k => exact ⟨k, rfl⟩

theorem typeNamed_scalar (found : Kind.ofTypeName name = some kind) :
    file.typeNamed (depth + 1) m name = some (.scalar kind) := by
  rw [ProtoFile.typeNamed]
  simp only [found]

theorem piece_scalar (info : FieldInfo) (kind : Kind) :
    piece (.scalar info kind) =
      ((fieldEncodingSize info kind).toOption.map (·.2)).map fun size => (info.name, size, []) := by
  rw [piece, fieldShape]
  cases fieldEncodingSize info kind <;> rfl

theorem resolved_piece {number : Nat} {t : XMLType} {r : Resolved} {p : Primitive}
    (resolved : resolveType t = .ok r) (primitive : Primitive.declared t.primitiveType = some p)
    (linked : linkField (file.typeNamed (depth + 1) m) scope (r.field name number) = some fd) :
    piece fd = if p.bytes * max 1 t.length ≤ maxUint16 then
      some (name, p.bytes * max 1 t.length, []) else none := by
  obtain ⟨kind, found, sized⟩ := resolveType_size resolved primitive
  obtain rfl := linkField_scalar (f := r.field name number) (typeNamed_scalar found) linked
  rw [piece_scalar, sized]
  split <;> rfl

theorem piece_message {info : FieldInfo} {type : Descriptor}
    (shaped : piece (.message info type) = some p) :
    ∃ subs size, buildCompositeFields type = .ok (subs, size) ∧ p = (info.name, size, slots subs) := by
  rw [piece, fieldShape] at shaped
  cases built : buildCompositeFields type with
  | error _ =>
    rw [built] at shaped
    cases shaped
  | ok found =>
    rw [built] at shaped
    cases shaped
    exact ⟨found.1, found.2, rfl, rfl⟩

theorem ofTypeName_bytes {p : Primitive} (found : Kind.ofTypeName p.encodingName = some kind)
    {info : FieldInfo} (unnamed : info.encoding = none) :
    fieldEncodingSize info kind = .ok (p, p.bytes) := by
  have cases_ : (p = .int32 ∧ kind = .int32) ∨ (p = .int64 ∧ kind = .int64) ∨
      (p = .uint32 ∧ kind = .uint32) ∨ (p = .uint64 ∧ kind = .uint64) ∨
      (p = .float ∧ kind = .float) ∨ (p = .double ∧ kind = .double) := by
    revert found
    cases p <;> cases kind <;> decide
  rcases cases_ with ⟨rfl, rfl⟩ | ⟨rfl, rfl⟩ | ⟨rfl, rfl⟩ | ⟨rfl, rfl⟩ | ⟨rfl, rfl⟩ | ⟨rfl, rfl⟩
  all_goals
    simp only [fieldEncodingSize, unnamed]
    rfl

section Imported

variable {root : Xml} {schema : XMLSchema} {file : ProtoFile} (plain : PlainSchema root)
  (read : ReadFrom root schema) (written : WrittenFrom schema file)

include plain in
theorem declared_of_mem (member : d ∈ declarations root)
    (used : ∀ other, declared root (d.attr "name") = some other → Used root other) :
    declared root (d.attr "name") = some d := by
  cases target : declared root (d.attr "name") with
  | none => exact absurd rfl (declared_none target member)
  | some other =>
    rw [plain.distinct other (used other target) d member (declared_some target).2.symm]

include read written in
theorem message_origin (member : m ∈ file.messages) :
    (∃ d ∈ declarationsOf root "composite", ∃ c, parseComposite d = .ok c ∧
      compositeDeclaration c = .ok m ∧ d.attr "name" = m.name) ∨
    ∃ e ∈ root.childrenNamed "message", e.attr "name" = m.name := by
  obtain ⟨composites, messages, all, fromComposites, fromMessages⟩ := written.messages
  rw [all, List.mem_append] at member
  rcases member with composite | message
  · obtain ⟨c, listed, declares⟩ := forall₂_mem_right fromComposites composite
    obtain ⟨d, present, parsed⟩ :=
      forall₂_mem_right read.composites (List.mem_of_mem_filter listed)
    refine .inl ⟨d, present, c, parsed, declares, ?_⟩
    rw [← (parseComposite_ok parsed).1, (compositeDeclaration_ok declares).1]
  · obtain ⟨msg, listed, declares⟩ := forall₂_mem_right fromMessages message
    obtain ⟨e, present, parsed⟩ := forall₂_mem_right read.messages listed
    refine .inr ⟨e, present, ?_⟩
    rw [← (parseMessage_ok parsed).1, (messageDeclaration_ok declares).1]

include read written in
theorem enum_origin (listed : file.enums.any (·.name = name) = true) :
    ∃ d ∈ declarationsOf root "enum", d.attr "name" = name := by
  rw [written.enums, read.enums] at listed
  simpa [enumDeclaration, parseEnum] using listed

def CompositesLie (root : Xml) (file : ProtoFile) (depth : Nat) : Prop :=
  ∀ d ∈ declarationsOf root "composite", Used root d → ∀ c m fullName md subs size,
    parseComposite d = .ok c → compositeDeclaration c = .ok m →
    linkMessage (file.typeNamed depth m) fullName m = some md →
    buildCompositeFields md = .ok (subs, size) →
    shapeOf root (2 * depth + 2) d = some (size, slots subs)

structure Refers (root : Xml) (scope : ProtoMessage) (name : Bytes) : Prop where
  plain : isReferable root name = true
  used : ∀ d, declared root name = some d → Used root d
  free : scope.nested.find? (·.1 = name) = none

include plain read written in
theorem referred_piece (composites : CompositesLie root file depth) (unannotated : f.option = .none)
    (refers : Refers root m f.type)
    (linked : linkField (file.typeNamed (depth + 1) m) scope f = some fd)
    (shaped : piece fd = some p) :
    namedShape root (shapeOf root (2 * depth + 2)) f.type = some p.2 := by
  have unnamed : (f.info scope).encoding = none := by rw [ProtoField.info, unannotated]
  rw [linkField, ProtoFile.typeNamed] at linked
  cases target : declared root f.type with
  | none =>
    have primitive := refers.plain
    simp only [isReferable, target, Bool.and_eq_true, List.all_eq_true, decide_eq_true_eq] at primitive
    obtain ⟨q, found⟩ := Option.isSome_iff_exists.mp primitive.1
    rw [namedShape, target, found]
    cases scalar : Kind.ofTypeName f.type with
    | some kind =>
      simp only [scalar] at linked
      cases linked
      rw [Primitive.declared_some found] at scalar
      rw [piece_scalar, ofTypeName_bytes scalar unnamed] at shaped
      cases shaped
      rfl
    | none =>
      exfalso
      have noEnum : file.enums.any (·.name = f.type) = false := by
        by_contra listed
        obtain ⟨d, member, name⟩ := enum_origin read written (by simpa using listed)
        exact declared_none target (mem_declarationsOf member).1 name
      have noMessage : file.messages.find? (·.name = f.type) = none := by
        rw [List.find?_eq_none]
        intro other member same
        simp only [decide_eq_true_eq] at same
        obtain ⟨d, present, -, -, -, name⟩ | ⟨e, present, name⟩ :=
          message_origin read written member
        · exact declared_none target (mem_declarationsOf present).1 (name.trans same)
        · exact primitive.2 e present (name.trans same)
      simp only [scalar, refers.free, noEnum, noMessage, Bool.false_eq_true, if_false] at linked
      cases linked
  | some d =>
    have other : d.tag ≠ text "type" := by
      have := refers.plain
      simpa only [isReferable, target, decide_eq_true_eq] using this
    obtain ⟨member, name⟩ := declared_some target
    have used := refers.used d target
    have scalar : Kind.ofTypeName f.type = none := by
      rw [← name]
      exact ((plain.declarations d used).named other).1
    simp only [scalar, refers.free] at linked
    rw [namedShape, target]
    cases listed : file.enums.any (·.name = f.type) with
    | true =>
      obtain ⟨e, present, same⟩ := enum_origin read written listed
      obtain ⟨known, tag⟩ := mem_declarationsOf present
      obtain rfl := plain.distinct d used e known (same.trans name.symm)
      simp only [listed, if_true] at linked
      cases linked
      rw [piece_scalar, fieldEncodingSize, unnamed] at shaped
      cases shaped
      change elementShape _ _ _ = _
      rw [elementShape, if_neg other, if_pos (.inl tag),
        (plain.declarations e used).enum tag]
      rfl
    | false =>
      simp only [listed, Bool.false_eq_true, if_false] at linked
      cases found : file.messages.find? (·.name = f.type) with
      | none =>
        simp only [found] at linked
        cases linked
      | some target_ =>
        simp only [found] at linked
        have called := List.find?_some found
        simp only [decide_eq_true_eq] at called
        obtain ⟨e, present, c, parsed, declares, same⟩ | ⟨e, present, same⟩ :=
          message_origin read written (List.mem_of_find?_eq_some found)
        · obtain rfl := plain.distinct d used e (mem_declarationsOf present).1
            (same.trans (called.trans name.symm))
          cases md : linkMessage (file.typeNamed depth target_)
              (file.qualified target_.name) target_ with
          | none =>
            rw [md] at linked
            cases linked
          | some type =>
            rw [md] at linked
            cases linked
            obtain ⟨subs, size, built, rfl⟩ := piece_message shaped
            exact composites e present used c target_ _ type subs size parsed declares md built
        · exact absurd (same.trans (called.trans name.symm)) (plain.named d used other e present)

def DeclaresMember (e : Xml) (f : ProtoField) : Prop :=
  (e.tag = text "type" ∧ ∃ t r n, parseType e = .ok t ∧ resolveType t = .ok r ∧
      f = Resolved.field r (camelToSnake t.name) n) ∨
    e.tag = text "ref" ∧ ∃ n, f = (parseRef e).field n

theorem tag_of_childrenNamed {child : Xml} {name : String} (member : child ∈ e.childrenNamed name) :
    child.tag = text name := by
  simpa using List.of_mem_filter member

theorem split_members {elements : List Xml}
    (known : ∀ e ∈ elements, e.tag = text "type" ∨ e.tag = text "ref")
    (ordered : elements.Pairwise fun a b => a.tag = text "ref" → b.tag = text "ref") :
    elements = elements.filter (·.tag = text "type") ++ elements.filter (·.tag = text "ref") := by
  have apart : text "type" ≠ text "ref" := by decide
  induction elements with
  | nil => rfl
  | cons e rest ih =>
    obtain ⟨first, following⟩ := List.pairwise_cons.mp ordered
    have following := ih (fun e member => known e (by simp [member])) following
    rcases known e (by simp) with type | ref
    · rw [List.filter_cons_of_pos (by simpa using type),
        List.filter_cons_of_neg (by simpa [type] using apart), List.cons_append, ← following]
    · have refs : ∀ b ∈ rest, b.tag = text "ref" := fun b member => first b member ref
      rw [List.filter_eq_nil_iff.mpr, List.nil_append, List.filter_eq_self.mpr]
      · simpa [ref] using refs
      · intro b member
        rcases List.mem_cons.mp member with rfl | later
        · simpa [ref] using apart.symm
        · simpa [refs b later] using apart.symm

theorem PlainComposite.elements_eq {c : Xml} (good : PlainComposite root c) :
    c.elements = c.childrenNamed "type" ++ c.childrenNamed "ref" :=
  split_members good.known good.ordered

theorem compositeDeclaration_members (parsed : parseComposite d = .ok c)
    (declares : compositeDeclaration c = .ok m) :
    List.Forall₂ DeclaresMember (d.childrenNamed "type" ++ d.childrenNamed "ref") m.fields := by
  obtain ⟨-, types, refs⟩ := parseComposite_ok parsed
  obtain ⟨-, -, fields, resolved, all⟩ := compositeDeclaration_ok declares
  rw [all]
  refine List.rel_append ?_ ?_
  · have tagged : List.Forall₂ (fun e t => e.tag = text "type" ∧ parseType e = .ok t)
        (d.childrenNamed "type") c.types :=
      (List.forall₂_and_left _ _).mpr ⟨fun e member => tag_of_childrenNamed member, types⟩
    refine forall₂_comp ?_ tagged (compositeTypes_ok resolved).1
    rintro e t f ⟨tag, read⟩ ⟨r, n, resolves, rfl⟩
    exact .inl ⟨tag, t, r, n, read, resolves, rfl⟩
  · have tagged : List.Forall₂ (fun e ref => e.tag = text "ref" ∧ parseRef e = ref)
        (d.childrenNamed "ref") c.refs := by
      rw [refs, List.forall₂_map_right_iff, List.forall₂_same]
      exact fun e member => ⟨tag_of_childrenNamed member, rfl⟩
    refine forall₂_comp ?_ tagged (compositeRefs_ok _ _).1
    rintro e ref f ⟨tag, rfl⟩ ⟨n, rfl⟩
    exact .inr ⟨tag, n, rfl⟩

theorem linked_numbers
    (linked : List.Forall₂ (fun f fd => linkField resolve scope f = some fd) fields fds) :
    fields.map (·.number) = fds.map FieldDescriptor.number := by
  refine map_eq_of_forall₂ (linked.imp ?_)
  intro f fd link
  rw [FieldDescriptor.number, linkField_info link]
  rfl

theorem sortedFields_linked
    (linked : List.Forall₂ (fun f fd => linkField resolve scope f = some fd) fields fds)
    (ascending : (fields.map (·.number)).Pairwise (· < ·)) : sortedFields fds = fds := by
  rw [linked_numbers linked, List.pairwise_map] at ascending
  exact sortedFields_ascending ascending

theorem piece_linked (linked : linkField resolve scope f = some fd) (shaped : piece fd = some p) :
    p.1 = f.name := by
  rw [piece_name shaped, FieldDescriptor.name, linkField_info linked]
  rfl

include plain read written in
theorem member_piece (composites : CompositesLie root file depth) (flat : m.nested = [])
    (used : Used root d) (tagged : d.tag = text "composite") (good : PlainComposite root d)
    (member : e ∈ d.childrenNamed "type" ++ d.childrenNamed "ref") (declares : DeclaresMember e f)
    (linked : linkField (file.typeNamed (depth + 1) m) scope f = some fd)
    (shaped : piece fd = some p) : memberPiece (shapeOf root (2 * depth + 3)) e = some p := by
  have name := piece_linked linked shaped
  rw [List.mem_append] at member
  rw [memberPiece, shapeOf]
  rcases declares with ⟨tag, t, r, n, parsed, resolved, rfl⟩ | ⟨tag, n, rfl⟩
  · have type : e ∈ d.childrenNamed "type" := by
      refine member.resolve_right fun ref => ?_
      rw [tag_of_childrenNamed ref] at tag
      revert tag
      decide
    have simple := good.types e type
    obtain ⟨called, primitiveType, -⟩ := parseType_ok parsed
    obtain ⟨q, primitive⟩ := Option.isSome_iff_exists.mp simple.1
    rw [← primitiveType] at primitive
    rw [resolved_piece resolved primitive linked] at shaped
    rw [elementShape, if_pos tag, typeSize_eq simple parsed primitive]
    split at shaped
    · cases shaped
      rw [called]
      rfl
    · cases shaped
  · have ref : e ∈ d.childrenNamed "ref" := by
      refine member.resolve_left fun type => ?_
      rw [tag_of_childrenNamed type] at tag
      revert tag
      decide
    have refers : Refers root m (parseRef e).type :=
      ⟨good.refs e ref, fun _ named => .ref used tagged ref named, by rw [flat]; rfl⟩
    have shape := referred_piece plain read written composites rfl refers linked shaped
    have notType : e.tag ≠ text "type" := by rw [tag]; decide
    have notEnum : ¬ (e.tag = text "enum" ∨ e.tag = text "set") := by rw [tag]; decide
    rw [elementShape, if_neg notType, if_neg notEnum, if_pos tag]
    change (namedShape root (shapeOf root (2 * depth + 2)) (parseRef e).type).map _ = _
    change namedShape root _ (parseRef e).type = _ at shape
    rw [shape, Option.map_some]
    exact congrArg some (Prod.ext name.symm rfl)

include plain read written in
theorem compositesLie_step (lower : ∀ k, depth = k + 1 → CompositesLie root file k) :
    CompositesLie root file depth := by
  intro d member used c m fullName md subs size parsed declares linked built
  obtain ⟨known, tag⟩ := mem_declarationsOf member
  have good := (plain.declarations d used).composite tag
  obtain ⟨-, flat, -⟩ := compositeDeclaration_ok declares
  obtain ⟨fields, linkedFields, linked⟩ := Option.bind_eq_some_iff.mp linked
  obtain ⟨nested, -, linked⟩ := Option.bind_eq_some_iff.mp linked
  cases linked
  rw [mapM_some_iff] at linkedFields
  obtain ⟨pieces, shapes, rfl, -, lie⟩ := pieces_of_buildCompositeFields built
  rw [Descriptor.fields, sortedFields_linked linkedFields
    (compositeDeclaration_numbers declares)] at shapes
  have members : d.elements.mapM (memberPiece (shapeOf root (2 * depth + 1))) = some pieces := by
    rw [good.elements_eq]
    refine mapM_some_of_forall₂ ?_ shapes
    have all := (List.forall₂_and_left _ _).mpr
      ⟨fun e (member : e ∈ d.childrenNamed "type" ++ d.childrenNamed "ref") => member,
        compositeDeclaration_members parsed declares⟩
    refine forall₂_comp ?_ all linkedFields
    rintro e f fd ⟨member, drawn⟩ link p shaped
    obtain ⟨k, rfl⟩ := linkField_depth link
    exact member_piece plain read written (lower k rfl) flat used tag good member drawn link shaped
  have notType : d.tag ≠ text "type" := by rw [tag]; decide
  have notEnum : ¬ (d.tag = text "enum" ∨ d.tag = text "set") := by rw [tag]; decide
  have notRef : d.tag ≠ text "ref" := by rw [tag]; decide
  rw [shapeOf, elementShape, if_neg notType, if_neg notEnum, if_neg notRef, if_pos tag, members, lie]
  rfl

include plain read written in
theorem compositesLie (depth : Nat) : CompositesLie root file depth := by
  induction depth with
  | zero => exact compositesLie_step plain read written fun k same => by cases same
  | succ depth ih => exact compositesLie_step plain read written fun k same => by cases same; exact ih

include read in
theorem isEnumOrComposite_origin (listed : schema.types.isEnumOrComposite name = true) :
    ∃ d ∈ declarations root, d.tag ≠ text "type" ∧ d.attr "name" = name := by
  rw [XMLTypes.isEnumOrComposite, Bool.or_eq_true] at listed
  rcases listed with enum | composite
  · obtain ⟨en, member, same⟩ := List.any_eq_true.mp enum
    rw [read.enums] at member
    obtain ⟨d, present, rfl⟩ := List.mem_map.mp member
    obtain ⟨known, tag⟩ := mem_declarationsOf present
    exact ⟨d, known, by rw [tag]; decide, of_decide_eq_true same⟩
  · obtain ⟨c, member, same⟩ := List.any_eq_true.mp composite
    simp only [decide_eq_true_eq] at same
    obtain ⟨d, present, parsed⟩ := forall₂_mem_right read.composites member
    obtain ⟨known, tag⟩ := mem_declarationsOf present
    exact ⟨d, known, by rw [tag]; decide, by rw [← same, (parseComposite_ok parsed).1]⟩

include read in
theorem typeNamed_origin {t : XMLType} (found : schema.types.typeNamed name = some t) :
    (∃ d ∈ declarationsOf root "type", parseType d = .ok t ∧ d.attr "name" = name) ∨
      (∃ p : Primitive, t = { name := p.encodingName, primitiveType := p.encodingName } ∧
        name = p.encodingName) ∧ ∀ d ∈ declarationsOf root "type", d.attr "name" ≠ name := by
  rw [XMLTypes.typeNamed, List.reverse_append, List.find?_append] at found
  cases own : schema.types.types.reverse.find? (·.name = name) with
  | some t' =>
    rw [own] at found
    cases found
    have same := List.find?_some own
    have member := List.mem_of_find?_eq_some own
    simp only [decide_eq_true_eq, List.mem_reverse] at same member
    obtain ⟨d, present, parsed⟩ := forall₂_mem_right read.types member
    exact .inl ⟨d, present, parsed, by rw [← same, (parseType_ok parsed).1]⟩
  | none =>
    rw [own, Option.none_or] at found
    have same := List.find?_some found
    have member := List.mem_of_find?_eq_some found
    simp only [decide_eq_true_eq, List.mem_reverse, builtinTypes, List.mem_map] at same member
    obtain ⟨p, -, rfl⟩ := member
    refine .inr ⟨⟨p, rfl, same.symm⟩, fun d present called => ?_⟩
    obtain ⟨t, listed, parsed⟩ := forall₂_mem_left read.types present
    have absent := List.find?_eq_none.mp own t (by simpa using listed)
    rw [(parseType_ok parsed).1, called] at absent
    simp at absent

include read in
theorem typeNamed_none (absent : schema.types.typeNamed name = none) :
    Primitive.declared name = none ∧ ∀ d ∈ declarationsOf root "type", d.attr "name" ≠ name := by
  rw [XMLTypes.typeNamed, List.find?_eq_none] at absent
  constructor
  · cases found : Primitive.declared name with
    | none => rfl
    | some p =>
      exfalso
      obtain rfl := Primitive.declared_some found
      refine absent { name := p.encodingName, primitiveType := p.encodingName } ?_ (by simp)
      rw [List.mem_reverse, List.mem_append]
      exact .inl (List.mem_map.mpr ⟨p, by cases p <;> decide, rfl⟩)
  · intro d present called
    obtain ⟨t, listed, parsed⟩ := forall₂_mem_left read.types present
    refine absent t (by simp [listed]) ?_
    rw [(parseType_ok parsed).1, called]
    simp

theorem fieldDeclaration_ok {f : XMLField} {pf : ProtoField}
    (declares : fieldDeclaration types f = .ok pf) :
    pf.name = camelToSnake f.name ∧ pf.number = f.id ∧ pf.repeated = false := by
  rw [fieldDeclaration] at declares
  split at declares
  · cases declares
    exact ⟨rfl, rfl, rfl⟩
  · split at declares
    · obtain ⟨r, -, declares⟩ := except_bind_ok declares
      cases declares
      exact ⟨rfl, rfl, rfl⟩
    · cases declares
      exact ⟨rfl, rfl, rfl⟩

/-- The declaration that names the type of a field is one the messages lead to, and no type declared
in the message hides it. -/
structure Reaches (root : Xml) (m : ProtoMessage) (e : Xml) : Prop where
  used : ∀ d, declared root (e.attr "type") = some d → Used root d
  free : ∀ d, declared root (e.attr "type") = some d → d.tag ≠ text "type" →
    m.nested.find? (·.1 = e.attr "type") = none

include read in
theorem isEnumOrComposite_listed (member : d ∈ declarations root)
    (tag : d.tag = text "enum" ∨ d.tag = text "composite") :
    schema.types.isEnumOrComposite (d.attr "name") = true := by
  rw [XMLTypes.isEnumOrComposite, Bool.or_eq_true]
  rcases tag with enum | composite
  · left
    rw [read.enums, List.any_map, List.any_eq_true]
    exact ⟨d, by simp [declarationsOf, member, enum], by simp [parseEnum]⟩
  · right
    obtain ⟨c, listed, parsed⟩ := forall₂_mem_left read.composites
      (show d ∈ declarationsOf root "composite" by simp [declarationsOf, member, composite])
    exact List.any_eq_true.mpr ⟨c, listed, by rw [(parseComposite_ok parsed).1]; simp⟩

include plain read written in
theorem field_piece (reaches : Reaches root m e)
    (known : (declared root (e.attr "type")).isSome ∨ (Primitive.declared (e.attr "type")).isSome)
    {f : XMLField} {pf : ProtoField} (parsed : parseField e = .ok f)
    (declares : fieldDeclaration schema.types f = .ok pf)
    (linked : linkField (file.typeNamed (depth + 1) m) scope pf = some fd)
    (shaped : piece fd = some p) : fieldPiece root (2 * depth + 2) e = some p := by
  obtain ⟨called, type, -⟩ := parseField_ok parsed
  have name : p.1 = camelToSnake (e.attr "name") := by
    rw [piece_linked linked shaped, (fieldDeclaration_ok declares).1, called]
  suffices shape : namedShape root (shapeOf root (2 * depth + 2)) (e.attr "type") = some p.2 by
    rw [fieldPiece, shape, Option.map_some]
    exact congrArg some (Prod.ext name.symm rfl)
  -- a type that is not simple is passed on by its name
  have referred : ∀ d ∈ declarations root, d.tag ≠ text "type" → d.attr "name" = f.type →
      pf.option = .none → pf.type = f.type →
      namedShape root (shapeOf root (2 * depth + 2)) (e.attr "type") = some p.2 := by
    intro d member other same unannotated passed
    rw [type] at same passed
    have target : declared root (e.attr "type") = some d := by
      rw [← same]
      exact declared_of_mem plain member (same ▸ reaches.used)
    have refers : Refers root m pf.type := by
      rw [passed]
      refine ⟨?_, reaches.used, reaches.free d target other⟩
      simpa only [isReferable, target, decide_eq_true_eq] using other
    have := referred_piece plain read written (compositesLie plain read written depth) unannotated
      refers linked shaped
    rwa [passed] at this
  rw [fieldDeclaration] at declares
  split at declares
  · rename_i listed
    cases declares
    obtain ⟨d, member, other, same⟩ := isEnumOrComposite_origin read listed
    exact referred d member other same rfl rfl
  · rename_i unlisted
    split at declares
    · rename_i t found
      obtain ⟨r, resolved, declares⟩ := except_bind_ok declares
      cases declares
      rw [namedShape, ← type]
      obtain ⟨d, member, read_, same⟩ | ⟨⟨q, rfl, same⟩, undeclared⟩ := typeNamed_origin read found
      · obtain ⟨present, tag⟩ := mem_declarationsOf member
        have target : declared root f.type = some d := by
          rw [← same]
          exact declared_of_mem plain present (by rw [same, type]; exact reaches.used)
        have simple := (plain.declarations d (reaches.used d (type ▸ target))).type tag
        obtain ⟨q, primitive⟩ := Option.isSome_iff_exists.mp simple.1
        rw [← (parseType_ok read_).2.1] at primitive
        rw [resolved_piece (within_ok resolved) primitive linked] at shaped
        rw [target]
        change elementShape _ _ _ = _
        rw [elementShape, if_pos tag, typeSize_eq simple read_ primitive]
        split at shaped <;> cases shaped
        rfl
      · have absent : declared root f.type = none := by
          cases target : declared root f.type with
          | none => rfl
          | some d =>
            exfalso
            obtain ⟨present, called⟩ := declared_some target
            by_cases tag : d.tag = text "type"
            · exact undeclared d (by simp [declarationsOf, present, tag]) called
            · have named := ((plain.declarations d (reaches.used d (type ▸ target))).named tag).2
              rw [called, same, Primitive.declared_name] at named
              obtain enum | composite | other := named
              · exact unlisted (called ▸ isEnumOrComposite_listed read present (.inl enum))
              · exact unlisted (called ▸ isEnumOrComposite_listed read present (.inr composite))
              · cases other
        rw [resolved_piece (within_ok resolved) (Primitive.declared_name q) linked] at shaped
        rw [absent, same, Primitive.declared_name]
        split at shaped <;> cases shaped
        simp
    · rename_i absent
      cases declares
      obtain ⟨noPrimitive, noType⟩ := typeNamed_none read absent
      rw [← type, noPrimitive, Option.isSome_none, or_iff_left (by simp)] at known
      obtain ⟨d, target⟩ := Option.isSome_iff_exists.mp known
      obtain ⟨member, same⟩ := declared_some target
      have other : d.tag ≠ text "type" := fun tag =>
        noType d (by simp [declarationsOf, member, tag]) same
      exact referred d member other same rfl rfl

structure FieldsLinked (types : XMLTypes) (resolve : Bytes → Option TypeRef) (scope : Bytes)
    (e : Xml) (xs : List XMLField) (fields : List ProtoField) (fds : List FieldDescriptor) :
    Prop where
  parsed : List.Forall₂ (fun e f => parseField e = .ok f) (e.childrenNamed "field") xs
  declares : List.Forall₂ (fun f pf => fieldDeclaration types f = .ok pf) xs fields
  linked : List.Forall₂ (fun f fd => linkField resolve scope f = some fd) fields fds

theorem FieldsLinked.numbers {xs : List XMLField}
    (block : FieldsLinked types resolve scope e xs fields fds) :
    fields.map (·.number) = fieldIds e := by
  symm
  refine map_eq_of_forall₂ (forall₂_comp ?_ block.parsed block.declares)
  intro e f pf parsed declares
  rw [(parseField_ok parsed).2.2, (fieldDeclaration_ok declares).2.1]
  rfl

include plain read written in
theorem fields_lie (reaches : ∀ f ∈ e.childrenNamed "field", Reaches root m f)
    (good : PlainFields root e) {xs : List XMLField}
    {pieces : List Piece}
    (block : FieldsLinked schema.types (file.typeNamed depth m) scope e xs fields fds)
    (shapes : fds.mapM piece = some pieces) :
    (e.childrenNamed "field").mapM (fieldPiece root (2 * depth)) = some pieces := by
  refine mapM_some_of_forall₂ ?_ shapes
  have known := (List.forall₂_and_left _ _).mpr
    ⟨fun f member => And.intro (reaches f member) (good.known f member), block.parsed⟩
  have linked : List.Forall₂ (fun f fd => ∃ pf, fieldDeclaration schema.types f = .ok pf ∧
      linkField (file.typeNamed depth m) scope pf = some fd) xs fds :=
    forall₂_comp (fun f pf fd declares link => ⟨pf, declares, link⟩) block.declares block.linked
  refine forall₂_comp ?_ known linked
  rintro e f fd ⟨⟨reached, known⟩, parsed⟩ ⟨pf, declares, link⟩ p shaped
  obtain ⟨k, rfl⟩ := linkField_depth link
  exact field_piece plain read written reached known parsed declares link shaped

theorem isLower_toUpper (c : UInt8) : isLower (toUpper c) = false := by
  have table : ∀ c : Fin 256, isLower (toUpper (.ofNat c)) = false := by decide +kernel
  simpa using table ⟨c.toNat, c.toNat_lt⟩

theorem typeName_lower (kind : Kind) : kind.typeName.head?.any isLower = true := by
  cases kind <;> decide

theorem capitalized_upper (s : Bytes) : (capitalized s).head?.any isLower = false := by
  cases s with
  | nil => rfl
  | cons c rest => exact isLower_toUpper c

theorem singularPascal_upper (s : Bytes) : (singularPascal s).head?.any isLower = false := by
  rw [singularPascal]
  split
  · exact capitalized_upper _
  · split
    · exact capitalized_upper _
    · exact capitalized_upper _

theorem ofTypeName_singularPascal (s : Bytes) : Kind.ofTypeName (singularPascal s) = none := by
  cases found : Kind.ofTypeName (singularPascal s) with
  | none => rfl
  | some kind =>
    have same := List.find?_some found
    simp only [decide_eq_true_eq] at same
    have upper := singularPascal_upper s
    rw [← same, typeName_lower] at upper
    cases upper

theorem linkNested_some {nested : Bytes × List ProtoField} {type : Descriptor}
    (linked : linkNested resolve scope nested = some type) :
    List.Forall₂ (fun f fd => linkField resolve (scope ++ text "." ++ nested.1) f = some fd)
      nested.2 type.fields := by
  obtain ⟨fds, linkedFields, linked⟩ := Option.bind_eq_some_iff.mp linked
  cases linked
  exact mapM_some_iff.mp linkedFields

theorem linkField_group {x : XMLGroup} {n : Bytes × List ProtoField}
    (distinct : (m.nested.map (·.1)).Nodup) (member : n ∈ m.nested) (declares : DeclaresGroup types x n)
    (linked : linkField (file.typeNamed depth m) scope (groupField x) = some fd) :
    ∃ k type, depth = k + 1 ∧ linkNested (file.typeNamed k m) (file.qualified m.name) n = some type ∧
      fd = .message ((groupField x).info scope) type := by
  obtain ⟨k, rfl⟩ := linkField_depth linked
  have own : m.nested.find? (·.1 = singularPascal x.name) = some n := by
    rw [← declares.1]
    exact find?_key distinct member
  rw [linkField, groupField, ProtoFile.typeNamed] at linked
  simp only [ofTypeName_singularPascal, own] at linked
  cases entry : linkNested (file.typeNamed k m) (file.qualified m.name) n with
  | none => rw [entry] at linked; cases linked
  | some type =>
    rw [entry] at linked
    cases linked
    exact ⟨k, type, rfl, entry, rfl⟩

include plain read written in
theorem group_lies (distinct : (m.nested.map (·.1)).Nodup) {g : Xml}
    (reaches : ∀ f ∈ g.childrenNamed "field", Reaches root m f) (good : PlainFields root g)
    (flat : g.childrenNamed "group" = []) {x : XMLGroup} {n : Bytes × List ProtoField} {gt : GroupTemplate} (parsed : parseGroup g = .ok x)
    (declares : DeclaresGroup schema.types x n) (member : n ∈ m.nested)
    (linked : linkField (file.typeNamed depth m) scope (groupField x) = some fd)
    (built : BuildsGroup fd gt) : LaysGroup root g gt := by
  obtain ⟨called, -, fields⟩ := parseGroup_ok parsed
  have named : gt.fd.name = camelToSnake (g.attr "name") := by
    obtain ⟨info, type, rfl, built⟩ := built
    obtain ⟨-, -, -, -, -, same⟩ := pieces_of_buildGroupTemplate built
    rw [same, FieldDescriptor.name, linkField_info linked, ← called]
    rfl
  refine ⟨named, ?_, flat⟩
  obtain ⟨k, type, rfl, entry, rfl⟩ := linkField_group distinct member declares linked
  obtain ⟨info, type', same, built⟩ := built
  cases same
  have block : FieldsLinked schema.types (file.typeNamed k m) _ g x.fields n.2 type.fields :=
    ⟨fields, declares.2, linkNested_some entry⟩
  obtain ⟨pieces, shapes, -, -, lie, -⟩ := pieces_of_buildGroupTemplate built
  rw [sortedFields_linked block.linked (by rw [block.numbers]; exact good.ascending)] at shapes
  exact ⟨2 * k, pieces, fields_lie plain read written reaches good block shapes, lie⟩

theorem linked_repeated {repeated : Bool}
    (linked : List.Forall₂ (fun f fd => linkField resolve scope f = some fd) fields fds)
    (all : ∀ f ∈ fields, f.repeated = repeated) : ∀ fd ∈ fds, fd.info.repeated = repeated := by
  intro fd member
  obtain ⟨f, present, link⟩ := forall₂_mem_right linked member
  rw [linkField_info link]
  exact all f present

theorem linkMessage_some {fullName : Bytes} {md : Descriptor}
    (linked : linkMessage resolve fullName m = some md) :
    m.fields.mapM (linkField resolve fullName) = some md.fields ∧ md.templateId = m.templateId := by
  obtain ⟨fds, linkedFields, linked⟩ := Option.bind_eq_some_iff.mp linked
  obtain ⟨types, -, linked⟩ := Option.bind_eq_some_iff.mp linked
  cases linked
  exact ⟨linkedFields, rfl⟩

theorem linked_members {xs : List XMLField} {groups : List XMLGroup}
    (declares : List.Forall₂ (fun x f => fieldDeclaration types x = .ok f) xs fields)
    (linked : (fields ++ groups.map groupField).mapM (linkField resolve scope) = some fds) :
    ∃ own entries, own ++ entries = fds ∧
      List.Forall₂ (fun f fd => linkField resolve scope f = some fd) fields own ∧
      List.Forall₂ (fun x fd => linkField resolve scope (groupField x) = some fd) groups entries ∧
      (∀ fd ∈ own, fd.info.repeated = false) ∧ ∀ fd ∈ entries, fd.info.repeated = true := by
  rw [List.mapM_append] at linked
  obtain ⟨own, linkedOwn, linked⟩ := Option.bind_eq_some_iff.mp linked
  obtain ⟨entries, linkedGroups, linked⟩ := Option.bind_eq_some_iff.mp linked
  rw [mapM_some_iff] at linkedOwn linkedGroups
  refine ⟨own, entries, Option.some.inj linked, linkedOwn,
    List.forall₂_map_left_iff.mp linkedGroups, ?_, ?_⟩
  · refine linked_repeated linkedOwn fun f present => ?_
    obtain ⟨x, -, declares⟩ := forall₂_mem_right declares present
    exact (fieldDeclaration_ok declares).2.2
  · refine linked_repeated linkedGroups fun f present => ?_
    obtain ⟨x, -, rfl⟩ := List.mem_map.mp present
    rfl

include plain in
theorem reaches_of_groups (member : e ∈ root.childrenNamed "message") {groups : List XMLGroup}
    (parsed : List.Forall₂ (fun e g => parseGroup e = .ok g) (e.childrenNamed "group") groups)
    (nested : List.Forall₂ (DeclaresGroup types) groups m.nested) {holder : Xml}
    (holds : holder ∈ e :: e.childrenNamed "group") :
    ∀ f ∈ holder.childrenNamed "field", Reaches root m f := by
  intro f field
  refine ⟨fun d named => .field member holds field named, fun d named other => ?_⟩
  rw [List.find?_eq_none]
  intro n present same
  simp only [decide_eq_true_eq] at same
  obtain ⟨x, listed, declares⟩ := forall₂_mem_right nested present
  obtain ⟨g, group, read⟩ := forall₂_mem_right parsed listed
  refine (plain.messages e member).unhidden g group holder holds f field d named other ?_
  rw [← same, declares.1, (parseGroup_ok read).1]

include plain read written in
theorem message_lies (member : e ∈ root.childrenNamed "message") {msg : XMLMessage}
    {fullName : Bytes} {md : Descriptor} {schemaId version : Nat} {tmpl : MessageTemplate}
    (parsed : parseMessage e = .ok msg) (declares : messageDeclaration schema.types msg = .ok m)
    (distinct : (m.nested.map (·.1)).Nodup)
    (linked : linkMessage (file.typeNamed depth m) fullName m = some md)
    (built : buildTemplate md schemaId version = .ok tmpl) : LaysMessage root e tmpl := by
  have good := plain.messages e member
  obtain ⟨-, -, readFields, readGroups⟩ := parseMessage_ok parsed
  obtain ⟨-, -, fields, declaresFields, all, nested⟩ := messageDeclaration_ok declares
  have reaches {holder : Xml} (holds : holder ∈ e :: e.childrenNamed "group") :=
    reaches_of_groups plain member readGroups nested holds
  obtain ⟨linkedFields, -⟩ := linkMessage_some linked
  rw [all] at linkedFields
  obtain ⟨own, groups, whole, linkedOwn, linkedGroups, single, plural_⟩ :=
    linked_members declaresFields linkedFields
  have block : FieldsLinked schema.types (file.typeNamed depth m) fullName e msg.fields fields own :=
    ⟨readFields, declaresFields, linkedOwn⟩
  have ascending : Ordered FieldDescriptor.number own := by
    have := good.fields.ascending
    rwa [← block.numbers, linked_numbers linkedOwn, List.pairwise_map] at this
  obtain ⟨-, -, pieces, shapes, -, -, lie, builtGroups⟩ := pieces_of_buildTemplate built
  rw [← whole] at shapes builtGroups
  rw [ordered_singular single plural_ ascending] at shapes
  refine ⟨⟨2 * depth, pieces,
    fields_lie plain read written (reaches List.mem_cons_self) good.fields block shapes, lie⟩, ?_⟩
  -- the groups of the template are those of the document, by number
  obtain ⟨gts, paired, perm⟩ :=
    List.perm_comp_forall₂ (plural_perm single plural_).symm builtGroups
  refine ⟨gts, ?_, perm⟩
  have elements := (List.forall₂_and_left _ _).mpr
    ⟨fun g (present : g ∈ e.childrenNamed "group") => present, readGroups⟩
  have entries := (List.forall₂_and_left _ _).mpr
    ⟨fun x (present : x ∈ msg.groups) => forall₂_mem_left nested present, linkedGroups⟩
  have lays : List.Forall₂ (fun g fd => ∀ gt, BuildsGroup fd gt → LaysGroup root g gt)
      (e.childrenNamed "group") groups := by
    refine forall₂_comp ?_ elements entries
    rintro g x fd ⟨present, parsed⟩ ⟨⟨n, known, declares⟩, link⟩ gt built
    exact group_lies plain read written distinct (reaches (List.mem_cons_of_mem _ present))
      (good.groupFields g present) (good.flat g present) parsed declares known link built
  exact forall₂_comp (fun _ _ gt lays built => lays gt built) lays paired

end Imported

theorem linkMessage_fullName {fullName : Bytes} {md : Descriptor}
    (linked : linkMessage resolve fullName m = some md) : md.fullName = fullName := by
  obtain ⟨fields, -, linked⟩ := Option.bind_eq_some_iff.mp linked
  obtain ⟨nested, -, linked⟩ := Option.bind_eq_some_iff.mp linked
  cases linked
  rfl

def Xml.made (name : String) (attributes : List (String × Bytes)) (children : List Xml) : Xml :=
  .element (text name) (attributes.map fun a => (text a.1, a.2)) children

def orderSchema : Xml :=
  .made "messageSchema" [("package", text "orders"), ("id", text "7")]
    [.made "types" []
        [.made "type" [("name", text "Symbol"), ("primitiveType", text "char"),
            ("length", text "6")] [],
          .made "composite" [("name", text "Price")]
            [.made "type" [("name", text "mantissa"), ("primitiveType", text "int64")] [],
              .made "type" [("name", text "exponent"), ("primitiveType", text "int8")] [],
              .made "ref" [("name", text "unit"), ("type", text "Unit")] []],
          .made "enum" [("name", text "Unit"), ("encodingType", text "char")]
            [.made "validValue" [("name", text "Piece")] [.chars (text "0")]]],
      .made "message" [("name", text "Order"), ("id", text "1")]
        [.made "field" [("name", text "symbol"), ("id", text "1"), ("type", text "Symbol")] [],
          .made "field" [("name", text "limitPrice"), ("id", text "2"), ("type", text "Price")] [],
          .made "field" [("name", text "unit"), ("id", text "3"), ("type", text "Unit")] [],
          .made "group" [("name", text "legs"), ("id", text "4")]
            [.made "field" [("name", text "size"), ("id", text "1"), ("type", text "uint16")] [],
              .made "field" [("name", text "price"), ("id", text "2"), ("type", text "Price")] []]]]

def swappedSchema : Xml :=
  .made "messageSchema" []
    [.made "message" [("name", text "M"), ("id", text "1")]
      [.made "field" [("name", text "a"), ("id", text "2"), ("type", text "uint8")] [],
        .made "field" [("name", text "b"), ("id", text "1"), ("type", text "uint16")] []]]

/-- The messages of a document as a compiler that resolves names up to a depth gives them. -/
def compiledTypes (root : Xml) (depth : Nat) : Option (List Descriptor) := do
  let file ← (importedFile (fun _ => .ok root) []).toOption
  if file.messages.all fun m => (m.nested.map (·.1)).Nodup then file.messages.mapM (file.link depth)
  else none

theorem compiles_of_types {root : Xml} {depth : Nat} {mds : List Descriptor}
    (linked : compiledTypes root depth = some mds) (wellFormed : allWellFormed mds = true) :
    ∃ file compiler compiled, importedFile (fun _ => .ok root) [] = .ok file ∧
      file.Compiles compiler compiled ∧ compiled.messageTypes = mds := by
  obtain ⟨file, imported, linked⟩ := Option.bind_eq_some_iff.mp linked
  change (if _ then _ else _) = _ at linked
  split at linked
  · rename_i nested
    exact ⟨file, fun _ => some ⟨[], none, false, none, mds, wellFormed⟩, _, toOption_some imported,
      ⟨rfl, ⟨depth, mapM_some_iff.mp linked⟩, by simpa using nested⟩, rfl⟩
  · cases linked

theorem plain_orderSchema : PlainSchema orderSchema := by
  have names : ((declarations orderSchema).map (·.attr "name")).Nodup := by decide +kernel
  have all : ∀ d ∈ declarations orderSchema, PlainDeclaration orderSchema d := by decide +kernel
  have apart : ∀ d ∈ declarations orderSchema, ∀ e ∈ orderSchema.childrenNamed "message",
      e.attr "name" ≠ d.attr "name" := by decide +kernel
  exact ⟨fun d used e member same => List.inj_on_of_nodup_map names member used.mem same,
    fun d used => all d used.mem, fun d used _ => apart d used.mem, by decide +kernel⟩

end Protowire.Sbe
