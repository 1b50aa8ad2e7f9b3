import Protowire.Sbe.ConvertCore
import Protowire.Sbe.Placing

/-!
The layout that an XML schema declares, read off the document: a type takes its primitive as many
times as it is long, a composite its members one after the other, an enum its encoding type. What
the importer reads of a document, and which documents it reads whole.
-/

namespace Protowire.Sbe

open Support

def Primitive.declared (name : Bytes) : Option Primitive :=
  Primitive.all.find? (·.encodingName = name)

def Primitive.bytes : Primitive → Nat
  | .char => 1
  | p => p.width

def declarations (root : Xml) : List Xml := (root.childrenNamed "types").flatMap Xml.elements

def declared (root : Xml) (name : Bytes) : Option Xml :=
  (declarations root).find? (·.attr "name" = name)

def typeSize (e : Xml) : Option Nat := do
  let primitive ← Primitive.declared (e.attr "primitiveType")
  let length ← if (e.attr "length").isEmpty then some 1 else (uint32Attr e "length").toOption
  return primitive.bytes * length

def encodingSize (root : Xml) (name : Bytes) : Option Nat :=
  match declared root name with
  | some e => if e.tag = text "type" then typeSize e else none
  | none => (Primitive.declared name).map Primitive.bytes

abbrev Shape := Nat × List Slot

def namedShape (root : Xml) (shape : Xml → Option Shape) (name : Bytes) : Option Shape :=
  match declared root name with
  | some e => shape e
  | none => (Primitive.declared name).map fun p => (p.bytes, [])

def memberPiece (shape : Xml → Option Shape) (e : Xml) : Option Piece :=
  (shape e).map fun s => (camelToSnake (e.attr "name"), s)

def elementShape (root : Xml) (shape : Xml → Option Shape) (e : Xml) : Option Shape :=
  if e.tag = text "type" then (typeSize e).map fun size => (size, [])
  else if e.tag = text "enum" ∨ e.tag = text "set" then
    (encodingSize root (e.attr "encodingType")).map fun size => (size, [])
  else if e.tag = text "ref" then namedShape root shape (e.attr "type")
  else if e.tag = text "composite" then
    (e.elements.mapM (memberPiece shape)).map fun pieces => (extent pieces, endToEnd 0 pieces)
  else none

def shapeOf (root : Xml) : Nat → Xml → Option Shape
  | 0 => fun _ => none
  | depth + 1 => elementShape root (shapeOf root depth)

def fieldPiece (root : Xml) (depth : Nat) (f : Xml) : Option Piece :=
  (namedShape root (shapeOf root depth) (f.attr "type")).map fun s =>
    (camelToSnake (f.attr "name"), s)

def LaysFields (root e : Xml) (fields : List FieldTemplate) : Prop :=
  ∃ depth pieces, (e.childrenNamed "field").mapM (fieldPiece root depth) = some pieces ∧
    slots fields = endToEnd 0 pieces

structure LaysGroup (root g : Xml) (gt : GroupTemplate) : Prop where
  name : gt.fd.name = camelToSnake (g.attr "name")
  fields : LaysFields root g gt.fields
  whole : g.childrenNamed "group" = []

structure LaysMessage (root e : Xml) (tmpl : MessageTemplate) : Prop where
  fields : LaysFields root e tmpl.fields
  groups : ∃ gts, List.Forall₂ (LaysGroup root) (e.childrenNamed "group") gts ∧
    gts.Perm tmpl.groups

def fieldIds (e : Xml) : List Nat :=
  (e.childrenNamed "field").map fun f => (uint32Attr f "id").toOption.getD 0

def PlainType (e : Xml) : Prop :=
  (Primitive.declared (e.attr "primitiveType")).isSome ∧
    (e.attr "length" = [] ∨ (uint32Attr e "length").toOption ≠ some 0)

structure PlainFields (root e : Xml) : Prop where
  ascending : (fieldIds e).Pairwise (· < ·)
  known : ∀ f ∈ e.childrenNamed "field",
    (declared root (f.attr "type")).isSome ∨ (Primitive.declared (f.attr "type")).isSome

def isReferable (root : Xml) (name : Bytes) : Bool :=
  match declared root name with
  | some d => d.tag ≠ text "type"
  | none => (Primitive.declared name).isSome &&
    (root.childrenNamed "message").all fun e => e.attr "name" ≠ name

structure PlainComposite (root c : Xml) : Prop where
  known : ∀ e ∈ c.elements, e.tag = text "type" ∨ e.tag = text "ref"
  ordered : c.elements.Pairwise fun a b => a.tag = text "ref" → b.tag = text "ref"
  types : ∀ t ∈ c.childrenNamed "type", PlainType t
  refs : ∀ r ∈ c.childrenNamed "ref", isReferable root (r.attr "type") = true

structure PlainDeclaration (root d : Xml) : Prop where
  type : d.tag = text "type" → PlainType d
  composite : d.tag = text "composite" → PlainComposite root d
  enum : d.tag = text "enum" → encodingSize root (d.attr "encodingType") = some 1
  named : d.tag ≠ text "type" → Kind.ofTypeName (d.attr "name") = none ∧
    (d.tag = text "enum" ∨ d.tag = text "composite" ∨ Primitive.declared (d.attr "name") = none)

structure PlainMessage (root e : Xml) : Prop where
  fields : PlainFields root e
  groupFields : ∀ g ∈ e.childrenNamed "group", PlainFields root g
  flat : ∀ g ∈ e.childrenNamed "group", g.childrenNamed "group" = []
  unhidden : ∀ g ∈ e.childrenNamed "group", ∀ h ∈ e :: e.childrenNamed "group",
    ∀ f ∈ h.childrenNamed "field", ∀ d ∈ declared root (f.attr "type"), d.tag ≠ text "type" →
      f.attr "type" ≠ singularPascal (g.attr "name")

/-- The declarations that the messages lead to: those that name the type of a field, and those that
a composite among them refers to. -/
inductive Used (root : Xml) : Xml → Prop
  | field {e holder f d : Xml} (message : e ∈ root.childrenNamed "message")
      (holds : holder ∈ e :: e.childrenNamed "group") (field : f ∈ holder.childrenNamed "field")
      (named : declared root (f.attr "type") = some d) : Used root d
  | ref {c r d : Xml} (used : Used root c) (composite : c.tag = text "composite")
      (member : r ∈ c.childrenNamed "ref") (named : declared root (r.attr "type") = some d) :
      Used root d

structure PlainSchema (root : Xml) : Prop where
  distinct : ∀ d, Used root d → ∀ e ∈ declarations root, e.attr "name" = d.attr "name" → e = d
  declarations : ∀ d, Used root d → PlainDeclaration root d
  named : ∀ d, Used root d → d.tag ≠ text "type" →
    ∀ e ∈ root.childrenNamed "message", e.attr "name" ≠ d.attr "name"
  messages : ∀ e ∈ root.childrenNamed "message", PlainMessage root e

instance (e : Xml) : Decidable (PlainType e) := inferInstanceAs (Decidable (_ ∧ _))

instance (root e : Xml) : Decidable (PlainFields root e) :=
  decidable_of_iff (_ ∧ _) ⟨fun h => ⟨h.1, h.2⟩, fun h => ⟨h.ascending, h.known⟩⟩

instance (root c : Xml) : Decidable (PlainComposite root c) :=
  decidable_of_iff (_ ∧ _ ∧ _ ∧ _)
    ⟨fun h => ⟨h.1, h.2.1, h.2.2.1, h.2.2.2⟩, fun h => ⟨h.known, h.ordered, h.types, h.refs⟩⟩

instance (root d : Xml) : Decidable (PlainDeclaration root d) :=
  decidable_of_iff (_ ∧ _ ∧ _ ∧ _)
    ⟨fun h => ⟨h.1, h.2.1, h.2.2.1, h.2.2.2⟩, fun h => ⟨h.type, h.composite, h.enum, h.named⟩⟩

instance (root e : Xml) : Decidable (PlainMessage root e) :=
  decidable_of_iff (_ ∧ _ ∧ (∀ g ∈ e.childrenNamed "group", (g.childrenNamed "group").isEmpty) ∧ _)
    ⟨fun h => ⟨h.1, h.2.1, by simpa using h.2.2.1, h.2.2.2⟩,
      fun h => ⟨h.fields, h.groupFields, by simpa using h.flat, h.unhidden⟩⟩

theorem declared_some {root d : Xml} {name : Bytes} (found : declared root name = some d) :
    d ∈ declarations root ∧ d.attr "name" = name := by
  have same := List.find?_some found
  simp only [decide_eq_true_eq] at same
  exact ⟨List.mem_of_find?_eq_some found, same⟩

theorem declared_none {root d : Xml} {name : Bytes} (absent : declared root name = none)
    (member : d ∈ declarations root) : d.attr "name" ≠ name := by
  simpa using List.find?_eq_none.mp absent d member

theorem Used.mem {root d : Xml} (used : Used root d) : d ∈ declarations root := by
  cases used with
  | field _ _ _ named => exact (declared_some named).1
  | ref _ _ _ named => exact (declared_some named).1

theorem parseType_ok {e : Xml} {t : XMLType} (parsed : parseType e = .ok t) :
    t.name = e.attr "name" ∧ t.primitiveType = e.attr "primitiveType" ∧
      uint32Attr e "length" = .ok t.length := by
  obtain ⟨length, read, parsed⟩ := except_bind_ok parsed
  cases parsed
  exact ⟨rfl, rfl, read⟩

theorem parseField_ok {e : Xml} {f : XMLField} (parsed : parseField e = .ok f) :
    f.name = e.attr "name" ∧ f.type = e.attr "type" ∧ uint32Attr e "id" = .ok f.id := by
  obtain ⟨id, read, parsed⟩ := except_bind_ok parsed
  cases parsed
  exact ⟨rfl, rfl, read⟩

theorem parseComposite_ok {e : Xml} {c : XMLComposite} (parsed : parseComposite e = .ok c) :
    c.name = e.attr "name" ∧
      List.Forall₂ (fun e t => parseType e = .ok t) (e.childrenNamed "type") c.types ∧
      c.refs = (e.childrenNamed "ref").map parseRef := by
  obtain ⟨types, read, parsed⟩ := except_bind_ok parsed
  cases parsed
  exact ⟨rfl, mapM_ok_iff.mp read, rfl⟩

theorem parseGroup_ok {e : Xml} {g : XMLGroup} (parsed : parseGroup e = .ok g) :
    g.name = e.attr "name" ∧ uint32Attr e "id" = .ok g.id ∧
      List.Forall₂ (fun e f => parseField e = .ok f) (e.childrenNamed "field") g.fields := by
  obtain ⟨id, readId, parsed⟩ := except_bind_ok parsed
  obtain ⟨fields, read, parsed⟩ := except_bind_ok parsed
  cases parsed
  exact ⟨rfl, readId, mapM_ok_iff.mp read⟩

theorem parseMessage_ok {e : Xml} {m : XMLMessage} (parsed : parseMessage e = .ok m) :
    m.name = e.attr "name" ∧ uint32Attr e "id" = .ok m.id ∧
      List.Forall₂ (fun e f => parseField e = .ok f) (e.childrenNamed "field") m.fields ∧
      List.Forall₂ (fun e g => parseGroup e = .ok g) (e.childrenNamed "group") m.groups := by
  obtain ⟨id, readId, parsed⟩ := except_bind_ok parsed
  obtain ⟨fields, readFields, parsed⟩ := except_bind_ok parsed
  obtain ⟨groups, readGroups, parsed⟩ := except_bind_ok parsed
  cases parsed
  exact ⟨rfl, readId, mapM_ok_iff.mp readFields, mapM_ok_iff.mp readGroups⟩

def declarationsOf (root : Xml) (tag : String) : List Xml :=
  (declarations root).filter (·.tag = text tag)

theorem declarationsOf_eq (root : Xml) (tag : String) :
    declarationsOf root tag = (root.childrenNamed "types").flatMap (·.childrenNamed tag) := by
  rw [declarationsOf, declarations, List.filter_flatMap]
  rfl

theorem mem_declarationsOf {root d : Xml} {tag : String} (member : d ∈ declarationsOf root tag) :
    d ∈ declarations root ∧ d.tag = text tag := by
  simpa [declarationsOf] using member

structure ReadFrom (root : Xml) (schema : XMLSchema) : Prop where
  types : List.Forall₂ (fun e t => parseType e = .ok t) (declarationsOf root "type")
    schema.types.types
  composites : List.Forall₂ (fun e c => parseComposite e = .ok c)
    (declarationsOf root "composite") schema.types.composites
  enums : schema.types.enums = (declarationsOf root "enum").map parseEnum
  messages : List.Forall₂ (fun e m => parseMessage e = .ok m) (root.childrenNamed "message")
    schema.messages

theorem parseTypes_enums {elements : List Xml} {types : List XMLTypes}
    (read : List.Forall₂ (fun e t => parseTypes e = .ok t) elements types) :
    types.flatMap (·.enums) = (elements.flatMap (·.childrenNamed "enum")).map parseEnum := by
  induction read with
  | nil => rfl
  | cons first _ ih =>
    obtain ⟨simple, -, first⟩ := except_bind_ok first
    obtain ⟨composites, -, first⟩ := except_bind_ok first
    cases first
    rw [List.flatMap_cons, List.flatMap_cons, List.map_append, ih]

theorem schemaOf_readFrom {root : Xml} {schema : XMLSchema} (parsed : schemaOf root = .ok schema) :
    ReadFrom root schema := by
  obtain ⟨-, parsed⟩ := except_guard_ok_iff.mp parsed
  obtain ⟨id, -, parsed⟩ := except_bind_ok parsed
  obtain ⟨version, -, parsed⟩ := except_bind_ok parsed
  obtain ⟨types, readTypes, parsed⟩ := except_bind_ok parsed
  obtain ⟨messages, readMessages, parsed⟩ := except_bind_ok parsed
  cases parsed
  rw [mapM_ok_iff] at readTypes readMessages
  refine ⟨?_, ?_, ?_, readMessages⟩
  all_goals rw [declarationsOf_eq]
  · refine List.rel_flatMap readTypes ?_
    intro e t read
    obtain ⟨simple, readSimple, read⟩ := except_bind_ok read
    obtain ⟨composites, -, read⟩ := except_bind_ok read
    cases read
    exact mapM_ok_iff.mp readSimple
  · refine List.rel_flatMap readTypes ?_
    intro e t read
    obtain ⟨simple, -, read⟩ := except_bind_ok read
    obtain ⟨composites, readComposites, read⟩ := except_bind_ok read
    cases read
    exact mapM_ok_iff.mp readComposites
  · exact parseTypes_enums readTypes

theorem Primitive.declared_some {name : Bytes} {p : Primitive}
    (found : Primitive.declared name = some p) : name = p.encodingName := by
  have same := List.find?_some found
  simp only [decide_eq_true_eq] at same
  exact same.symm

theorem Primitive.declared_name (p : Primitive) : Primitive.declared p.encodingName = some p := by
  cases p <;> decide

theorem fieldEncodingSize_length {info : FieldInfo} {kind : Kind} {length : Nat}
    (string : kind.cppType = .string) (unnamed : info.encoding = none)
    (given : info.length = some length) :
    (fieldEncodingSize info kind).toOption.map (·.2) =
      if length ≤ maxUint16 then some length else none := by
  simp only [fieldEncodingSize, unnamed, string, given]
  by_cases fits : length ≤ maxUint16
  · rw [if_neg (by omega), if_pos fits]
    rfl
  · rw [if_pos (by omega), if_neg fits]
    rfl

theorem resolvePrimitive_size {p : Primitive} (number : p ≠ .char) :
    ∃ kind, Kind.ofTypeName (resolvePrimitive p.encodingName).1 = some kind ∧
      ∀ f : ProtoField, f.option = (resolvePrimitive p.encodingName).2 → ∀ scope,
        fieldEncodingSize (f.info scope) kind = .ok (p, p.bytes) := by
  cases p
  case char => exact absurd rfl number
  all_goals
    refine ⟨_, rfl, ?_⟩
    intro f option scope
    simp only [fieldEncodingSize, ProtoField.info, option]
    rfl

theorem bytes_le (p : Primitive) : p.bytes ≤ 8 := by
  cases p <;> decide

theorem resolveType_size {t : XMLType} {r : Resolved} {p : Primitive}
    (resolved : resolveType t = .ok r) (primitive : Primitive.declared t.primitiveType = some p) :
    ∃ kind, Kind.ofTypeName r.protoType = some kind ∧ ∀ name number scope,
      (fieldEncodingSize ((r.field name number).info scope) kind).toOption.map (·.2) =
        if p.bytes * max 1 t.length ≤ maxUint16 then some (p.bytes * max 1 t.length) else none := by
  have named := Primitive.declared_some primitive
  have isChar : t.primitiveType = text "char" ↔ p = .char := by
    rw [named]
    cases p <;> decide
  rw [resolveType] at resolved
  split at resolved
  · rename_i char
    obtain rfl := isChar.mp char
    have length : (if t.length = 0 then 1 else t.length) = max 1 t.length := by
      split <;> omega
    rw [Primitive.bytes, Nat.one_mul]
    simp only [length] at resolved
    split at resolved <;> cases resolved
    · exact ⟨.string, rfl, fun _ _ _ => fieldEncodingSize_length rfl rfl rfl⟩
    · exact ⟨.bytes, rfl, fun _ _ _ => fieldEncodingSize_length rfl rfl rfl⟩
  · rename_i char
    split at resolved
    · rename_i long
      split at resolved
      · rename_i octets
        cases resolved
        have octet : p.bytes = 1 := by
          rw [named] at octets
          revert octets
          cases p <;> decide
        rw [octet, Nat.one_mul, Nat.max_eq_right (by omega)]
        exact ⟨.bytes, rfl, fun _ _ _ => fieldEncodingSize_length rfl rfl rfl⟩
      · cases resolved
    · rename_i short
      cases resolved
      obtain ⟨kind, found, sized⟩ := resolvePrimitive_size fun same => char (isChar.mpr same)
      rw [← named] at found sized
      refine ⟨kind, found, fun name number scope => ?_⟩
      rw [sized _ rfl, Nat.max_eq_left (by omega), Nat.mul_one,
        if_pos (Nat.le_trans (bytes_le p) (by decide))]
      rfl

theorem typeSize_eq {e : Xml} {t : XMLType} {p : Primitive} (plain : PlainType e)
    (parsed : parseType e = .ok t) (primitive : Primitive.declared t.primitiveType = some p) :
    typeSize e = some (p.bytes * max 1 t.length) := by
  obtain ⟨-, type, length⟩ := parseType_ok parsed
  rw [type] at primitive
  by_cases given : e.attr "length" = []
  · have none_ : t.length = 0 := by
      simpa [uint32Attr, given] using length.symm
    simp [typeSize, primitive, given, none_]
  · have stated : t.length ≠ 0 := by
      intro zero
      have := plain.2.resolve_left given
      rw [length, zero] at this
      exact this rfl
    have least : max 1 t.length = t.length := Nat.max_eq_right (by omega)
    simp [typeSize, primitive, given, length, Except.toOption, least]

end Protowire.Sbe
