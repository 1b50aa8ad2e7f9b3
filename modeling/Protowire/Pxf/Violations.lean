import Mathlib.Data.List.Perm.Basic
import Protowire.Pxf.SchemaCore

/-!
The rules of a schema file, for each of its elements alone, wherever it is nested. The walk reports a
file for just the rules that it breaks.
-/

namespace Protowire.Pxf

open Classical in
noncomputable def reportIf (broken : Prop) (finding : Finding) : List Finding :=
  if broken then [finding] else []

noncomputable def SchemaElement.nameRule (kind : ViolationKind) (e : SchemaElement) : List Finding :=
  reportIf (e.name ∈ [text "null", text "true", text "false"]) (e.reservedFinding kind)

namespace SchemaField

variable (pool : Pool) (f : SchemaField)

def element : Descriptor := (f.messageType pool).getD (pool.message 0)

/-- A key is for a list of messages, and names a singular string field of theirs. -/
noncomputable def keyRule (key : Bytes) : List Finding :=
  let listed := f.repeated ∧ ¬ f.isMap ∧ f.messageType pool ≠ none
  let found := (f.element pool).findFieldByName key
  reportIf (¬ listed) (f.notListed key) ++
  reportIf (listed ∧ found = none) (f.keyMissing (f.element pool) key) ++
  reportIf (listed ∧ ∃ kf, found = some kf ∧ ¬ (kf.type = .string ∧ ¬ kf.repeated ∧ ¬ kf.isMap))
    (f.keyNotString (f.element pool) key)

/-- A default is for a field that one literal can denote. -/
noncomputable def placementRule : List Finding :=
  let single := f.default ≠ none ∧ ¬ f.repeated ∧ ¬ f.isMap
  reportIf (f.default ≠ none ∧ f.isMap) f.onMap ++
  reportIf (f.default ≠ none ∧ f.repeated ∧ ¬ f.isMap) f.onRepeated ++
  reportIf (single ∧ ∃ type, f.type = .group type) f.onGroup ++
  reportIf (single ∧ ∃ type, f.type = .message type ∧ ¬ (pool.message type).isDefaultable)
    (f.onMessage (f.element pool))

/-- Of the members of a oneof at most one has a default. -/
noncomputable def capRule (siblings : List SchemaField) : List Finding :=
  let members := siblings.filter fun g => g.oneof = f.oneof ∧ g.default ≠ none
  reportIf (f.oneof ≠ none ∧ f.default ≠ none ∧ 1 < members.length)
    (f.excess (members.map (·.name)))

noncomputable def rules (siblings : List SchemaField) : List Finding :=
  f.nameRule .field ++ f.keyName.toList.flatMap (f.keyRule pool) ++
  reportIf (f.defaultProblem ≠ []) f.unusable ++ f.placementRule pool ++
  reportIf (f.required ∧ f.default ≠ none) f.exclusive ++
  f.oneof.toList.flatMap (fun oneof => reportIf f.required (f.requiredMember oneof)) ++
  f.capRule siblings

end SchemaField

namespace MessageParts

variable (pool : Pool) (md : MessageParts)

/-- A message with the name of a well-known type has its fields. -/
def shapeRule : List Finding :=
  (wktShapes.find? (text ·.1 = md.fullName)).toList.flatMap fun shape =>
    (shape.2.find? fun f => !Descriptor.fieldFits f (md.findFieldByName f.name)).toList.map fun f =>
      md.shapeFinding (misfit f (md.findFieldByName f.name))

noncomputable def rules : List Finding :=
  md.shapeRule ++ md.fields.flatMap (·.rules pool md.fields) ++
  -- The synthetic oneofs count where there is no real one.
  (if md.realOneofs = [] then md.syntheticOneofs else md.realOneofs).flatMap (·.nameRule .oneof)

end MessageParts

mutual

def SchemaMessage.all : SchemaMessage → List MessageParts
  | .mk md nested => md :: allOf nested

def allOf : List SchemaMessage → List MessageParts
  | [] => []
  | md :: rest => md.all ++ allOf rest

end

/-- Options have no number that is retired for their kind. -/
def retiredRule (kind : String) (table : List RetiredNumber) (e : Optioned) : List Finding :=
  e.unknown.filterMap fun number =>
    (table.find? (·.number = number)).map (RetiredNumber.finding kind e)

def SchemaEnum.retiredRules (e : SchemaEnum) : List Finding :=
  retiredRule "EnumOptions" retiredCarrierOnly e.toOptioned ++
    e.values.flatMap fun v => retiredRule "EnumValueOptions" retiredCarrierOnly v.toOptioned

def MessageParts.retiredRules (md : MessageParts) : List Finding :=
  retiredRule "MessageOptions" retiredMessage md.toOptioned ++
    md.fields.flatMap (fun f => retiredRule "FieldOptions" retiredField f.toOptioned) ++
    md.oneofs.flatMap fun o => retiredRule "OneofOptions" retiredOneof o.toOptioned

namespace SchemaFile

variable (pool : Pool) (fd : SchemaFile)

def allEnums : List SchemaEnum := (allOf fd.messages).flatMap (·.enums) ++ fd.enums

def retiredRules : List Finding :=
  retiredRule "FileOptions" retiredFile ⟨fd.name, fd.unknown⟩ ++
    (allOf fd.messages).flatMap (·.retiredRules) ++ fd.allEnums.flatMap (·.retiredRules) ++
    fd.services.flatMap fun s =>
      retiredRule "ServiceOptions" retiredCarrierOnly s.toOptioned ++
        s.methods.flatMap (retiredRule "MethodOptions" retiredCarrierOnly)

open Classical in
/-- All that a file is to be reported for. -/
noncomputable def rules (usesProtowire : Prop) : List Finding :=
  (allOf fd.messages).flatMap (·.rules pool) ++
  fd.allEnums.flatMap (fun e => e.values.flatMap (·.nameRule .enumValue)) ++
  if usesProtowire then fd.retiredRules else []

end SchemaFile

section Elements

theorem SchemaElement.reserved_rule (kind : ViolationKind) (e : SchemaElement) :
    e.reserved kind = e.nameRule kind := by
  rw [reserved, nameRule, reportIf]
  congr 1
  simp [isReservedName, or_assoc]

theorem walkEnums_rule (enums : List SchemaEnum) :
    walkEnums enums = enums.flatMap fun e => e.values.flatMap (·.nameRule .enumValue) := by
  simp only [walkEnums, funext (SchemaElement.reserved_rule .enumValue)]

variable (pool : Pool) (f : SchemaField)

theorem SchemaField.checkKeyOption_rule (key : Bytes) :
    f.checkKeyOption pool key = f.keyRule pool key := by
  rw [checkKeyOption, keyRule, element]
  cases f.messageType pool with
  | none => simp [reportIf]
  | some md =>
    cases found : md.findFieldByName key with
    | none => cases f.repeated <;> cases f.isMap <;> simp [reportIf, found]
    | some kf =>
      cases f.repeated <;> cases f.isMap <;> cases repeated : kf.repeated <;>
        cases isMap : kf.isMap <;> simp [reportIf, found, repeated, isMap]

theorem SchemaField.checkDefaultPlacement_rule :
    (if f.default.isSome then f.checkDefaultPlacement pool else []) = f.placementRule pool := by
  have element : ∀ type, f.type = .message type → f.element pool = pool.message type := by
    intro type same
    rw [SchemaField.element, messageType, FieldDescriptor.cppType, same]
    rfl
  rw [checkDefaultPlacement, placementRule]
  cases f.default with
  | none => simp [reportIf]
  | some value =>
    cases f.isMap with
    | true => simp [reportIf]
    | false =>
      cases f.repeated with
      | true => simp [reportIf]
      | false =>
        cases same : f.type with
        | message type =>
          rw [element type same]
          cases denoted : (pool.message type).isDefaultable <;> simp [reportIf, denoted]
        | _ => simp [reportIf]

theorem SchemaField.check_rules (siblings : List SchemaField) :
    f.rules pool siblings = f.check pool ++ f.capRule siblings := by
  rw [rules, check, checkFieldAnnotations, SchemaElement.reserved_rule, checkDefaultPlacement_rule]
  cases options : f.hasOptions with
  | false =>
    obtain ⟨noKey, free, noDefault, usable⟩ := f.bare options
    simp [noKey, free, noDefault, usable, reportIf, placementRule]
  | true =>
    cases f.keyName <;> cases f.default <;> cases f.oneof <;> cases f.required <;>
      by_cases usable : f.defaultProblem = [] <;> simp [reportIf, usable, checkKeyOption_rule]

section Caps

variable {annotated : List SchemaField}

noncomputable def excessRule (annotated : List SchemaField) (m : SchemaField) : List Finding :=
  let members := annotated.filter (·.oneof = m.oneof)
  reportIf (1 < members.length) (m.excess (members.map (·.name)))

theorem capDefaults_group (m : SchemaField) :
    (let members := annotated.filter (·.oneof = m.oneof)
      if members.length < 2 then [] else members.map (·.excess (members.map (·.name)))) =
    (annotated.filter (·.oneof = m.oneof)).flatMap (excessRule annotated) := by
  have each : ∀ other ∈ annotated.filter (·.oneof = m.oneof), excessRule annotated other =
      reportIf (1 < (annotated.filter (·.oneof = m.oneof)).length)
        (other.excess ((annotated.filter (·.oneof = m.oneof)).map (·.name))) := by
    intro other member
    rw [excessRule, of_decide_eq_true (List.mem_filter.mp member).2]
  rw [List.flatMap_congr each]
  generalize annotated.filter (·.oneof = m.oneof) = members
  by_cases few : members.length < 2
  · simp [reportIf, few, Nat.not_lt.mpr (Nat.le_of_lt_succ few)]
  · simp only [reportIf, if_neg few, if_pos (show 1 < members.length by omega)]
    exact List.map_eq_flatMap

theorem capDefaults_perm (seen : List (Option Bytes)) (rest : List SchemaField) :
    (capDefaults annotated seen rest).Perm
      ((annotated.filter fun m => m.oneof ∉ seen ∧ m.oneof ∈ rest.map (·.oneof)).flatMap
        (excessRule annotated)) := by
  induction rest generalizing seen with
  | nil => simp [capDefaults]
  | cons m rest ih =>
    rw [capDefaults]
    by_cases known : m.oneof ∈ seen
    · rw [if_pos known, List.nil_append]
      refine (ih _).trans (.of_eq ?_)
      congr 1
      exact List.filter_congr fun other _ => by grind
    · rw [if_neg known, capDefaults_group]
      -- The group of this member comes first. What is left has other oneofs.
      refine ((ih _).append_left _).trans ?_
      rw [← List.flatMap_append]
      refine List.Perm.flatMap_right _ ?_
      refine .trans ?_ (List.filter_append_perm (·.oneof = m.oneof) _)
      simp only [List.filter_filter]
      refine .of_eq ?_
      congr 1 <;> exact List.filter_congr fun other _ => by grind

theorem checkOneofDefaultCap_rule (fields : List SchemaField) :
    (checkOneofDefaultCap (fields.filter (·.hasOneofDefault))).Perm
      (fields.flatMap (·.capRule fields)) := by
  refine (capDefaults_perm [] _).trans (.of_eq ?_)
  rw [List.filter_eq_self.mpr fun m member =>
    decide_eq_true ⟨List.not_mem_nil, List.mem_map_of_mem member⟩]
  have each : ∀ f ∈ fields, f.capRule fields =
      if f.hasOneofDefault then excessRule (fields.filter (·.hasOneofDefault)) f else [] := by
    intro f _
    rw [SchemaField.capRule, excessRule, List.filter_filter]
    cases belongs : f.oneof with
    | none => simp [SchemaField.hasOneofDefault, belongs, reportIf]
    | some oneof =>
      have same : (fields.filter fun g => g.oneof = some oneof ∧ g.default ≠ none) =
          fields.filter fun g => decide (g.oneof = some oneof) && g.hasOneofDefault := by
        refine List.filter_congr fun g _ => ?_
        cases there : g.oneof <;> cases other : g.default <;>
          simp [SchemaField.hasOneofDefault, there, other]
      rw [same]
      cases given : f.default with
      | none => simp [SchemaField.hasOneofDefault, given, reportIf]
      | some value =>
        have has : f.hasOneofDefault = true := by simp [SchemaField.hasOneofDefault, belongs, given]
        rw [if_pos has]
        simp
  rw [List.flatMap_congr each]
  generalize excessRule (fields.filter (·.hasOneofDefault)) = rule
  clear each
  induction fields with
  | nil => rfl
  | cons f rest ih => cases has : f.hasOneofDefault <;> simp [has, ih]

end Caps

namespace MessageParts

variable (md : MessageParts)

theorem shapeProblem_eq (fields : List Descriptor.WktField) :
    md.shapeProblem fields =
      ((fields.find? fun f => !Descriptor.fieldFits f (md.findFieldByName f.name)).map fun f =>
        misfit f (md.findFieldByName f.name)).getD [] := by
  induction fields with
  | nil => rfl
  | cons f rest ih =>
    rw [shapeProblem, List.find?_cons]
    cases Descriptor.fieldFits f (md.findFieldByName f.name) with
    | true => simpa using ih
    | false => rfl

theorem misfit_ne_nil (f : Descriptor.WktField) (fd : Option FieldDescriptor) : misfit f fd ≠ [] := by
  cases fd <;> exact List.cons_ne_nil _ _

theorem wktShapes_names : ∀ shape ∈ wktShapes, (text shape.1).length ≤ longestShapeName ∧
    (opensWith (text "google.protobuf.") (text shape.1) || opensWith (text "pxf.") (text shape.1)) := by
  decide

theorem wktShapeProblem_eq : md.wktShapeProblem =
    ((wktShapes.find? (text ·.1 = md.fullName)).map fun shape => md.shapeProblem shape.2).getD [] := by
  rw [wktShapeProblem]
  cases found : wktShapes.find? (text ·.1 = md.fullName) with
  | none => simp
  | some shape =>
    obtain ⟨short, opens⟩ := wktShapes_names shape (List.mem_of_find?_eq_some found)
    rw [show text shape.1 = md.fullName by simpa using List.find?_some found] at short opens
    rw [if_neg (by omega), if_neg (by grind)]
    rfl

theorem checkWktShape_rule : md.checkWktShape = md.shapeRule := by
  rw [checkWktShape, shapeRule, wktShapeProblem_eq]
  cases wktShapes.find? (text ·.1 = md.fullName) with
  | none => rfl
  | some shape =>
    simp only [Option.map_some, Option.getD_some, shapeProblem_eq, Option.toList_some,
      List.flatMap_singleton]
    cases shape.2.find? fun f => !Descriptor.fieldFits f (md.findFieldByName f.name) with
    | none => rfl
    | some f => simp [misfit_ne_nil]

theorem checkOneofs_rule : md.checkOneofs =
    (if md.realOneofs = [] then md.syntheticOneofs else md.realOneofs).flatMap (·.nameRule .oneof) := by
  rw [checkOneofs, oneofs, funext (SchemaElement.reserved_rule .oneof)]
  cases md.realOneofs with
  | nil => simp
  | cons o rest => simp

theorem check_rules :
    (md.checkWktShape ++ md.fields.flatMap (·.check pool) ++
      checkOneofDefaultCap (md.fields.filter (·.hasOneofDefault)) ++
      md.checkOneofs).Perm (md.rules pool) := by
  rw [checkWktShape_rule, checkOneofs_rule, rules, List.append_assoc md.shapeRule]
  refine (List.Perm.append_left _ ?_).append_right _
  refine ((checkOneofDefaultCap_rule md.fields).append_left _).trans ?_
  refine (List.flatMap_append_perm _ _ _).trans (.of_eq ?_)
  exact List.flatMap_congr fun f _ => (f.check_rules pool md.fields).symm

end MessageParts

end Elements

variable (pool : Pool)

mutual

theorem walkMessages_perm (message : SchemaMessage) :
    (walkMessages pool message).Perm
      (message.all.flatMap fun md => md.rules pool ++ walkEnums md.enums) := by
  cases message with
  | mk md nested =>
    rw [walkMessages, SchemaMessage.all, List.flatMap_cons, List.append_assoc _ _ (walkEnums _),
      List.append_assoc (md.rules pool)]
    refine (md.check_rules pool).append ?_
    exact List.perm_append_comm.trans ((walkNested_perm nested).append_left _)

theorem walkNested_perm (messages : List SchemaMessage) :
    (walkNested pool messages).Perm
      ((allOf messages).flatMap fun md => md.rules pool ++ walkEnums md.enums) := by
  cases messages with
  | nil => exact .nil
  | cons md rest =>
    rw [walkNested, allOf, List.flatMap_append]
    exact (walkMessages_perm md).append (walkNested_perm rest)

end

theorem retiredIn_rule (kind : String) (table : List RetiredNumber)
    (distinct : (table.map (·.number)).Nodup) : retiredIn kind table = retiredRule kind table := by
  funext e
  rw [retiredIn, retiredRule, List.filterMap_eq_flatMap_toList]
  refine List.flatMap_congr fun number _ => ?_
  induction table with
  | nil => rfl
  | cons r rest ih =>
    rw [List.map_cons, List.nodup_cons] at distinct
    by_cases same : r.number = number
    · have others : rest.filter (·.number = number) = [] := by
        rw [List.filter_eq_nil_iff]
        intro other member equal
        exact distinct.1 (List.mem_map.mpr ⟨other, member, (of_decide_eq_true equal).trans same.symm⟩)
      simp [same, others]
    · simpa [same] using ih distinct.2

theorem retiredIn_carrierOnly (kind : String) :
    retiredIn kind retiredCarrierOnly = retiredRule kind retiredCarrierOnly :=
  retiredIn_rule kind _ (by decide)

theorem walkRetiredEnum_rule : walkRetiredEnum = SchemaEnum.retiredRules := by
  funext e
  simp only [walkRetiredEnum, SchemaEnum.retiredRules, retiredIn_carrierOnly]

mutual

theorem walkRetiredMessage_rule (message : SchemaMessage) :
    walkRetiredMessage message = message.all.flatMap fun md =>
      md.retiredRules ++ md.enums.flatMap (·.retiredRules) := by
  cases message with
  | mk md nested =>
    rw [walkRetiredMessage, SchemaMessage.all, List.flatMap_cons, walkRetiredNested_rule nested,
      MessageParts.retiredRules, retiredIn_rule _ retiredMessage (by decide),
      retiredIn_rule _ retiredField (by decide), retiredIn_rule _ retiredOneof (by decide),
      walkRetiredEnum_rule]

theorem walkRetiredNested_rule (messages : List SchemaMessage) :
    walkRetiredNested messages = (allOf messages).flatMap fun md =>
      md.retiredRules ++ md.enums.flatMap (·.retiredRules) := by
  cases messages with
  | nil => rfl
  | cons md rest =>
    rw [walkRetiredNested, allOf, List.flatMap_append, walkRetiredMessage_rule md,
      walkRetiredNested_rule rest]

end

theorem walkRetired_perm (fd : SchemaFile) : (walkRetired fd).Perm fd.retiredRules := by
  rw [walkRetired, walkRetiredNested_rule, walkRetiredEnum_rule,
    retiredIn_rule _ retiredFile (by decide)]
  simp only [SchemaFile.retiredRules, SchemaFile.allEnums, retiredIn_carrierOnly,
    List.flatMap_append, List.flatMap_assoc, ← List.append_assoc]
  refine .append_right _ (.append_right _ ?_)
  rw [List.append_assoc]
  exact (List.flatMap_append_perm _ _ _).symm.append_left _

theorem fileViolations_perm (fd : SchemaFile) {importsProtowire : Bool} {usesProtowire : Prop}
    (same : importsProtowire = true ↔ usesProtowire) :
    (fileViolations pool fd importsProtowire).Perm (fd.rules pool usesProtowire) := by
  rw [fileViolations, SchemaFile.rules]
  refine .append ?_ ?_
  · refine ((walkNested_perm pool fd.messages).append_right _).trans ?_
    simp only [walkEnums_rule, SchemaFile.allEnums, List.flatMap_append, List.flatMap_assoc,
      ← List.append_assoc]
    exact (List.flatMap_append_perm _ _ _).symm.append_right _
  · by_cases uses : usesProtowire
    · rw [if_pos (same.mpr uses), if_pos uses]
      exact walkRetired_perm fd
    · rw [if_neg (fun imports => uses (same.mp imports)), if_neg uses]

end Protowire.Pxf
