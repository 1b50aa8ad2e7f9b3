import Mathlib.Data.Finset.Card
import Mathlib.Data.Set.Finite.List
import Mathlib.Order.Filter.AtTopBot.Basic
import Mathlib.Order.Filter.Finite
import Protowire.Sbe.Layout

/-!
Message types that refer to each other by name, as those of a descriptor pool do, so that a type can
contain itself. Templates and the types of a document are found here by calls that nest at most
`depth` deep, and have no result where that is not enough. A type in a cycle of singular fields has
no template at any depth, and one in a cycle of lists cannot be exported.
-/

namespace Protowire.Sbe

open Filter Relation

abbrev Bounded (α : Type) := ExceptT Bytes Option α

def Ends {α : Type} (call : Bounded α) : Prop := ∃ result, call.run = some result

section

variable {α β : Type} {call : Bounded α} {next : α → Bounded β}

theorem ends_bind (first : Ends call) (later : ∀ a, Ends (next a)) : Ends (call >>= next) := by
  obtain ⟨result, ran⟩ := first
  cases result with
  | error message => exact ⟨.error message, by rw [ExceptT.run_bind, ran]; rfl⟩
  | ok a =>
    obtain ⟨after, followed⟩ := later a
    exact ⟨after, by rw [ExceptT.run_bind, ran]; exact followed⟩

theorem run_bind {result : Except Bytes α} {after : α → Except Bytes β}
    (first : call.run = some result) (later : ∀ a, (next a).run = some (after a)) :
    (call >>= next).run = some (result >>= after) := by
  rw [ExceptT.run_bind, first]
  cases result with
  | error message => rfl
  | ok a => exact later a

theorem not_ends_bind (never : call.run = none) : ¬ Ends (call >>= next) := by
  rintro ⟨result, ran⟩
  rw [ExceptT.run_bind, never] at ran
  cases ran

end

structure EnumDescriptor where
  fullName : Bytes
  values : List (Bytes × Int)
deriving DecidableEq, Repr

def FieldDescriptor.isList (fd : FieldDescriptor) : Bool := fd.info.repeated && !fd.info.isMap

structure Collected where
  strLengths : List Nat := []
  bytesLengths : List Nat := []
  composites : List Descriptor := []
  compSeen : List Bytes := []
  enums : List EnumDescriptor := []

namespace Collected

def addEnum (c : Collected) (ed : EnumDescriptor) : Collected :=
  if c.enums.any (·.fullName = ed.fullName) then c else { c with enums := c.enums ++ [ed] }

def addLength (c : Collected) (info : FieldInfo) (kind : Kind) : Collected :=
  match info.length, kind with
  | some length, .string => { c with strLengths := c.strLengths.insert length }
  | some length, .bytes => { c with bytesLengths := c.bytesLengths.insert length }
  | _, _ => c

def addComposite (c : Collected) (md : Descriptor) : Collected :=
  { c with composites := c.composites ++ [md], compSeen := md.fullName :: c.compSeen }

end Collected

structure TypePool where
  names : List Bytes
  type : Bytes → Descriptor
  named : ∀ name, (type name).fullName = name
  closed : ∀ name ∈ names, ∀ info sub, .message info sub ∈ (type name).fields → sub.fullName ∈ names
  enumsIn : Bytes → List EnumDescriptor
  enumOf : Bytes → EnumDescriptor
  messageTypes : List Bytes
  declared : ∀ name ∈ messageTypes, name ∈ names
  enumTypes : List EnumDescriptor

def partOf (build : Bytes → Bounded (List FieldTemplate × Nat)) (fd : FieldDescriptor) :
    Bounded Part :=
  match fd with
  | .scalar _ _ => pure ⟨fd, .ok ([], 0)⟩
  | .message _ type => ExceptT.mk ((build type.fullName).run.map fun subs => .ok ⟨fd, subs⟩)

def layFields (build : Bytes → Bounded (List FieldTemplate × Nat))
    (refusal : FieldDescriptor → Option Bytes) (places : Places) :
    Nat → List FieldDescriptor → Bounded (List FieldTemplate × Nat)
  | offset, [] => pure ([], offset)
  | offset, fd :: rest =>
    match refusal fd with
    | some message => throw message
    | none => do
      let part ← partOf build fd
      let (ft, next) ← ExceptT.mk (some (placeField places offset part))
      let (fields, total) ← layFields build refusal places next rest
      return (ft :: fields, total)

def layMembers (build : Bytes → Bounded (List FieldTemplate × Nat))
    (group : FieldDescriptor → Bytes → Bounded GroupTemplate) (mdName : Bytes) :
    Nat → List FieldDescriptor → Bounded Laid
  | offset, [] => pure ([], offset, [])
  | offset, fd :: rest =>
    if fd.info.isMap then
      throw (text "sbe: map field " ++ fieldPath mdName fd ++ text " not supported")
    else if fd.info.oneof.isSome then
      throw (text "sbe: oneof field " ++ fieldPath mdName fd ++ text " not supported")
    else if fd.info.repeated then
      match fd with
      | .message _ type => do
        let gt ← group fd type.fullName
        let (fields, total, groups) ← layMembers build group mdName offset rest
        return (fields, total, gt :: groups)
      | .scalar _ _ =>
        throw (text "sbe: repeated scalar field " ++ fieldPath mdName fd ++
          text " not supported; wrap in a message")
    else do
      let part ← partOf build fd
      let (ft, next) ← ExceptT.mk (some (placeField (messagePlaces mdName) offset part))
      let (fields, total, groups) ← layMembers build group mdName next rest
      return (ft :: fields, total, groups)

namespace TypePool

variable (pool : TypePool)

def buildCompositeFields : Nat → Bytes → Bounded (List FieldTemplate × Nat)
  | 0, _ => ExceptT.mk none
  | depth + 1, name =>
    layFields (buildCompositeFields depth) (compositeRefusal name) (compositePlaces name) 0
      (sortedFields (pool.type name).fields)

def buildGroupTemplate (depth : Nat) (fd : FieldDescriptor) (name : Bytes) :
    Bounded GroupTemplate := do
  let (fields, blockLength) ← layFields (pool.buildCompositeFields depth) (groupRefusal name)
    (groupPlaces name) 0 (sortedFields (pool.type name).fields)
  return ⟨fd, blockLength, fields⟩

def buildTemplate (depth : Nat) (name : Bytes) (schemaId version : Nat) : Bounded MessageTemplate :=
  match (pool.type name).templateId with
  | none => throw (text "sbe: message " ++ name ++ text " missing (sbe.template_id)")
  | some tid =>
    if tid > maxUint16 then
      throw (text "sbe: message " ++ name ++ text ": (sbe.template_id) = " ++ decimal tid ++
        text " is past " ++ decimal maxUint16 ++ text ", the largest templateId SBE can state")
    else do
      let (fields, blockLength, groups) ← layMembers (pool.buildCompositeFields depth)
        (pool.buildGroupTemplate depth) name 0 (sortedFields (pool.type name).fields)
      return ⟨tid, schemaId, version, blockLength, fields, groups⟩

def collectField (collect : Bytes → Collected → Option Collected) (c : Collected) :
    FieldDescriptor → Option Collected
  | .scalar info kind =>
    let c := c.addLength info kind
    some (if kind = .enum then c.addEnum (pool.enumOf info.fullName) else c)
  | .message info type =>
    if (FieldDescriptor.message info type).isList then collect type.fullName c
    else if c.compSeen.contains type.fullName then some c
    else collect type.fullName (c.addComposite (pool.type type.fullName))

def collectTypes : Nat → Bytes → Collected → Option Collected
  | 0, _, _ => none
  | depth + 1, name, c =>
    (pool.type name).fields.foldlM (pool.collectField (collectTypes depth))
      ((pool.enumsIn name).foldl Collected.addEnum c)

def collectMessage (depth : Nat) (c : Collected) (name : Bytes) : Option Collected :=
  if (pool.type name).templateId.isSome then pool.collectTypes depth name c
  else if c.compSeen.contains name then some c
  else some (c.addComposite (pool.type name))

def collected (depth : Nat) : Option Collected :=
  pool.messageTypes.foldlM (pool.collectMessage depth)
    (pool.enumTypes.foldl Collected.addEnum {})

def Embeds (outer inner : Bytes) : Prop :=
  ∃ info type, .message info type ∈ (pool.type outer).fields ∧ type.fullName = inner ∧
    info.repeated = false ∧ info.isMap = false

def Lists (outer inner : Bytes) : Prop :=
  ∃ info type, .message info type ∈ (pool.type outer).fields ∧ type.fullName = inner ∧
    (FieldDescriptor.message info type).isList = true

def Leads (outer inner : Bytes) : Prop :=
  ∃ info type, .message info type ∈ (pool.type outer).fields ∧ type.fullName = inner

/-- What the template of a type is laid out with: the types in its block and in those of its
groups. -/
def Holds (name inner : Bytes) : Prop :=
  pool.Embeds name inner ∨ ∃ entry, pool.Lists name entry ∧ pool.Embeds entry inner

def Exported (name : Bytes) : Prop :=
  ∃ root ∈ pool.messageTypes, (pool.type root).templateId.isSome ∧ ReflTransGen pool.Leads root name

end TypePool

section

variable {build : Bytes → Bounded (List FieldTemplate × Nat)} {mdName : Bytes}

theorem partOf_ends {fd : FieldDescriptor}
    (subs : ∀ info type, fd = .message info type → Ends (build type.fullName)) :
    Ends (partOf build fd) := by
  cases fd with
  | scalar info kind => exact ⟨_, rfl⟩
  | message info type =>
    obtain ⟨result, ran⟩ := subs info type rfl
    exact ⟨_, congrArg (Option.map _) ran⟩

theorem layFields_ends {refusal : FieldDescriptor → Option Bytes} {places : Places}
    {fds : List FieldDescriptor} (offset : Nat)
    (subs : ∀ info type, .message info type ∈ fds → refusal (.message info type) = none →
      Ends (build type.fullName)) :
    Ends (layFields build refusal places offset fds) := by
  induction fds generalizing offset with
  | nil => exact ⟨_, rfl⟩
  | cons fd rest ih =>
    rw [layFields]
    split
    · exact ⟨_, rfl⟩
    · next admitted =>
        refine ends_bind (partOf_ends ?_) fun part => ends_bind ⟨_, rfl⟩ fun placed =>
          ends_bind (ih _ fun info type member => subs info type (.tail _ member)) fun _ => ⟨_, rfl⟩
        rintro info type rfl
        exact subs info type (.head _) admitted

theorem partOf_run {fd : FieldDescriptor}
    (subs : ∀ info type, fd = .message info type →
      (build type.fullName).run = some (buildCompositeFields type)) :
    (partOf build fd).run = some (.ok (part fd)) := by
  cases fd with
  | scalar info kind => rfl
  | message info type =>
    change ((build type.fullName).run.map _) = _
    rw [subs info type rfl]
    rfl

theorem layFields_run {refusal : FieldDescriptor → Option Bytes} {places : Places}
    {fds : List FieldDescriptor}
    (subs : ∀ info type, .message info type ∈ fds →
      (build type.fullName).run = some (buildCompositeFields type)) (offset : Nat) :
    (layFields build refusal places offset fds).run =
      some (placeFields refusal places offset (fds.map part)) := by
  induction fds generalizing offset with
  | nil => rfl
  | cons fd rest ih =>
    rw [layFields, List.map_cons, placeFields, part_fd]
    cases refusal fd with
    | some message => rfl
    | none =>
      have first := partOf_run fun info type same => subs info type (same ▸ .head _)
      have later := ih fun info type member => subs info type (.tail _ member)
      rw [ExceptT.run_bind, first]
      exact run_bind rfl fun placed => run_bind (later placed.2) fun _ => rfl

theorem layMembers_run {group : FieldDescriptor → Bytes → Bounded GroupTemplate}
    {fds : List FieldDescriptor}
    (subs : ∀ info type, .message info type ∈ fds →
      (build type.fullName).run = some (buildCompositeFields type))
    (groups : ∀ info type, .message info type ∈ fds → (group (.message info type) type.fullName).run =
      some (buildGroupTemplate (.message info type) type)) (offset : Nat) :
    (layMembers build group mdName offset fds).run =
      some (placeMembers mdName offset (fds.map part)) := by
  induction fds generalizing offset with
  | nil => rfl
  | cons fd rest ih =>
    have first := partOf_run fun info type same => subs info type (same ▸ .head _)
    have later := ih (fun info type member => subs info type (.tail _ member))
      fun info type member => groups info type (.tail _ member)
    unfold layMembers
    rw [List.map_cons, placeMembers, part_fd]
    split
    · rfl
    · split
      · rfl
      · split
        · cases fd with
          | scalar info kind => rfl
          | message info type =>
            exact run_bind (groups info type (.head _)) fun gt =>
              run_bind (later offset) fun _ => rfl
        · rw [ExceptT.run_bind, first]
          exact run_bind rfl fun placed => run_bind (later placed.2) fun _ => rfl

theorem layMembers_ends {group : FieldDescriptor → Bytes → Bounded GroupTemplate}
    {fds : List FieldDescriptor} (offset : Nat)
    (subs : ∀ info type, .message info type ∈ fds → info.isMap = false → info.repeated = false →
      Ends (build type.fullName))
    (groups : ∀ info type, .message info type ∈ fds →
      (FieldDescriptor.message info type).isList = true →
      Ends (group (.message info type) type.fullName)) :
    Ends (layMembers build group mdName offset fds) := by
  induction fds generalizing offset with
  | nil => exact ⟨_, rfl⟩
  | cons fd rest ih =>
    have later (next : Nat) := ih next (fun info type member => subs info type (.tail _ member))
      fun info type member => groups info type (.tail _ member)
    unfold layMembers
    split
    · exact ⟨_, rfl⟩
    · next noMap =>
        split
        · exact ⟨_, rfl⟩
        · split
          · next repeated =>
            cases fd with
            | scalar info kind => exact ⟨_, rfl⟩
            | message info type =>
              have list : (FieldDescriptor.message info type).isList = true := by
                rw [FieldDescriptor.isList, repeated, Bool.eq_false_of_not_eq_true noMap]
                rfl
              exact ends_bind (groups info type (.head _) list) fun gt =>
                ends_bind (later offset) fun _ => ⟨_, rfl⟩
          · next single =>
              refine ends_bind (partOf_ends ?_) fun part => ends_bind ⟨_, rfl⟩ fun placed =>
                ends_bind (later _) fun _ => ⟨_, rfl⟩
              rintro info type rfl
              exact subs info type (.head _) (Bool.eq_false_of_not_eq_true noMap)
                (Bool.eq_false_of_not_eq_true single)

end

namespace TypePool

variable {pool : TypePool}

theorem mem_sorted {fds : List FieldDescriptor} {fd : FieldDescriptor}
    (member : fd ∈ sortedFields fds) : fd ∈ fds := List.mem_insertionSort _ |>.mp member

theorem leads_finite (pool : TypePool) (name : Bytes) : {inner | pool.Leads name inner}.Finite := by
  let target : FieldDescriptor → Bytes
    | .scalar _ _ => []
    | .message _ type => type.fullName
  refine ((pool.type name).fields.finite_toSet.image target).subset ?_
  rintro inner ⟨info, type, member, rfl⟩
  exact ⟨_, member, rfl⟩

theorem Embeds.leads {outer inner : Bytes} (embeds : pool.Embeds outer inner) :
    pool.Leads outer inner := by
  obtain ⟨info, type, member, same, -⟩ := embeds
  exact ⟨info, type, member, same⟩

theorem Lists.leads {outer inner : Bytes} (lists : pool.Lists outer inner) :
    pool.Leads outer inner := by
  obtain ⟨info, type, member, same, -⟩ := lists
  exact ⟨info, type, member, same⟩

/-- A type has finitely many fields, so what each of them has from some depth on they all have from
some depth on. -/
theorem eventually_related {name : Bytes} {R : Bytes → Prop} {P : Bytes → Nat → Prop}
    (leads : ∀ inner, R inner → pool.Leads name inner)
    (each : ∀ inner, R inner → ∀ᶠ depth in atTop, P inner depth) :
    ∀ᶠ depth in atTop, ∀ inner, R inner → P inner depth :=
  ((pool.leads_finite name).subset leads).eventually_all.mpr each

theorem eventually_succ {P : Nat → Prop} (holds : ∀ᶠ depth in atTop, P (depth + 1)) :
    ∀ᶠ depth in atTop, P depth := by
  obtain ⟨least, large⟩ := eventually_atTop.mp holds
  refine eventually_atTop.mpr ⟨least + 1, fun depth deep => ?_⟩
  obtain ⟨k, rfl⟩ : ∃ k, depth = k + 1 := ⟨depth - 1, by omega⟩
  exact large k (by omega)

theorem buildCompositeFields_ends {name : Bytes} (finite : Acc (Function.swap pool.Embeds) name) :
    ∀ᶠ depth in atTop, Ends (pool.buildCompositeFields depth name) := by
  induction finite with
  | intro name _ ih =>
    refine eventually_succ ((eventually_related (fun _ => Embeds.leads) ih).mono fun depth ends => ?_)
    refine layFields_ends 0 fun info type member admitted => ?_
    refine ends _ ⟨info, type, mem_sorted member, rfl, ?_⟩
    simp only [compositeRefusal] at admitted
    split at admitted
    · cases admitted
    · next no => simpa [FieldDescriptor.info] using no

theorem buildGroupTemplate_ends {name : Bytes}
    (finite : ∀ inner, pool.Embeds name inner → Acc (Function.swap pool.Embeds) inner) :
    ∀ᶠ depth in atTop, ∀ fd, Ends (pool.buildGroupTemplate depth fd name) := by
  have subs := eventually_related (fun _ => Embeds.leads) fun inner embedded =>
    buildCompositeFields_ends (finite inner embedded)
  refine subs.mono fun depth ends fd => ends_bind (layFields_ends 0 ?_) fun _ => ⟨_, rfl⟩
  intro info type member admitted
  refine ends _ ⟨info, type, mem_sorted member, rfl, ?_⟩
  simp only [groupRefusal] at admitted
  split at admitted
  · cases admitted
  · next noMap =>
      split at admitted
      · cases admitted
      · next single =>
          exact ⟨Bool.eq_false_of_not_eq_true single, Bool.eq_false_of_not_eq_true noMap⟩

theorem buildTemplate_ends {name : Bytes}
    (finite : ∀ inner, pool.Holds name inner → Acc (Function.swap pool.Embeds) inner) :
    ∀ᶠ depth in atTop, ∀ schemaId version, Ends (pool.buildTemplate depth name schemaId version) := by
  have subs := eventually_related (fun _ => Embeds.leads) fun inner embedded =>
    buildCompositeFields_ends (finite inner (.inl embedded))
  have groups := eventually_related (fun _ => Lists.leads) fun entry listed =>
    buildGroupTemplate_ends fun inner embedded => finite inner (.inr ⟨entry, listed, embedded⟩)
  refine (subs.and groups).mono fun depth ⟨subs, groups⟩ schemaId version => ?_
  rw [buildTemplate]
  split
  · exact ⟨_, rfl⟩
  · split
    · exact ⟨_, rfl⟩
    · refine ends_bind (layMembers_ends 0 ?_ ?_) fun _ => ⟨_, rfl⟩
      · intro info type member noMap single
        exact subs _ ⟨info, type, mem_sorted member, rfl, single, noMap⟩
      · intro info type member list
        exact groups _ ⟨info, type, mem_sorted member, rfl, list⟩ _

/-- A type whose fields lead to no type again: the pool has the whole of it. -/
inductive Spells (pool : TypePool) : Descriptor → Prop
  | mk {md : Descriptor} (named : pool.type md.fullName = md)
      (fields : ∀ info type, .message info type ∈ md.fields → pool.Spells type) : pool.Spells md

theorem Spells.type_eq {md : Descriptor} (spelled : pool.Spells md) :
    pool.type md.fullName = md := by
  cases spelled
  assumption

theorem eventually_spelled {md : Descriptor} {P : Descriptor → Nat → Prop}
    (named : pool.type md.fullName = md)
    (fields : ∀ info type, .message info type ∈ md.fields → pool.Spells type)
    (each : ∀ info type, .message info type ∈ md.fields → ∀ᶠ depth in atTop, P type depth) :
    ∀ᶠ depth in atTop, ∀ info type, .message info type ∈ md.fields → P type depth := by
  have all : ∀ᶠ depth in atTop, ∀ inner, pool.Leads md.fullName inner →
      P (pool.type inner) depth := by
    refine eventually_related (fun _ => id) ?_
    rintro inner ⟨info, type, member, rfl⟩
    rw [named] at member
    rw [(fields info type member).type_eq]
    exact each info type member
  refine all.mono fun depth holds info type member => ?_
  have reached := holds type.fullName ⟨info, type, named.symm ▸ member, rfl⟩
  rwa [(fields info type member).type_eq] at reached

theorem buildCompositeFields_run {md : Descriptor} (spelled : pool.Spells md) :
    ∀ᶠ depth in atTop, (pool.buildCompositeFields depth md.fullName).run =
      some (Sbe.buildCompositeFields md) := by
  induction spelled with
  | @mk md named fields ih =>
    refine eventually_succ ((eventually_spelled named fields ih).mono fun depth subs => ?_)
    obtain ⟨fullName, templateId, stale, fds, nested⟩ := md
    rw [buildCompositeFields, Sbe.buildCompositeFields, sortedParts_eq, named]
    exact layFields_run (fun info type member => subs info type (mem_sorted member)) 0

theorem buildGroupTemplate_run {md : Descriptor} (spelled : pool.Spells md) :
    ∀ᶠ depth in atTop, ∀ fd, (pool.buildGroupTemplate depth fd md.fullName).run =
      some (Sbe.buildGroupTemplate fd md) := by
  obtain ⟨named, fields⟩ := spelled
  refine (eventually_spelled named fields fun info type member =>
    buildCompositeFields_run (fields info type member)).mono fun depth subs fd => ?_
  rw [buildGroupTemplate, Sbe.buildGroupTemplate, sortedParts_eq, named]
  exact run_bind (layFields_run (fun info type member => subs info type (mem_sorted member)) 0)
    fun _ => rfl

/-- Where no type leads to itself the template over the pool is that of the type written out. -/
theorem buildTemplate_run {md : Descriptor} (spelled : pool.Spells md) :
    ∀ᶠ depth in atTop, ∀ schemaId version,
      (pool.buildTemplate depth md.fullName schemaId version).run =
        some (Sbe.buildTemplate md schemaId version) := by
  obtain ⟨named, fields⟩ := spelled
  have subs := eventually_spelled named fields fun info type member =>
    buildCompositeFields_run (fields info type member)
  have groups := eventually_spelled named fields fun info type member =>
    buildGroupTemplate_run (fields info type member)
  refine (subs.and groups).mono fun depth ⟨subs, groups⟩ schemaId version => ?_
  rw [buildTemplate, Sbe.buildTemplate, sortedParts_eq, named]
  cases md.templateId with
  | none => rfl
  | some tid =>
    dsimp only
    split
    · rfl
    · exact run_bind (layMembers_run
        (fun info type member => subs info type (mem_sorted member))
        (fun info type member => groups info type (mem_sorted member) _) 0) fun _ => rfl

def unseen (pool : TypePool) (c : Collected) : Nat :=
  (pool.names.toFinset \ c.compSeen.toFinset).card

theorem unseen_le (pool : TypePool) {c c' : Collected} (grows : c.compSeen ⊆ c'.compSeen) :
    pool.unseen c' ≤ pool.unseen c := by
  refine Finset.card_le_card (Finset.sdiff_subset_sdiff (Finset.Subset.refl _) ?_)
  intro name member
  exact List.mem_toFinset.mpr (grows (List.mem_toFinset.mp member))

theorem unseen_addComposite {c : Collected} {name : Bytes} (known : name ∈ pool.names)
    (fresh : name ∉ c.compSeen) : pool.unseen (c.addComposite (pool.type name)) < pool.unseen c := by
  refine Finset.card_lt_card (Finset.ssubset_iff_of_subset ?_ |>.mpr ⟨name, ?_, ?_⟩)
  · refine Finset.sdiff_subset_sdiff (Finset.Subset.refl _) fun other member => ?_
    exact List.mem_toFinset.mpr (.tail _ (List.mem_toFinset.mp member))
  · simp [known, fresh]
  · simp [Collected.addComposite, pool.named]

theorem compSeen_addEnum (c : Collected) (ed : EnumDescriptor) :
    (c.addEnum ed).compSeen = c.compSeen := by
  rw [Collected.addEnum]
  split <;> rfl

theorem compSeen_addEnums (eds : List EnumDescriptor) (c : Collected) :
    (eds.foldl Collected.addEnum c).compSeen = c.compSeen := by
  induction eds generalizing c with
  | nil => rfl
  | cons ed rest ih => rw [List.foldl_cons, ih, compSeen_addEnum]

theorem compSeen_addLength (c : Collected) (info : FieldInfo) (kind : Kind) :
    (c.addLength info kind).compSeen = c.compSeen := by
  unfold Collected.addLength
  split <;> rfl

theorem foldlM_ends {α : Type} {step : Collected → α → Option Collected} {items : List α}
    (start : List Bytes)
    (steps : ∀ item ∈ items, ∀ c : Collected, start ⊆ c.compSeen →
      ∃ c', step c item = some c' ∧ c.compSeen ⊆ c'.compSeen)
    (c : Collected) (grown : start ⊆ c.compSeen) :
    ∃ c', items.foldlM step c = some c' ∧ c.compSeen ⊆ c'.compSeen := by
  induction items generalizing c with
  | nil => exact ⟨c, rfl, fun _ => id⟩
  | cons item rest ih =>
    obtain ⟨c₁, first, grows⟩ := steps item (.head _) c grown
    obtain ⟨c₂, later, grows'⟩ := ih (fun other member => steps other (.tail _ member)) c₁
      (List.Subset.trans grown grows)
    exact ⟨c₂, by rw [List.foldlM_cons, first]; exact later, List.Subset.trans grows grows'⟩

/-- Collecting from a type ends, at one depth for all that leaves no more than `most` types unseen. -/
def Collects (pool : TypePool) (most : Nat) (name : Bytes) (depth : Nat) : Prop :=
  ∀ c, pool.unseen c ≤ most →
    ∃ c', pool.collectTypes depth name c = some c' ∧ c.compSeen ⊆ c'.compSeen

theorem collectTypes_step {most depth : Nat} {name : Bytes} (known : name ∈ pool.names)
    (lists : ∀ inner, pool.Lists name inner → pool.Collects most inner depth)
    (fewer : 0 < most → ∀ inner, pool.Leads name inner → pool.Collects (most - 1) inner depth) :
    pool.Collects most name (depth + 1) := by
  intro c few
  have enums := compSeen_addEnums (pool.enumsIn name) c
  rw [← enums]
  refine foldlM_ends c.compSeen (fun fd member now grown => ?_) _ (enums ▸ fun _ => id)
  have few := Nat.le_trans (pool.unseen_le grown) few
  cases fd with
  | scalar info kind =>
    refine ⟨_, rfl, ?_⟩
    split
    · rw [compSeen_addEnum, compSeen_addLength]
      exact fun _ => id
    · rw [compSeen_addLength]
      exact fun _ => id
  | message info type =>
    rw [collectField]
    split
    · next list => exact lists _ ⟨info, type, member, rfl, list⟩ now few
    · split
      · exact ⟨now, rfl, fun _ => id⟩
      · next fresh =>
          have less := unseen_addComposite (pool.closed name known info type member)
            (by simpa using fresh)
          obtain ⟨c', ran, grows⟩ := fewer (by omega) _ ⟨info, type, member, rfl⟩
            (now.addComposite (pool.type type.fullName)) (by omega)
          exact ⟨c', ran, fun _ seen => grows (.tail _ seen)⟩

theorem Exported.leads {outer inner : Bytes} (exported : pool.Exported outer)
    (leads : pool.Leads outer inner) : pool.Exported inner := by
  obtain ⟨root, listed, template, reached⟩ := exported
  exact ⟨root, listed, template, reached.tail leads⟩

theorem Exported.known {name : Bytes} (exported : pool.Exported name) : name ∈ pool.names := by
  obtain ⟨root, listed, -, reached⟩ := exported
  induction reached with
  | refl => exact pool.declared root listed
  | tail _ leads ih =>
    obtain ⟨info, type, member, rfl⟩ := leads
    exact pool.closed _ ih info type member

theorem collectTypes_ends
    (finite : ∀ name, pool.Exported name → Acc (Function.swap pool.Lists) name) (most : Nat) :
    ∀ name, pool.Exported name → ∀ᶠ depth in atTop, pool.Collects most name depth := by
  -- a type seen for the first time leaves one fewer unseen, and lists lead to an end
  induction most with
  | zero =>
    intro name exported
    induction finite name exported with
    | intro name _ ih =>
      have lists := eventually_related (fun _ => Lists.leads) fun inner listed =>
        ih inner listed (exported.leads listed.leads)
      exact eventually_succ (lists.mono fun depth lists =>
        collectTypes_step exported.known lists fun more => absurd more (Nat.lt_irrefl 0))
  | succ most fewer =>
    intro name exported
    induction finite name exported with
    | intro name _ ih =>
      have lists := eventually_related (fun _ => Lists.leads) fun inner listed =>
        ih inner listed (exported.leads listed.leads)
      have others := eventually_related (fun _ => id) fun inner leads => fewer inner (exported.leads leads)
      exact eventually_succ ((lists.and others).mono fun depth ⟨lists, others⟩ =>
        collectTypes_step exported.known lists fun _ => others)

theorem collected_ends (finite : ∀ name, pool.Exported name → Acc (Function.swap pool.Lists) name) :
    ∃ depth c, pool.collected depth = some c := by
  have templates : ∀ᶠ depth in atTop, ∀ name ∈ pool.messageTypes,
      (pool.type name).templateId.isSome → pool.Collects (pool.unseen {}) name depth := by
    refine pool.messageTypes.finite_toSet.eventually_all.mpr fun name listed => ?_
    by_cases template : (pool.type name).templateId.isSome
    · exact (collectTypes_ends finite _ name ⟨name, listed, template, .refl⟩).mono
        fun _ collects _ => collects
    · exact .of_forall fun _ given => absurd given template
  obtain ⟨depth, templates⟩ := templates.exists
  refine ⟨depth, (foldlM_ends [] (fun name listed c grown => ?_) _ (List.nil_subset _)).imp
    fun _ => And.left⟩
  rw [collectMessage]
  split
  · next template => exact templates name listed template c (pool.unseen_le grown)
  · split
    · exact ⟨c, rfl, fun _ => id⟩
    · exact ⟨_, rfl, fun _ => .tail _⟩

def nodePool (repeated : Bool) : TypePool where
  names := [text "Node"]
  type := fun name => .mk name (some 1) false
    [.message { name := text "node", fullName := text "Node.node", number := 1, repeated }
      (.mk (text "Node") none false [] [])] []
  named := fun _ => rfl
  closed := by
    intro name _ info sub member
    obtain ⟨-, rfl⟩ : info = _ ∧ sub = _ := by simpa using List.mem_singleton.mp member
    exact List.mem_singleton_self _
  enumsIn := fun _ => []
  enumOf := fun _ => ⟨[], []⟩
  messageTypes := [text "Node"]
  declared := fun _ => id
  enumTypes := []

theorem nodePool_field {repeated : Bool} {outer : Bytes} {info : FieldInfo} {type : Descriptor}
    (member : .message info type ∈ ((nodePool repeated).type outer).fields) :
    info.repeated = repeated := by
  obtain ⟨rfl, -⟩ : info = _ ∧ type = _ := by simpa using List.mem_singleton.mp member
  rfl

theorem partOf_node (depth : Nat) (info : FieldInfo) :
    (partOf ((nodePool false).buildCompositeFields depth)
      (.message info (.mk (text "Node") none false [] []))).run = none := by
  induction depth generalizing info with
  | zero => rfl
  | succ depth ih =>
    have unbuilt : ((nodePool false).buildCompositeFields (depth + 1) (text "Node")).run =
        none := by
      change ((partOf ((nodePool false).buildCompositeFields depth) _ >>= _).run) = none
      rw [ExceptT.run_bind, ih]
      rfl
    exact congrArg (Option.map _) unbuilt

theorem node_uncollected (depth : Nat) (c : Collected) :
    (nodePool true).collectTypes depth (text "Node") c = none := by
  induction depth generalizing c with
  | zero => rfl
  | succ depth ih =>
    change ((nodePool true).collectTypes depth (text "Node") _ >>= _) = none
    rw [ih]
    rfl

end TypePool

end Protowire.Sbe
