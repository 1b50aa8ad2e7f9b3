import Protowire.Sbe.Template

/-!
The two indexes of a codec. A template is kept under its name and pointed to by its ids. A message
registered again takes the place of its template under the name, and under the ids as well, unless
they have changed: then the old ids go on pointing to the template that was replaced.
-/

namespace Protowire.Sbe.Codec

open Support

def registration (schemaId : Nat) (md : Descriptor) : List (Bytes × (Nat × Nat)) :=
  (md.templateId.map fun tid => (md.fullName, (schemaId, tid))).toList

def registrations (file : FileDescriptor) : List (Bytes × (Nat × Nat)) :=
  (allNested file.messageTypes).flatMap (registration (file.schemaId.getD 0))

def Consistent (c : Codec) : Prop :=
  ∀ key name tmpl, c.byId.lookup key = some (name, tmpl) →
    c.templateByName name = some tmpl ∧ (tmpl.schemaId, tmpl.templateId) = key

structure Indexed (c : Codec) : Prop where
  names : c.byName = c.byId.map (·.2)
  ids : ∀ entry ∈ c.byId, (entry.2.2.schemaId, entry.2.2.templateId) = entry.1
  unshared : ∀ entry ∈ c.byId, ∀ other, c.byId.lookup entry.1 = some other → other.1 = entry.2.1

theorem lookup_of_mem {α β : Type} [BEq α] [LawfulBEq α] {entries : List (α × β)} {entry : α × β}
    (member : entry ∈ entries) : ∃ value, entries.lookup entry.1 = some value := by
  cases found : entries.lookup entry.1 with
  | none => simpa using List.lookup_eq_none_iff.mp found entry member
  | some value => exact ⟨value, rfl⟩

theorem buildTemplate_ids {md : Descriptor} {schemaId version : Nat} {tmpl : MessageTemplate}
    (built : buildTemplate md schemaId version = .ok tmpl) :
    tmpl.schemaId = schemaId ∧ md.templateId = some tmpl.templateId := by
  rw [buildTemplate] at built
  split at built
  · cases built
  · rename_i tid given
    split at built
    · cases built
    · obtain ⟨placed, -, built⟩ := except_bind_ok built
      cases built
      exact ⟨rfl, given⟩

theorem registerOne_indexed {schemaId version : Nat} {c after : Codec} {md : Descriptor}
    (indexed : c.Indexed) (registered : registerOne schemaId version c md = .ok after) :
    after.Indexed := by
  obtain ⟨-, rfl⟩ | ⟨tmpl, built, unshared, rfl⟩ := registerOne_ok registered
  · exact indexed
  have ids := (buildTemplate_ids built).1
  refine ⟨by rw [indexed.names, List.map_cons],
    List.forall_mem_cons.mpr ⟨by rw [ids], indexed.ids⟩, ?_⟩
  refine List.forall_mem_cons.mpr ⟨fun other found => ?_, fun entry member other found => ?_⟩
  · rw [List.lookup_cons_self] at found
    cases found
    rfl
  · rw [List.lookup_cons] at found
    split at found
    · -- the ids are those of the new entry, which had the name before
      rename_i same
      cases found
      obtain ⟨previous, known⟩ := lookup_of_mem member
      rw [← indexed.unshared entry member previous known]
      exact (unshared previous (beq_iff_eq.mp same ▸ known)).symm
    · exact indexed.unshared entry member other found

theorem new_indexed {files : List FileDescriptor} {opts : CodecOptions} {c : Codec}
    (accepted : new files opts = .ok c) : c.Indexed := by
  refine foldlM_ok Indexed (fun file _ before after indexed registered => ?_) ?_ accepted
  · obtain ⟨schema, version, -, -, -, registered⟩ := registerFile_ok registered
    exact foldlM_ok Indexed (fun md _ _ _ => registerOne_indexed) indexed registered
  · exact ⟨rfl, by simp, by simp⟩

def history (c : Codec) : List (Bytes × (Nat × Nat)) :=
  c.byId.map fun entry => (entry.2.1, entry.1)

theorem registerOne_history {schemaId version : Nat} {before after : Codec} {md : Descriptor}
    (registered : registerOne schemaId version before md = .ok after) :
    after.history = registration schemaId md ++ before.history := by
  obtain ⟨plain, rfl⟩ | ⟨tmpl, built, -, rfl⟩ := registerOne_ok registered
  · rw [registration, plain]
    rfl
  · rw [registration, (buildTemplate_ids built).2]
    rfl

theorem registerFile_history {before after : Codec} {file : FileDescriptor}
    (registered : registerFile before file = .ok after) :
    after.history = (registrations file).reverse ++ before.history := by
  obtain ⟨schema, version, -, -, given, registered⟩ := registerFile_ok registered
  have single (md : Descriptor) : (registration schema md).reverse = registration schema md := by
    rw [registration]
    cases md.templateId <;> rfl
  rw [foldlM_collects history (registration schema) (fun _ _ _ => registerOne_history) registered,
    registrations, given, List.reverse_flatMap]
  simp only [Function.comp_def, Option.getD_some, single]

theorem new_registrations {files : List FileDescriptor} {opts : CodecOptions} {c : Codec}
    (accepted : new files opts = .ok c) (name : Bytes) (key : Nat × Nat) :
    (name, key) ∈ files.flatMap registrations ↔ ∃ tmpl, (key, (name, tmpl)) ∈ c.byId := by
  have put : (name, key) ∈ c.history ↔ ∃ tmpl, (key, (name, tmpl)) ∈ c.byId := by simp [history]
  rw [← put, foldlM_collects history (fun file => (registrations file).reverse)
    (fun _ _ _ => registerFile_history) accepted]
  simp [history]

theorem lookup_names {entries : List ((Nat × Nat) × (Bytes × MessageTemplate))}
    (same : ∀ a ∈ entries, ∀ b ∈ entries, a.2.1 = b.2.1 → a.1 = b.1) {key : Nat × Nat}
    {name : Bytes} {tmpl : MessageTemplate} (found : entries.lookup key = some (name, tmpl)) :
    (entries.map (·.2)).lookup name = some tmpl := by
  obtain ⟨before, after, rfl, earlier⟩ := List.lookup_eq_some_iff.mp found
  refine List.lookup_eq_some_iff.mpr ⟨before.map (·.2), after.map (·.2), by simp, ?_⟩
  intro entry member
  obtain ⟨entry, listed, rfl⟩ := List.mem_map.mp member
  have other := earlier entry listed
  rw [bne_iff_ne] at other ⊢
  intro sameName
  exact other (same (key, (name, tmpl)) (by simp) entry (by simp [listed]) sameName)

/-- The indexes agree where no message is registered under two pairs of ids, and only there. What
a codec marshals is found by its ids all the same. -/
theorem identities_iff {files : List FileDescriptor} {opts : CodecOptions} {c : Codec}
    (accepted : new files opts = .ok c) :
    (c.Consistent ↔ ∀ a ∈ files.flatMap registrations, ∀ b ∈ files.flatMap registrations,
      a.1 = b.1 → a.2 = b.2) ∧
    ∀ name tmpl, c.templateByName name = some tmpl →
      c.byId.lookup (tmpl.schemaId, tmpl.templateId) = some (name, tmpl) := by
  have indexed := new_indexed accepted
  have registered := new_registrations accepted
  refine ⟨⟨fun consistent => ?_, fun same => ?_⟩, fun name tmpl found => ?_⟩
  · rintro ⟨name, key⟩ first ⟨_, other⟩ second rfl
    -- both pairs of ids lead to the one template under the name, which has one pair
    have leads {key : Nat × Nat} (listed : (name, key) ∈ files.flatMap registrations) :
        ∃ tmpl, c.templateByName name = some tmpl ∧ (tmpl.schemaId, tmpl.templateId) = key := by
      obtain ⟨tmpl, member⟩ := (registered name key).mp listed
      obtain ⟨⟨held, current⟩, known⟩ := lookup_of_mem member
      obtain rfl : held = name := indexed.unshared _ member _ known
      exact ⟨current, consistent key held current known⟩
    obtain ⟨tmpl, found, rfl⟩ := leads first
    obtain ⟨_, again, rfl⟩ := leads second
    rw [found] at again
    cases again
    rfl
  · intro key name tmpl found
    have member : (key, (name, tmpl)) ∈ c.byId := by
      obtain ⟨before, after, entries, -⟩ := List.lookup_eq_some_iff.mp found
      rw [entries]
      simp
    refine ⟨?_, indexed.ids _ member⟩
    rw [templateByName, indexed.names]
    refine lookup_names (fun a first b second names => ?_) found
    exact same (a.2.1, a.1) ((registered _ _).mpr ⟨_, first⟩) (b.2.1, b.1)
      ((registered _ _).mpr ⟨_, second⟩) names
  · exact (new_sound accepted name tmpl found).2

def renumbered (tid : Nat) : FileDescriptor where
  name := text "m.proto"
  schemaId := some 1
  messageTypes := [.mk (text "M") (some tid) false [] []]
  wellFormed := rfl

theorem identities_repeated :
    ∃ c, new [renumbered 1, renumbered 1] = .ok c ∧ c.Consistent := by
  obtain ⟨c, accepted⟩ : ∃ c, new [renumbered 1, renumbered 1] = .ok c := ⟨_, rfl⟩
  exact ⟨c, accepted, (identities_iff accepted).1.mpr (by decide)⟩

theorem identities_stale :
    (new [renumbered 1, renumbered 2]).toOption.map
        (fun c => (c.byId.lookup (1, 1), c.templateByName (text "M"))) =
      some (some (text "M", ⟨1, 1, 0, 0, [], []⟩), some ⟨2, 1, 0, 0, [], []⟩) := rfl

end Protowire.Sbe.Codec
