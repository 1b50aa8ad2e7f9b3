import Protowire.Pxf.Staging

/-!
Two calls of a rewriter: which one the text shows where both address one thing, and whether their
order shows where they do not.
-/

namespace Protowire.Pxf

open Support

variable {s : Source} {fieldPath key : Bytes} {first second edits : List SpanEdit} {r : Rewriter}

inductive Repeats : Call → Call → Prop
  | set (path : Bytes) (v w : Value) : Repeats (.set path v) (.set path w)
  | replaceValue (old v w : Value) : Repeats (.replaceValue old v) (.replaceValue old w)
  | setKeyed (fieldPath key subpath : Bytes) (v w : Value) :
      Repeats (.setKeyed fieldPath key subpath v) (.setKeyed fieldPath key subpath w)
  | move (fieldPath key before before' : Bytes) :
      Repeats (.moveKeyedElement fieldPath key before) (.moveKeyedElement fieldPath key before')

namespace Source

def listAnchor (bs : List KeyedBinding) (before : Bytes) : Option ListElem :=
  match findKeyedElem bs before with
  | some (.anon a) => if before.isEmpty then none else some a
  | _ => none

/-- Two moves of an element of an anonymous list, the first to another place, and then either back
to where it is, or to before an element after the first took it to the end of a list of lines
whose last element has a comment but no comma. -/
def leavesEdits (s : Source) : Call → Call → Bool
  | .moveKeyedElement fieldPath key before, .moveKeyedElement _ _ before' =>
    match s.keyedBindings [] fieldPath with
    | .error _ => false
    | .ok bs =>
      match findKeyedElem bs key with
      | some (.anon elem) =>
        !inPlace elem (listAnchor bs before) && (inPlace elem (listAnchor bs before') ||
          (listAnchor bs before).isNone && (listAnchor bs before').isSome &&
            s.commaApart elem.list)
      | _ => false
  | _, _ => false

theorem keyedBindings_op {op : Bytes} {bs : List KeyedBinding}
    (bound : s.keyedBindings op fieldPath = .ok bs) (op' : Bytes) :
    s.keyedBindings op' fieldPath = .ok bs := by
  simp only [keyedBindings] at bound ⊢
  cases resolved : s.keyedScopeEntries fieldPath with
  | error problem =>
    rw [resolved] at bound
    cases bound
  | ok found =>
    rw [resolved] at bound
    simp only at bound ⊢
    split at bound
    · split at bound <;> cases bound
    · rename_i some_
      rw [if_neg some_]
      split at bound
      · rename_i spans
        rw [if_pos spans]
        exact bound
      · cases bound

theorem spliceNames_prefix {comma comma' : Bool} (kept : comma = true → comma' = true) :
    spliceNames key comma <+: spliceNames key comma' := by
  cases comma <;> cases comma' <;> simp_all [spliceNames]

theorem moveListElement_covers {elem : ListElem} {anchor anchor' : Option ListElem}
    (kept : inPlace elem anchor = false → inPlace elem anchor' = false ∧
      (anchor = none → s.commaApart elem.list = true → anchor' = none)) :
    Edit.paths (s.moveListElementEdits fieldPath elem anchor) <+:
      Edit.paths (s.moveListElementEdits fieldPath elem anchor') := by
  cases stays : inPlace elem anchor with
  | true =>
    rw [moveListElementEdits, stays, if_pos rfl]
    exact List.nil_prefix
  | false =>
    obtain ⟨moves, comma⟩ := kept stays
    rw [paths_moveListElementEdits s fieldPath elem anchor stays,
      paths_moveListElementEdits s fieldPath elem anchor' moves, List.prefix_append_right_inj]
    refine spliceNames_prefix fun apart => ?_
    rw [Bool.and_eq_true, Option.isNone_iff_eq_none] at apart ⊢
    exact ⟨comma apart.1 apart.2, apart.2⟩

theorem commaAt_appendToLast (s : Source) (bs : List KeyedBinding) (key : Bytes)
    (body body' : List Entry) :
    (s.appendToLast bs key body).commaAt.isSome = (s.appendToLast bs key body').commaAt.isSome := by
  have plain (scopeStart closeOff : Nat) (siblings : List Entry) (e : Entry) :
      (s.renderAppendEntry scopeStart closeOff siblings e).commaAt = none := by
    simp only [renderAppendEntry]
    split <;> rfl
  rw [appendToLast, appendToLast]
  split
  · rename_i b last
    rw [renderAppendKeyedElement, renderAppendKeyedElement]
    split
    · rw [commaAt_append, commaAt_append]
    · rw [plain, plain]
  · rfl

theorem paths_setKeyed {subpath : Bytes} {v w : Value}
    (planned : s.setKeyedEdits fieldPath key subpath v = .ok first)
    (planned' : s.setKeyedEdits fieldPath key subpath w = .ok second) :
    Edit.paths first = Edit.paths second := by
  simp only [setKeyedEdits] at planned planned'
  split at planned
  · cases planned
  split at planned
  · cases planned
  rename_i keyed
  by_cases bad : containsBadVal w = true
  · rw [if_pos bad] at planned'
    cases planned'
  rw [if_neg bad, if_neg keyed] at planned'
  obtain ⟨bs, bound, planned⟩ := except_bind_ok planned
  obtain ⟨bs', bound', planned'⟩ := except_bind_ok planned'
  obtain rfl : bs = bs' := by simpa using bound.symm.trans bound'
  cases found : findKeyedElem bs key with
  | none =>
    rw [found] at planned planned'
    obtain ⟨chain, -, planned⟩ := except_bind_ok planned
    obtain ⟨chain', -, planned'⟩ := except_bind_ok planned'
    cases planned
    cases planned'
    rw [paths_spliceEdits, paths_spliceEdits, commaAt_appendToLast s bs key chain chain']
  | some elem =>
    rw [found] at planned planned'
    obtain ⟨t, -, planned⟩ := except_bind_ok planned
    obtain ⟨t', -, planned'⟩ := except_bind_ok planned'
    rw [paths_setResolved planned, paths_setResolved planned']

theorem listAnchor_eq {bs : List KeyedBinding} {before : Bytes} {anchor : Option ListElem}
    (place : before = [] ∧ anchor = none ∨
      ∃ a, before ≠ [] ∧ findKeyedElem bs before = some (.anon a) ∧ anchor = some a) :
    anchor = listAnchor bs before := by
  obtain ⟨rfl, rfl⟩ | ⟨a, some_, found, rfl⟩ := place
  · rw [listAnchor]
    split <;> rfl
  · have nonempty : before.isEmpty = false := by simpa using some_
    simp only [listAnchor, found, nonempty, Bool.false_eq_true, if_false]

theorem planned_covers {c d : Call} (repeats : Repeats c d) (kept : s.leavesEdits c d = false)
    (planned : s.planned c = .ok first) (planned' : s.planned d = .ok second) :
    Edit.paths first <+: Edit.paths second := by
  cases repeats with
  | set path v w =>
    exact (paths_setEdits planned).trans (paths_setEdits planned').symm ▸ List.prefix_rfl
  | replaceValue old v w =>
    exact (paths_replaceValueEdits planned).trans (paths_replaceValueEdits planned').symm ▸
      List.prefix_rfl
  | setKeyed fieldPath key subpath v w =>
    exact paths_setKeyed planned planned' ▸ List.prefix_rfl
  | move fieldPath key before before' =>
    obtain ⟨op, bs, bound, moved⟩ := moveKeyedElementEdits_ok planned
    obtain ⟨op', bs', bound', moved'⟩ := moveKeyedElementEdits_ok planned'
    obtain rfl : bs = bs' := by
      simpa using (keyedBindings_op bound op').symm.trans bound'
    obtain ⟨elem, anchor, found, place, rfl⟩ | ⟨elem, anchor, found, place, moved⟩ := moved <;>
    obtain ⟨elem', anchor', found', place', rfl⟩ | ⟨elem', anchor', found', place', moved'⟩ := moved'
    · obtain rfl : elem = elem' := by simpa using found.symm.trans found'
      obtain rfl := listAnchor_eq place
      obtain rfl := listAnchor_eq place'
      refine moveListElement_covers fun moves => ?_
      simp only [leavesEdits, keyedBindings_op bound [], found, moves, Bool.not_false,
        Bool.true_and, Bool.or_eq_false_iff] at kept
      refine ⟨kept.1, fun none_ apart => ?_⟩
      have absent := kept.2
      rw [none_, apart] at absent
      simpa using absent
    · simp [found] at found'
    · simp [found] at found'
    · obtain rfl : elem = elem' := by simpa using found.symm.trans found'
      exact (paths_moveBlockElementEdits moved).trans (paths_moveBlockElementEdits moved').symm ▸
        List.prefix_rfl

end Source

theorem Rewriter.call_staged {r₂ : Rewriter} {d : Call} (alone : r.call d = .ok r₂)
    (edits : List SpanEdit) :
    ∃ more, r.planned d = .ok more ∧ r₂ = r.stage more ∧
      (r.stage edits).call d = .ok ((r.stage edits).stage more) := by
  obtain ⟨more, planned, rfl⟩ := call_ok.mp alone
  exact ⟨more, planned, rfl, call_ok.mpr ⟨more, planned, rfl⟩⟩

/-- A call that repeats another and leaves none of its edits takes its place. -/
theorem Rewriter.call_again {r r₁ r₂ : Rewriter} {c d : Call} (repeats : Repeats c d)
    (kept : r.leavesEdits c d = false) (first : r.call c = .ok r₁) (alone : r.call d = .ok r₂) :
    ∃ r₁₂, r₁.call d = .ok r₁₂ ∧ r₁₂.bytes = r₂.bytes := by
  obtain ⟨edits, planned, rfl⟩ := call_ok.mp first
  obtain ⟨more, planned', rfl, second⟩ := call_staged alone edits
  refine ⟨_, second, ?_⟩
  have staged : (r.stage edits).stage more = r.stage more := by
    simp only [stage]
    rw [Edit.stageAll_again (Source.planned_names planned).1
      (Source.planned_covers repeats kept planned planned')]
  rw [staged]

def Rewriter.opened (src fieldPath keyField : Bytes) : Rewriter :=
  match Rewriter.new src with
  | .ok r => r.keyedByField fieldPath keyField
  | .error _ => { src := [], doc := {} }

def threeListed : Bytes :=
  text "f = [\n  \x7b k = \"a\" \x7d,\n  \x7b k = \"b\" \x7d,\n  \x7b k = \"c\" \x7d\n]\n"

theorem Rewriter.call_again_moves :
    ∃ r₁ r₂ r₁₂, (opened threeListed (text "f") (text "k")).call
        (.moveKeyedElement (text "f") (text "c") (text "b")) = .ok r₁ ∧
      (opened threeListed (text "f") (text "k")).call
        (.moveKeyedElement (text "f") (text "c") (text "a")) = .ok r₂ ∧
      r₁.call (.moveKeyedElement (text "f") (text "c") (text "a")) = .ok r₁₂ ∧
      r₁₂.bytes = r₂.bytes := by
  have moves : ((opened threeListed (text "f") (text "k")).call
      (.moveKeyedElement (text "f") (text "c") (text "b"))).isOk = true := by decide +kernel
  have moves' : ((opened threeListed (text "f") (text "k")).call
      (.moveKeyedElement (text "f") (text "c") (text "a"))).isOk = true := by decide +kernel
  obtain ⟨r₁, first⟩ := exists_of_isOk moves
  obtain ⟨r₂, alone⟩ := exists_of_isOk moves'
  obtain ⟨r₁₂, second, same⟩ := call_again (.move _ _ _ _) (by decide +kernel) first alone
  exact ⟨r₁, r₂, r₁₂, first, alone, second, same⟩

def Rewriter.after (r : Rewriter) (c d : Call) : Except Bytes Bytes := do
  let first ← r.call c
  let second ← first.call d
  second.bytes

theorem Rewriter.call_again_undone :
    (opened threeListed (text "f") (text "k")).after
        (.moveKeyedElement (text "f") (text "a") (text "c"))
        (.moveKeyedElement (text "f") (text "a") (text "b")) =
      .ok (text "f = [\n  \x7b k = \"b\" \x7d,\n  \x7b k = \"a\" \x7d,\n  \x7b k = \"c\" \x7d\n]\n") ∧
    ((opened threeListed (text "f") (text "k")).call
        (.moveKeyedElement (text "f") (text "a") (text "b"))).bind bytes = .ok threeListed := by
  decide +kernel

def SameOutcome : Except Bytes Bytes → Except Bytes Bytes → Prop
  | .ok first, .ok second => first = second
  | .error _, .error _ => True
  | _, _ => False

/-- The two calls stage no edit under one identity. -/
def Source.Separate (s : Source) (c d : Call) : Prop :=
  ∀ first second, s.planned c = .ok first → s.planned d = .ok second →
    ∀ name ∈ Edit.paths second, name ∉ Edit.paths first

def Source.Meets (s : Source) (c d : Call) : Prop :=
  ∃ first second, s.planned c = .ok first ∧ s.planned d = .ok second ∧
    ∃ a ∈ first, ∃ b ∈ second, a.start = b.start ∧ ¬(a.Inserts ↔ b.Inserts)

def Source.InsertTogether (s : Source) (c d : Call) : Prop :=
  ∃ first second, s.planned c = .ok first ∧ s.planned d = .ok second ∧
    ∃ a ∈ first, ∃ b ∈ second, a.start = b.start ∧ a.Inserts ∧ b.Inserts

theorem Rewriter.bytes_error (overlaps : ¬Edit.Clear r.edits) :
    ∃ problem, r.bytes = .error problem := by
  rw [Edit.clear_iff, ← ne_eq, Option.ne_none_iff_exists'] at overlaps
  obtain ⟨clash, found⟩ := overlaps
  have staged : r.edits.isEmpty = false := by
    cases edits : r.edits with
    | nil =>
      rw [edits] at found
      cases found
    | cons _ _ => rfl
  simp only [bytes, staged, found, Bool.false_eq_true, if_false]
  exact ⟨_, rfl⟩

theorem sameOutcome_refl (outcome : Except Bytes Bytes) : SameOutcome outcome outcome := by
  cases outcome with
  | ok _ => rfl
  | error _ => trivial

theorem Rewriter.bytes_sorted (same : Edit.sorted (first ++ second) = Edit.sorted (second ++ first)) :
    Rewriter.bytes { r with edits := first ++ second } =
      Rewriter.bytes { r with edits := second ++ first } := by
  have empty : (first ++ second).isEmpty = (second ++ first).isEmpty := by
    cases first <;> cases second <;> rfl
  simp only [bytes, same, empty]

theorem Rewriter.bytes_clear {e : SpanEdit} (listed : e ∈ r.edits) (clear : Edit.Clear r.edits) :
    r.bytes = reparsed (Edit.splice r.src 0 (Edit.sorted r.edits)) := by
  have nonempty : r.edits.isEmpty = false := by
    rw [List.isEmpty_eq_false_iff]
    exact List.ne_nil_of_mem listed
  rw [Edit.clear_iff] at clear
  simp only [bytes, nonempty, clear, Bool.false_eq_true, if_false]

theorem Source.separate_of_clean {c d : Call} (targets : c.address ≠ d.address)
    (clean : c.address.Clean) (clean' : d.address.Clean) : s.Separate c d :=
  fun _ _ planned planned' name there here => targets (Address.names_unique clean clean'
    ((planned_names planned).2 name here) ((planned_names planned').2 name there))

theorem Rewriter.stage_both (fresh : r.edits = []) {c d : Call} (planned : r.planned c = .ok first)
    (planned' : r.planned d = .ok second) (separate : r.Separate c d) :
    ((r.stage first).stage second).edits = first ++ second ∧ (r.stage first).edits = first := by
  have start : Edit.stageAll r.edits first = first := by
    rw [fresh, Edit.stageAll_fresh (Source.planned_names planned).1 (by simp [Edit.paths]),
      List.nil_append]
  refine ⟨?_, start⟩
  simp only [stage, start]
  exact Edit.stageAll_fresh (Source.planned_names planned').1 (separate _ _ planned planned')

theorem Rewriter.bytes_unmeet (unmixed : Edit.Unmixed first second)
    (separate : ∀ a ∈ first, ∀ b ∈ second, a.start = b.start → ¬a.Inserts) :
    SameOutcome (Rewriter.bytes { r with edits := first ++ second })
      (Rewriter.bytes { r with edits := second ++ first }) := by
  by_cases ties : Edit.Apart first second
  · rw [bytes_sorted (Edit.sorted_append_comm ties)]
    exact sameOutcome_refl _
  · -- Two edits that start together and take text away overlap in either order.
    simp only [Edit.Apart, not_forall, not_not] at ties
    obtain ⟨a, here, b, there, same⟩ := ties
    have takes := separate a here b there same
    have takes' : ¬b.Inserts := fun inserts => takes ((unmixed a here b there same).mpr inserts)
    obtain ⟨problem, failed⟩ := bytes_error (r := { r with edits := first ++ second })
      (Edit.not_clear here there same takes)
    obtain ⟨problem', failed'⟩ := bytes_error (r := { r with edits := second ++ first })
      (Edit.not_clear there here same.symm takes')
    rw [failed, failed']
    trivial

def twoKeyed : Bytes := text "f \x7b\n  a \x7b\x7d\n  b \x7b\x7d\n\x7d\n"

end Protowire.Pxf
