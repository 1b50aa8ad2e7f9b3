import Protowire.Sbe.XmlCore

/-!
Field names through the XML form. A name is written with its segments run together, each but the
first with a capital, and read back by looking for the capitals. A capital opens a segment again
only where a small letter stands on one side of it, so digits and single letters can hide one.
-/

namespace Protowire.Sbe

structure Segment (q : Bytes) : Prop where
  letter : q.head?.any isLower = true
  plain : (q.all fun c => isLower c || isDigit c) = true

def joined (segments : List Bytes) : Bytes := [0x5F].intercalate segments

def Legible (last : Bool) : List Bytes → Prop
  | [] => True
  | q :: rest => (last = true ∨ q.tail.head?.any isLower = true) ∧
      Legible (q.tail.getLast?.any isLower) rest

def LegibleName : List Bytes → Prop
  | [] => True
  | first :: rest => Legible (first.getLast?.any isLower) rest

theorem joined_cons (first : Bytes) (rest : List Bytes) :
    joined (first :: rest) = first ++ rest.flatMap (0x5F :: ·) := by
  induction rest generalizing first with
  | nil => simp [joined]
  | cons q rest ih =>
    have next := ih q
    simp only [joined, List.intercalate_cons_cons] at next ⊢
    rw [next]
    simp

theorem Segment.cases {q : Bytes} (segment : Segment q) :
    ∃ c tail, q = c :: tail ∧ isLower c = true := by
  obtain ⟨letter, -⟩ := segment
  cases q with
  | nil => cases letter
  | cons c tail => exact ⟨c, tail, rfl, letter⟩

theorem Segment.mem {q : Bytes} (segment : Segment q) {c : UInt8} (member : c ∈ q) :
    isLower c = true ∨ isDigit c = true :=
  Bool.or_eq_true_iff.mp (List.all_eq_true.mp segment.plain c member)

theorem Segment.no_underscore {q : Bytes} (segment : Segment q) : (0x5F : UInt8) ∉ q := by
  intro member
  rcases segment.mem member with small | digit
  · revert small
    decide
  · revert digit
    decide

theorem snakeToCamel_joined {first : Bytes} {rest : List Bytes}
    (segments : ∀ q ∈ first :: rest, Segment q) :
    snakeToCamel (joined (first :: rest)) = first ++ rest.flatMap capitalized := by
  have parts : (joined (first :: rest)).splitOn 0x5F = first :: rest :=
    List.splitOn_intercalate _ (fun q member => (segments q member).no_underscore) (by simp)
  rw [snakeToCamel, parts]

theorem not_upper_of_plain {c : UInt8} (plain : isLower c = true ∨ isDigit c = true) :
    isUpper c = false := by
  simp only [isLower, isDigit, isUpper, Bool.and_eq_true, Bool.and_eq_false_iff,
    decide_eq_true_eq, decide_eq_false_iff_not, UInt8.le_iff_toNat_le, UInt8.reduceToNat] at *
  omega

theorem capital {c : UInt8} (small : isLower c = true) :
    isUpper (toUpper c) = true ∧ toLower (toUpper c) = c ∧ isLower (toUpper c) = false := by
  have upper : isUpper (c - 0x20) = true ∧ isLower (c - 0x20) = false := by
    simp only [isLower, isUpper, Bool.and_eq_true, Bool.and_eq_false_iff, decide_eq_true_eq,
      decide_eq_false_iff_not, UInt8.le_iff_toNat_le, UInt8.reduceToNat] at *
    have fits : (0x20 : UInt8) ≤ c := UInt8.le_iff_toNat_le.mpr (by simp; omega)
    rw [UInt8.toNat_sub_of_le _ _ fits]
    simp
    omega
  rw [toUpper, if_pos small, toLower, if_pos upper.1]
  exact ⟨upper.1, by simp, upper.2⟩

theorem camelToSnakeFrom_plain {tail : Bytes}
    (plain : ∀ c ∈ tail, isLower c = true ∨ isDigit c = true) (previous : Option UInt8)
    (more : Bytes) :
    camelToSnakeFrom previous (tail ++ more) =
      tail ++ camelToSnakeFrom (tail.getLast?.or previous) more := by
  induction tail generalizing previous with
  | nil => rfl
  | cons c tail ih =>
    have small := not_upper_of_plain (plain c (by simp))
    rw [List.cons_append, camelToSnakeFrom, ih fun d member => plain d (by simp [member])]
    simp only [small, Bool.false_and, Bool.false_eq_true, if_false, List.nil_append, toLower]
    cases last : tail.getLast? <;> simp [List.getLast?_cons, last]

theorem capitals_head {rest : List Bytes} (segments : ∀ q ∈ rest, Segment q) :
    (rest.flatMap capitalized).head?.any isLower = false := by
  cases rest with
  | nil => rfl
  | cons q rest =>
    obtain ⟨c, tail, rfl, letter⟩ := (segments q (by simp)).cases
    simpa [capitalized] using (capital letter).2.2

theorem camelToSnakeFrom_iff {rest : List Bytes} (segments : ∀ q ∈ rest, Segment q) (p : UInt8) :
    camelToSnakeFrom (some p) (rest.flatMap capitalized) = rest.flatMap (0x5F :: ·) ↔
      Legible (isLower p) rest := by
  induction rest generalizing p with
  | nil => simp [camelToSnakeFrom, Legible]
  | cons q rest ih =>
    have segment := segments q (by simp)
    have others : ∀ q ∈ rest, Segment q := fun q member => segments q (by simp [member])
    obtain ⟨c, tail, rfl, letter⟩ := segment.cases
    obtain ⟨upper, lowered, notLower⟩ := capital letter
    have next : (tail ++ rest.flatMap capitalized).head?.any isLower =
        tail.head?.any isLower := by
      cases tail with
      | nil => exact capitals_head others
      | cons d tail => rfl
    obtain ⟨x, last, small⟩ : ∃ x, tail.getLast?.or (some (toUpper c)) = some x ∧
        isLower x = tail.getLast?.any isLower := by
      cases tail.getLast? with
      | none => exact ⟨toUpper c, rfl, notLower⟩
      | some d => exact ⟨d, rfl, rfl⟩
    rw [List.flatMap_cons, List.flatMap_cons, capitalized, List.cons_append, camelToSnakeFrom,
      camelToSnakeFrom_plain fun d member => segment.mem (List.mem_cons_of_mem c member), last, next,
      upper, lowered, Legible, List.tail_cons, ← small, ← ih others x]
    have mark : c ≠ 0x5F := fun same => segment.no_underscore (by simp [same])
    cases parted : (isLower p || tail.head?.any isLower)
    · rw [Bool.or_eq_false_iff] at parted
      simp [parted, mark]
    · rw [Bool.or_eq_true] at parted
      simp [parted]

theorem camelToSnake_joined_iff {segments : List Bytes} (nonempty : segments ≠ [])
    (valid : ∀ q ∈ segments, Segment q) :
    camelToSnake (snakeToCamel (joined segments)) = joined segments ↔ LegibleName segments := by
  obtain ⟨first, rest, rfl⟩ := List.exists_cons_of_ne_nil nonempty
  have segment := valid first (by simp)
  obtain ⟨p, last⟩ : ∃ p, first.getLast? = some p := by
    obtain ⟨c, tail, rfl, -⟩ := segment.cases
    exact ⟨_, List.getLast?_cons⟩
  rw [snakeToCamel_joined valid, joined_cons, camelToSnake,
    camelToSnakeFrom_plain fun d member => segment.mem member,
    last, List.append_cancel_left_eq, LegibleName, last]
  exact camelToSnakeFrom_iff (fun q member => valid q (by simp [member])) p

/-- A name comes back from the XML form where every capital in it can be seen to open a segment,
and only there; so two such names of a message stay apart. -/
theorem fieldName_kept_iff {name : List Bytes} (nonempty : name ≠ [])
    (valid : ∀ q ∈ name, Segment q) :
    (camelToSnake (snakeToCamel (joined name)) = joined name ↔ LegibleName name) ∧
      (LegibleName name → ∀ other, other ≠ [] → (∀ q ∈ other, Segment q) → LegibleName other →
        joined name ≠ joined other →
        camelToSnake (snakeToCamel (joined name)) ≠ camelToSnake (snakeToCamel (joined other))) := by
  have kept := camelToSnake_joined_iff nonempty valid
  refine ⟨kept, fun legible other present segments also apart => ?_⟩
  rw [kept.mpr legible, (camelToSnake_joined_iff present segments).mpr also]
  exact apart

theorem fieldName_kept_order_id :
    camelToSnake (snakeToCamel (joined [text "order", text "id2"])) = text "order_id2" := by
  have valid : ∀ q ∈ [text "order", text "id2"], Segment q := by
    refine List.forall_mem_cons.mpr ⟨⟨by decide, by decide⟩, List.forall_mem_singleton.mpr ?_⟩
    exact ⟨by decide, by decide⟩
  exact (fieldName_kept_iff (List.cons_ne_nil _ _) valid).1.mpr ⟨.inl (by decide), trivial⟩

theorem fieldName_lost :
    camelToSnake (snakeToCamel (text "a_b_c")) = text "a_bc" ∧
      camelToSnake (snakeToCamel (text "a_bc")) = text "a_bc" ∧
      camelToSnake (snakeToCamel (text "leg1_x")) = text "leg1x" := by
  decide

end Protowire.Sbe
