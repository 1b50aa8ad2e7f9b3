import Protowire.Pb.Grammar
import Protowire.Support.Wrapping

/-!
Skipping the value of a field nobody knows: the `int` that `ConsumeFieldValue` returns, and the
recursive grammar that its list of open groups stands for.
-/

namespace Protowire.Wire

open Support

def castInt (n : Int) : Int := asSigned 32 n

def plainValueCount (type : WireType) (data : Bytes) : Int :=
  match type with
  | .varint =>
    match consumeVarint data with
    | none => -1
    | some (_, rest) => castInt (data.length - rest.length)
  | .fixed64 => if data.length < 8 then -1 else 8
  | .bytes =>
    match consumeVarint data with
    | none => -1
    | some (len, rest) =>
      if rest.length < len then -1
      else castInt (castInt (data.length - rest.length) + castInt len)
  | .fixed32 => if data.length < 4 then -1 else 4
  | _ => -1

def groupCountTurn (size : Nat) (s : GroupState) : Turn GroupState Int :=
  match s.open_ with
  | [] => .done (castInt (size - s.data.length))
  | last :: outer =>
    match consumeTag s.data with
    | none => .done (-1)
    | some (inner, type, rest) =>
      if type = .endGroup then if inner ≠ last then .done (-1) else .next ⟨rest, outer⟩
      else if type = .startGroup then
        if fieldValueRecursionLimit < s.open_.length then .done (-1)
        else .next ⟨rest, inner :: s.open_⟩
      else if plainValueCount type rest < 0 then .done (-1)
      else .next ⟨rest.drop (plainValueCount type rest).toNat, s.open_⟩

/-- `ConsumeFieldValue`: the count it returns. -/
def fieldValueCount (data : Bytes) (num : Nat) (type : WireType) : Int :=
  if type = .startGroup then
    loop (fun s => s.data.length) (groupCountTurn data.length) (fun _ => -1) ⟨data, [num]⟩
  else plainValueCount type data

mutual

inductive IsValueWithin : Nat → Nat → WireType → Bytes → Prop
  | plain {depth num : Nat} {type : WireType} {bytes : Bytes} (single : type ≠ .startGroup)
      (value : IsValue num type bytes) : IsValueWithin depth num type bytes
  | group {depth num : Nat} {body tag : Bytes} (records : AreRecordsWithin depth body)
      (end_ : IsTag num .endGroup tag) : IsValueWithin (depth + 1) num .startGroup (body ++ tag)

inductive AreRecordsWithin : Nat → Bytes → Prop
  | nil {depth : Nat} : AreRecordsWithin depth []
  | cons {depth num : Nat} {type : WireType} {tag value rest : Bytes} (tag_ : IsTag num type tag)
      (value_ : IsValueWithin depth num type value) (rest_ : AreRecordsWithin depth rest) :
      AreRecordsWithin depth (tag ++ value ++ rest)

end

def openLimit : Nat := fieldValueRecursionLimit + 1

inductive ClosesWithin : List Nat → Bytes → Prop
  | nil : ClosesWithin [] []
  | cons {num : Nat} {outer : List Nat} {body tag rest : Bytes}
      (records : AreRecordsWithin (openLimit - (outer.length + 1)) body)
      (end_ : IsTag num .endGroup tag) (rest_ : ClosesWithin outer rest) :
      ClosesWithin (num :: outer) (body ++ tag ++ rest)

theorem ClosesWithin.record {num : Nat} {outer : List Nat} {bytes : Bytes}
    (closes : ClosesWithin (num :: outer) bytes) {inner : Nat} {type : WireType} {tag value : Bytes}
    (isTag : IsTag inner type tag)
    (isValue : IsValueWithin (openLimit - (outer.length + 1)) inner type value) :
    ClosesWithin (num :: outer) (tag ++ (value ++ bytes)) := by
  cases closes with
  | cons records end_ rest_ =>
    have longer := ClosesWithin.cons (.cons isTag isValue records) end_ rest_
    simpa only [List.append_assoc] using longer

theorem ClosesWithin.group {num inner : Nat} {outer : List Nat} {bytes : Bytes}
    (closes : ClosesWithin (inner :: num :: outer) bytes) (room : outer.length + 2 ≤ openLimit)
    {tag : Bytes} (isTag : IsTag inner .startGroup tag) :
    ClosesWithin (num :: outer) (tag ++ bytes) := by
  cases closes with
  | cons records end_ rest_ =>
    have depth : openLimit - (outer.length + 1) = openLimit - ((num :: outer).length + 1) + 1 := by
      simp only [List.length_cons]
      omega
    have longer := rest_.record isTag (by rw [depth]; exact .group records end_)
    simpa only [List.append_assoc] using longer

variable {data rest : Bytes}

theorem groupTurn_room {s s' : GroupState} (turned : groupTurn s = .next s')
    (room : s.open_.length ≤ openLimit) : s'.open_.length ≤ openLimit := by
  obtain ⟨data, open_⟩ := s
  cases open_ with
  | nil => cases turned
  | cons last outer =>
    simp only [groupTurn] at turned
    split at turned
    · cases turned
    split_ifs at turned with ends other starts deep
    · cases turned
      simp only [List.length_cons] at room ⊢
      omega
    · cases turned
      simp only [List.length_cons, openLimit] at deep ⊢
      omega
    · split at turned
      · cases turned
      · cases turned
        exact room

theorem groupTurn_within {s s' : GroupState} (turned : groupTurn s = .next s')
    (room : s.open_.length ≤ openLimit) :
    ∃ bytes, s.data = bytes ++ s'.data ∧
      ∀ more, ClosesWithin s'.open_ more → ClosesWithin s.open_ (bytes ++ more) := by
  have room' := groupTurn_room turned room
  obtain ⟨last, outer, inner, type, following, opened, read, step⟩ := groupTurn_next turned
  obtain ⟨tag, same, isTag⟩ := consumeTag_sound read
  rw [opened] at step ⊢
  obtain ⟨rfl, rfl, rfl⟩ | ⟨rfl, rfl⟩ | ⟨after, value, rfl⟩ := step
  · exact ⟨tag, same, fun more closes => .cons .nil isTag closes⟩
  · exact ⟨tag, same, fun more closes => closes.group room' isTag⟩
  · obtain ⟨bytes, rfl, isValue, again⟩ := consumePlainValue_sound inner value
    have single : type ≠ .startGroup := by
      rintro rfl
      cases value
    refine ⟨tag ++ bytes, by rw [same, List.append_assoc], fun more closes => ?_⟩
    rw [List.append_assoc]
    exact closes.record isTag (.plain single isValue)

theorem groupLoop_within (s : GroupState) : s.open_.length ≤ openLimit →
    loop (fun s => s.data.length) groupTurn (fun _ => none) s = some rest →
      ∃ bytes, s.data = bytes ++ rest ∧ ClosesWithin s.open_ bytes := by
  refine loop_induct groupTurn_lowers (motive := fun s found => s.open_.length ≤ openLimit →
    found = some rest → ∃ bytes, s.data = bytes ++ rest ∧ ClosesWithin s.open_ bytes) ?_ ?_ s
  · intro s s' found turned ih room read
    obtain ⟨first, same, closes⟩ := groupTurn_within turned room
    obtain ⟨bytes, same', closes'⟩ := ih (groupTurn_room turned room) read
    exact ⟨first ++ bytes, by rw [same, same', List.append_assoc], closes bytes closes'⟩
  · intro s found turned room read
    subst read
    obtain ⟨closed, same⟩ := groupTurn_done turned
    rw [closed]
    exact ⟨[], same, .nil⟩

theorem consumePlainValue_complete {num : Nat} {type : WireType} {bytes : Bytes}
    (single : type ≠ .startGroup) (isValue : IsValue num type bytes) (rest : Bytes) :
    consumePlainValue type (bytes ++ rest) = some rest := by
  cases isValue with
  | varint varint => rw [consumePlainValue, consumeVarint_complete varint]; rfl
  | fixed64 length =>
    rw [consumePlainValue, consumeFixed64, consumeFixed, if_neg (by simp [length]),
      List.drop_left' length]
    rfl
  | fixed32 length =>
    rw [consumePlainValue, consumeFixed32, consumeFixed, if_neg (by simp [length]),
      List.drop_left' length]
    rfl
  | bytes varint => rw [consumePlainValue, consumeBytes_complete varint]; rfl
  | group records end_ => exact absurd rfl single

theorem groupTurn_end {num : Nat} {tag : Bytes} (isTag : IsTag num .endGroup tag) (outer : List Nat)
    (rest : Bytes) : groupTurn ⟨tag ++ rest, num :: outer⟩ = .next ⟨rest, outer⟩ := by
  simp [groupTurn, consumeTag_complete isTag]

mutual

theorem groupLoop_value {depth num : Nat} {type : WireType} {value : Bytes}
    (isValue : IsValueWithin depth num type value) {tag : Bytes} (isTag : IsTag num type tag)
    (last : Nat) (outer : List Nat) (room : outer.length + 1 + depth ≤ openLimit) (rest : Bytes) :
    loop (fun s => s.data.length) groupTurn (fun _ => none) ⟨tag ++ (value ++ rest), last :: outer⟩ =
      loop (fun s => s.data.length) groupTurn (fun _ => none) ⟨rest, last :: outer⟩ := by
  match isValue with
  | .plain single value =>
    have goes : type ≠ .endGroup := by
      rintro rfl
      cases value
    refine loop_next groupTurn_lowers ?_
    simp only [groupTurn, consumeTag_complete isTag, if_neg goes, if_neg single,
      consumePlainValue_complete single value]
  | @IsValueWithin.group inner _ body endTag records end_ =>
    have opens : groupTurn ⟨tag ++ (body ++ endTag ++ rest), last :: outer⟩ =
        .next ⟨body ++ (endTag ++ rest), num :: last :: outer⟩ := by
      have shallow : ¬ fieldValueRecursionLimit < (last :: outer).length := by
        simp only [List.length_cons]
        unfold openLimit at room
        omega
      simp only [groupTurn, consumeTag_complete isTag, List.append_assoc, if_neg shallow]
      rfl
    rw [loop_next groupTurn_lowers opens,
      groupLoop_records records num (last :: outer) (by simp only [List.length_cons]; omega),
      loop_next groupTurn_lowers (groupTurn_end end_ _ _)]

theorem groupLoop_records {depth : Nat} {body : Bytes} (records : AreRecordsWithin depth body)
    (last : Nat) (outer : List Nat) (room : outer.length + 1 + depth ≤ openLimit) (rest : Bytes) :
    loop (fun s => s.data.length) groupTurn (fun _ => none) ⟨body ++ rest, last :: outer⟩ =
      loop (fun s => s.data.length) groupTurn (fun _ => none) ⟨rest, last :: outer⟩ := by
  match records with
  | .nil => rfl
  | @AreRecordsWithin.cons _ _ _ tag value more tag_ value_ rest_ =>
    have first := groupLoop_value value_ tag_ last outer room (more ++ rest)
    rw [List.append_assoc, List.append_assoc, first]
    exact groupLoop_records rest_ last outer room rest

end

theorem consumeFieldValue_iff (num : Nat) (type : WireType) :
    consumeFieldValue data num type = some rest ↔
      ∃ bytes, data = bytes ++ rest ∧ IsValueWithin openLimit num type bytes := by
  constructor
  · intro read
    rw [consumeFieldValue] at read
    split_ifs at read with group
    · subst group
      obtain ⟨bytes, same, closes⟩ := groupLoop_within ⟨data, [num]⟩ (show 1 ≤ openLimit by decide) read
      refine ⟨bytes, same, ?_⟩
      cases closes with
      | cons records end_ rest_ =>
        cases rest_
        rw [List.append_nil]
        exact .group records end_
    · obtain ⟨bytes, same, isValue, _⟩ := consumePlainValue_sound num read
      exact ⟨bytes, same, .plain group isValue⟩
  · rintro ⟨bytes, rfl, isValue⟩
    rw [consumeFieldValue]
    cases isValue with
    | plain single value =>
      rw [if_neg single]
      exact consumePlainValue_complete single value rest
    | group records end_ =>
      rw [if_pos rfl, List.append_assoc,
        groupLoop_records records num [] (by decide), loop_next groupTurn_lowers
          (groupTurn_end end_ [] rest)]
      rfl

def countOf (size : Nat) : Option Bytes → Int
  | none => -1
  | some rest => size - rest.length

theorem castInt_self {n : Int} (low : 0 ≤ n) (high : n < 2 ^ 31) : castInt n = n :=
  asSigned_self (by decide) ⟨by omega, by simpa using high⟩

theorem castInt_lt (n : Int) : castInt n < 2 ^ 31 := Int.bmod_lt (by decide)

theorem castInt_add (a b : Int) : castInt (castInt a + castInt b) = castInt (a + b) := by
  simp only [castInt, asSigned, Int.bmod_add_bmod, Int.add_bmod_bmod]

def wrappedCount (size : Nat) : Option Bytes → Int
  | none => -1
  | some rest => castInt (size - rest.length)

theorem wrappedCount_lt (size : Nat) (found : Option Bytes) : wrappedCount size found < 2 ^ 31 := by
  cases found with
  | none => exact (by decide : (-1 : Int) < 2 ^ 31)
  | some rest => exact castInt_lt _

theorem wrappedCount_small {size : Nat} (small : size < 2 ^ 31) {found : Option Bytes}
    (shorter : ∀ rest ∈ found, rest.length ≤ size) : wrappedCount size found = countOf size found := by
  cases found with
  | none => rfl
  | some rest =>
    have := shorter rest rfl
    exact castInt_self (by omega) (by omega)

theorem plainValueCount_wraps (type : WireType) (data : Bytes) :
    plainValueCount type data = wrappedCount data.length (consumePlainValue type data) := by
  cases type with
  | varint =>
    simp only [plainValueCount, consumePlainValue]
    cases consumeVarint data <;> rfl
  | bytes =>
    simp only [plainValueCount, consumePlainValue, consumeBytes]
    cases read : consumeVarint data with
    | none => rfl
    | some found =>
      obtain ⟨len, following⟩ := found
      simp only
      split
      · rfl
      · simp only [Option.map_some, wrappedCount, List.length_drop, castInt_add]
        congr 1
        omega
  | fixed64 =>
    simp only [plainValueCount, consumePlainValue, consumeFixed64, consumeFixed]
    split
    · rfl
    · have eight : (data.length : Int) - (data.drop 8).length = 8 := by
        rw [List.length_drop]
        omega
      simp only [Option.map_some, wrappedCount, eight]
      decide
  | fixed32 =>
    simp only [plainValueCount, consumePlainValue, consumeFixed32, consumeFixed]
    split
    · rfl
    · have four : (data.length : Int) - (data.drop 4).length = 4 := by
        rw [List.length_drop]
        omega
      simp only [Option.map_some, wrappedCount, four]
      decide
  | _ => rfl

theorem plainValueCount_eq (type : WireType) (small : data.length < 2 ^ 31) :
    plainValueCount type data = countOf data.length (consumePlainValue type data) := by
  rw [plainValueCount_wraps]
  exact wrappedCount_small small fun rest read => consumePlainValue_rest read

theorem groupCountTurn_lowers (size : Nat) :
    Lowers (fun s : GroupState => s.data.length) (groupCountTurn size) := by
  intro s s' turned
  rw [groupCountTurn] at turned
  split at turned
  · cases turned
  split at turned
  · cases turned
  rename_i read
  have shorter := consumeTag_rest read
  split_ifs at turned
  all_goals cases turned
  · exact shorter
  · exact shorter
  · simp only [List.length_drop]
    omega

/-- A turn over the counts is one over the values, unless a value is too long to be counted. -/
theorem groupCountTurn_cases (size : Nat) (s : GroupState) :
    groupCountTurn size s = (groupTurn s).map id (wrappedCount size) ∨
      ∃ last outer inner type tag value rest, s.open_ = last :: outer ∧
        s.data = tag ++ (value ++ rest) ∧ IsTag inner type tag ∧ type ≠ .startGroup ∧
        IsValue inner type value ∧ groupTurn s = .next ⟨rest, s.open_⟩ ∧ 2 ^ 31 ≤ value.length ∧
        (castInt value.length < 0 → groupCountTurn size s = .done (-1)) := by
  obtain ⟨data, open_⟩ := s
  cases open_ with
  | nil => exact .inl rfl
  | cons last outer =>
    simp only [groupCountTurn, groupTurn]
    cases read : consumeTag data with
    | none => exact .inl rfl
    | some found =>
      obtain ⟨inner, type, following⟩ := found
      obtain ⟨tag, rfl, isTag⟩ := consumeTag_sound read
      simp only [plainValueCount_wraps]
      split_ifs with ends other starts deep failed
      all_goals try exact .inl rfl
      · cases value : consumePlainValue type following with
        | none => exact .inl rfl
        | some after =>
          rw [value] at failed
          obtain ⟨bytes, rfl, isValue, _⟩ := consumePlainValue_sound inner value
          have length : ((bytes ++ after).length : Int) - after.length = bytes.length := by
            rw [List.length_append]
            omega
          simp only [wrappedCount, length] at failed
          refine .inr ⟨last, outer, inner, type, tag, bytes, after, rfl, rfl, isTag, starts, isValue,
            rfl, ?_, fun _ => rfl⟩
          by_contra short
          rw [castInt_self (by omega) (by omega)] at failed
          omega
      · cases value : consumePlainValue type following with
        | none =>
          rw [value] at failed
          exact absurd (show (-1 : Int) < 0 by decide) failed
        | some after =>
          obtain ⟨bytes, rfl, isValue, _⟩ := consumePlainValue_sound inner value
          have length : ((bytes ++ after).length : Int) - after.length = bytes.length := by
            rw [List.length_append]
            omega
          rw [value] at failed
          simp only [wrappedCount, length] at failed ⊢
          by_cases short : bytes.length < 2 ^ 31
          · left
            rw [castInt_self (by omega) (by omega), Int.toNat_natCast, List.drop_left]
            rfl
          · exact .inr ⟨last, outer, inner, type, tag, bytes, after, rfl, rfl, isTag, starts, isValue,
              rfl, by omega, fun negative => absurd negative failed⟩

/-- Bytes that are read inside the groups `open_` and leave one in the groups `next`. -/
inductive Moves : List Nat → Bytes → List Nat → Prop
  | record {num last : Nat} {outer : List Nat} {type : WireType} {tag value : Bytes}
      (isTag : IsTag num type tag) (single : type ≠ .startGroup) (isValue : IsValue num type value) :
      Moves (last :: outer) (tag ++ value) (last :: outer)
  | opens {num last : Nat} {outer : List Nat} {tag : Bytes} (isTag : IsTag num .startGroup tag) :
      Moves (last :: outer) tag (num :: last :: outer)
  | closes {last : Nat} {outer : List Nat} {tag : Bytes} (isTag : IsTag last .endGroup tag) :
      Moves (last :: outer) tag outer

inductive Reaches : List Nat → Bytes → List Nat → Prop
  | here {open_ : List Nat} : Reaches open_ [] open_
  | step {open_ next inside : List Nat} {front rest : Bytes} (move : Moves open_ front next)
      (more : Reaches next rest inside) : Reaches open_ (front ++ rest) inside

/-- A length that an `int` holds as a smaller one. -/
def Misread (length : Nat) : Prop := 2 ^ 32 ≤ length ∧ length % 2 ^ 32 < 2 ^ 31

/-- None of the values that are read inside the groups `open_` is so long as to be misread. -/
def LengthsRead (open_ : List Nat) (data : Bytes) : Prop :=
  ∀ front tag value rest last outer num type, data = front ++ (tag ++ (value ++ rest)) →
    Reaches open_ front (last :: outer) → IsTag num type tag → type ≠ .startGroup →
    IsValue num type value → ¬ Misread value.length

theorem groupTurn_moves {s s' : GroupState} (turned : groupTurn s = .next s') :
    ∃ front, s.data = front ++ s'.data ∧ Moves s.open_ front s'.open_ := by
  obtain ⟨last, outer, inner, type, following, opened, read, step⟩ := groupTurn_next turned
  obtain ⟨tag, same, isTag⟩ := consumeTag_sound read
  rw [opened] at step ⊢
  obtain ⟨rfl, rfl, rfl⟩ | ⟨rfl, rfl⟩ | ⟨after, value, rfl⟩ := step
  · exact ⟨tag, same, .closes isTag⟩
  · exact ⟨tag, same, .opens isTag⟩
  · obtain ⟨bytes, rfl, isValue, _⟩ := consumePlainValue_sound inner value
    have single : type ≠ .startGroup := by
      rintro rfl
      cases value
    exact ⟨tag ++ bytes, by rw [same, List.append_assoc], .record isTag single isValue⟩

theorem LengthsRead.next {s s' : GroupState} (fit : LengthsRead s.open_ s.data)
    (turned : groupTurn s = .next s') : LengthsRead s'.open_ s'.data := by
  obtain ⟨first, same, move⟩ := groupTurn_moves turned
  intro front tag value rest last outer num type found reaches
  refine fit (first ++ front) tag value rest last outer num type ?_ (.step move reaches)
  rw [same, found, List.append_assoc]

theorem castInt_neg {m : Nat} (long : 2 ^ 31 ≤ m) (read : ¬ Misread m) : castInt m < 0 := by
  simp only [Misread] at read
  rw [castInt, asSigned, Int.bmod]
  split <;> omega

theorem groupCountLoop_eq {size : Nat} (s : GroupState) :
    let found := loop (fun s => s.data.length) groupTurn (fun _ => none) s
    (∀ rest ∈ found, s.data.length < 2 ^ 31 + rest.length) →
      (found = none → LengthsRead s.open_ s.data) →
      loop (fun s => s.data.length) (groupCountTurn size) (fun _ => -1) s =
        wrappedCount size found := by
  -- what is left over is carried along, to bound the values in front of it
  refine (loop_induct groupTurn_lowers (motive := fun s found =>
    (∀ rest ∈ found, rest.length ≤ s.data.length) ∧
    ((∀ rest ∈ found, s.data.length < 2 ^ 31 + rest.length) →
      (found = none → LengthsRead s.open_ s.data) →
      loop (fun s => s.data.length) (groupCountTurn size) (fun _ => -1) s =
        wrappedCount size found)) ?_ ?_ s).2
  · intro s s' found turned ih
    have lower := groupTurn_lowers s s' turned
    refine ⟨fun rest left => (ih.1 rest left).trans (Nat.le_of_lt lower), fun short fit => ?_⟩
    rcases groupCountTurn_cases size s with same |
      ⟨last, outer, inner, type, tag, value, rest, opened, data_, isTag, single, isValue, turned', long,
        negative⟩
    · rw [turned] at same
      rw [loop_next (groupCountTurn_lowers size) same]
      exact ih.2 (fun rest left => Nat.lt_trans lower (short rest left)) fun none_ => (fit none_).next turned
    · obtain rfl : s' = ⟨rest, s.open_⟩ := Turn.next.inj (turned.symm.trans turned')
      cases found with
      | some last_ =>
        have := short last_ rfl
        have := ih.1 last_ rfl
        simp only [data_, List.length_append] at *
        omega
      | none =>
        refine loop_done (negative (castInt_neg long ?_))
        refine fit rfl [] tag value rest last outer inner type data_ ?_ isTag single isValue
        rw [opened]
        exact .here
  · intro s found turned
    refine ⟨fun rest left => ?_, fun _ _ => ?_⟩
    · subst left
      rw [(groupTurn_done turned).2]
    · refine loop_done ?_
      rcases groupCountTurn_cases size s with same | ⟨_, _, _, _, _, _, _, -, -, -, -, -, goes, -⟩
      · rw [same, turned]
        rfl
      · rw [turned] at goes
        cases goes

theorem fieldValueCount_wraps (num : Nat) (type : WireType)
    (short : ∀ rest ∈ consumeFieldValue data num type, data.length < 2 ^ 31 + rest.length)
    (fit : consumeFieldValue data num type = none → type = .startGroup → LengthsRead [num] data) :
    fieldValueCount data num type = wrappedCount data.length (consumeFieldValue data num type) := by
  rw [fieldValueCount]
  rw [consumeFieldValue] at short fit ⊢
  split_ifs at short fit ⊢ with group
  · exact groupCountLoop_eq ⟨data, [num]⟩ short fun none_ => fit none_ group
  · exact plainValueCount_wraps type data

theorem lengthsRead_small (num : Nat) (small : data.length < 2 ^ 31) : LengthsRead [num] data := by
  rintro front tag value rest last outer inner type rfl - - - - ⟨long, -⟩
  simp only [List.length_append] at small
  omega

theorem fieldValueCount_eq (num : Nat) (type : WireType) (small : data.length < 2 ^ 31) :
    fieldValueCount data num type = countOf data.length (consumeFieldValue data num type) := by
  rw [fieldValueCount_wraps num type (fun _ _ => by omega) fun _ _ => lengthsRead_small num small]
  exact wrappedCount_small small fun rest read => consumeFieldValue_rest read

theorem groupCountTurn_lt {size : Nat} {s : GroupState} {n : Int}
    (turned : groupCountTurn size s = .done n) : n < 2 ^ 31 := by
  rw [groupCountTurn] at turned
  split at turned
  · cases turned
    exact castInt_lt _
  split at turned
  · cases turned
    decide
  split_ifs at turned
  all_goals
    cases turned
    decide

theorem fieldValueCount_lt (num : Nat) (type : WireType) : fieldValueCount data num type < 2 ^ 31 := by
  rw [fieldValueCount]
  split
  · exact loop_induct (groupCountTurn_lowers _) (motive := fun _ found => found < 2 ^ 31)
      (fun _ _ _ _ => id) (fun _ _ => groupCountTurn_lt) _
  · rw [plainValueCount_wraps]
    exact wrappedCount_lt _ _

theorem countOf_eq_iff (num : Nat) (type : WireType) (n : Nat) :
    countOf data.length (consumeFieldValue data num type) = n ↔
      n ≤ data.length ∧ IsValueWithin openLimit num type (data.take n) := by
  constructor
  · intro counted
    cases read : consumeFieldValue data num type with
    | none =>
      rw [read] at counted
      simp only [countOf] at counted
      omega
    | some rest =>
      obtain ⟨bytes, rfl, isValue⟩ := (consumeFieldValue_iff num type).mp read
      rw [read] at counted
      simp only [countOf, List.length_append] at counted ⊢
      have length : bytes.length = n := by omega
      rw [List.take_left' length]
      exact ⟨by omega, isValue⟩
  · rintro ⟨within, isValue⟩
    have read : consumeFieldValue data num type = some (data.drop n) :=
      (consumeFieldValue_iff num type).mpr
        ⟨data.take n, (List.take_append_drop n data).symm, isValue⟩
    rw [read]
    simp only [countOf, List.length_drop]
    omega

/-- The count is the length of the one prefix that is a value of the wire type, its groups nested
to the limit, and it is -1 where there is none. -/
structure FollowsGrammar (data : Bytes) (num : Nat) (type : WireType) : Prop where
  counts : ∀ n : Nat, fieldValueCount data num type = n ↔
    n ≤ data.length ∧ IsValueWithin openLimit num type (data.take n)
  fails : fieldValueCount data num type = -1 ↔
    ∀ n ≤ data.length, ¬ IsValueWithin openLimit num type (data.take n)

theorem followsGrammar_of_eq {num : Nat} {type : WireType}
    (same : fieldValueCount data num type = countOf data.length (consumeFieldValue data num type)) :
    FollowsGrammar data num type := by
  constructor
  · rw [same]
    exact countOf_eq_iff num type
  rw [same]
  cases read : consumeFieldValue data num type with
  | none =>
    refine iff_of_true rfl fun n within isValue => ?_
    have counted := (countOf_eq_iff num type n).mpr ⟨within, isValue⟩
    rw [read] at counted
    simp only [countOf] at counted
    omega
  | some rest =>
    have shorter := consumeFieldValue_rest read
    refine iff_of_false (by simp only [countOf]; omega) fun none => ?_
    refine none (data.length - rest.length) (by omega) ((countOf_eq_iff num type _).mp ?_).2
    rw [read]
    simp only [countOf]
    omega

/-- A value is skipped by the grammar just when an `int` can count its bytes. Where there is none
that is told, unless a length read inside a group is misread on the way. A byte string that an `int`
can count meets both conditions. -/
theorem fieldValueCount_follows_grammar (data : Bytes) (num : Nat) (type : WireType) :
    (∀ n ≤ data.length, IsValueWithin openLimit num type (data.take n) →
      (FollowsGrammar data num type ↔ n < 2 ^ 31)) ∧
    ((∀ n ≤ data.length, ¬ IsValueWithin openLimit num type (data.take n)) →
      (type = .startGroup → LengthsRead [num] data) → FollowsGrammar data num type) ∧
    (data.length < 2 ^ 31 → FollowsGrammar data num type) := by
  refine ⟨fun n within isValue => ⟨fun follows => ?_, fun short => ?_⟩, fun none_ fit => ?_,
    fun small => followsGrammar_of_eq (fieldValueCount_eq num type small)⟩
  · have counted := (follows.counts n).mpr ⟨within, isValue⟩
    have bound : fieldValueCount data num type < 2 ^ 31 := fieldValueCount_lt num type
    omega
  · have counted := (countOf_eq_iff num type n).mpr ⟨within, isValue⟩
    cases read : consumeFieldValue data num type with
    | none =>
      rw [read] at counted
      simp only [countOf] at counted
      omega
    | some rest =>
      rw [read] at counted
      simp only [countOf] at counted
      apply followsGrammar_of_eq
      rw [fieldValueCount_wraps num type ?_ fun missing => by cases missing.symm.trans read]
      · rw [read]
        change castInt (data.length - rest.length) = data.length - rest.length
        exact castInt_self (by omega) (by omega)
      · intro rest' read'
        obtain rfl : rest = rest' := Option.some.inj (read.symm.trans read')
        omega
  · have missing : consumeFieldValue data num type = none := by
      cases read : consumeFieldValue data num type with
      | none => rfl
      | some rest =>
        obtain ⟨bytes, rfl, isValue⟩ := (consumeFieldValue_iff num type).mp read
        refine absurd ?_ (none_ bytes.length (by simp))
        rwa [List.take_left]
    apply followsGrammar_of_eq
    rw [fieldValueCount_wraps num type ?_ fun _ => fit, missing]
    · rfl
    · rw [missing]
      intro rest found
      cases found

theorem fieldValueCount_follows_grammar_group :
    fieldValueCount [0x08, 0x01, 0x0c] 1 .startGroup = 3 ∧
      IsValueWithin openLimit 1 .startGroup [0x08, 0x01, 0x0c] :=
  have count : fieldValueCount [0x08, 0x01, 0x0c] 1 .startGroup = 3 := by decide
  have follows := (fieldValueCount_follows_grammar [0x08, 0x01, 0x0c] 1 .startGroup).2.2 (by decide)
  ⟨count, ((follows.counts 3).mp count).2⟩

def longValue : Bytes := appendVarint (2 ^ 32) ++ List.replicate (2 ^ 32) 0

theorem fieldValueCount_longValue :
    fieldValueCount longValue 1 .bytes = 5 ∧
      ¬ IsValueWithin openLimit 1 .bytes (longValue.take 5) := by
  have read : consumeVarint longValue = some (2 ^ 32, List.replicate (2 ^ 32) 0) :=
    consumeVarint_append (by decide)
  have head : (appendVarint (2 ^ 32)).length = 5 := by decide
  have length : longValue.length = 5 + 2 ^ 32 := by
    rw [longValue, List.length_append, List.length_replicate, head]
  constructor
  · have enough : ¬ (List.replicate (2 ^ 32) (0 : UInt8)).length < 2 ^ 32 := by
      rw [List.length_replicate]
      exact Nat.lt_irrefl _
    have header : (longValue.length : Int) - (List.replicate (2 ^ 32) (0 : UInt8)).length = 5 := by
      rw [length, List.length_replicate]
      rfl
    simp only [fieldValueCount, plainValueCount, read, if_neg enough, header]
    decide
  · intro isValue
    have front : longValue.take 5 = appendVarint (2 ^ 32) ++ [] := by
      rw [longValue, List.take_left' head, List.append_nil]
    rw [front] at isValue
    have whole : consumeFieldValue (appendVarint (2 ^ 32) ++ []) 1 .bytes = some [] :=
      (consumeFieldValue_iff 1 .bytes).mpr ⟨_, (List.append_nil _).symm, isValue⟩
    exact absurd whole (by decide)

end Protowire.Wire
