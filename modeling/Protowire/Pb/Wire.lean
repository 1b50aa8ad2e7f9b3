import Protowire.Pb.WireCore

/-!
Reading back what was appended, and how far a reader moves.
-/

namespace Protowire.Wire

open Support

variable {v num : Nat} {data : Bytes} {type : WireType}

variable {rest : Bytes}

theorem toNat_ofNat_lt {n : Nat} (small : n < 256) : (UInt8.ofNat n).toNat = n := by
  simp
  omega

theorem varint_continued {more : Nat} (small : v < 2 ^ (1 + 7 * (more + 1))) :
    (UInt8.ofNat (v % 0x80 + 0x80)).toNat = v % 0x80 + 0x80 ∧ v / 0x80 < 2 ^ (1 + 7 * more) := by
  refine ⟨toNat_ofNat_lt (by omega), ?_⟩
  rw [Nat.mul_add, ← Nat.add_assoc, Nat.pow_add] at small
  rw [Nat.div_lt_iff_lt_mul (by decide)]
  exact small

theorem consumeVarintFrom_append (more : Nat) : ∀ i v, i + more = 9 → v < 2 ^ (1 + 7 * more) →
    consumeVarintFrom i (appendVarintFrom more v ++ rest) = some (v, rest) := by
  induction more with
  | zero =>
    intro i v last small
    have byte : (UInt8.ofNat v).toNat = v := toNat_ofNat_lt (by omega)
    have index : i = 9 := by omega
    simp only [appendVarintFrom, List.cons_append, List.nil_append, consumeVarintFrom, byte]
    rw [if_neg (by omega), if_neg (by omega), if_pos (by omega)]
  | succ more ih =>
    intro i v sum small
    rw [appendVarintFrom]
    split
    · rename_i single
      have byte : (UInt8.ofNat v).toNat = v := toNat_ofNat_lt (by omega)
      simp only [List.cons_append, List.nil_append, consumeVarintFrom, byte]
      rw [if_neg (by omega), if_neg (by omega), if_pos single]
    · obtain ⟨byte, high⟩ := varint_continued small
      simp only [List.cons_append, consumeVarintFrom, byte]
      rw [if_neg (by omega), if_neg (by omega), if_neg (by omega),
        ih (i + 1) (v / 0x80) (by omega) high]
      simp only [Option.some.injEq, Prod.mk.injEq, and_true]
      omega

theorem consumeVarint_append (fits : v < 2 ^ 64) :
    consumeVarint (appendVarint v ++ rest) = some (v, rest) :=
  consumeVarintFrom_append 9 0 v rfl fits

theorem WireType.ofCode_code (type : WireType) : WireType.ofCode type.code = type := by
  cases type <;> rfl

theorem WireType.code_lt (type : WireType) : type.code < 8 := by cases type <;> decide

def ValidNumber (num : Nat) : Prop := 1 ≤ num ∧ num ≤ 0x7fffffff

instance (num : Nat) : Decidable (ValidNumber num) := inferInstanceAs (Decidable (_ ∧ _))

theorem consumeTag_append (valid : ValidNumber num) (type : WireType) :
    consumeTag (appendTag num type ++ rest) = some (num, type, rest) := by
  have code := type.code_lt
  obtain ⟨positive, bounded⟩ := valid
  have fits : num * 8 + type.code < 2 ^ 64 := by omega
  have number : (num * 8 + type.code) / 8 = num := by omega
  have low : (num * 8 + type.code) % 8 = type.code := by omega
  rw [consumeTag, appendTag, consumeVarint_append fits]
  simp only [number, low, type.ofCode_code]
  rw [if_neg (by omega)]

theorem consumeFixed_append (width v : Nat) :
    consumeFixed width (toLittle width v ++ rest) = some (v % 256 ^ width, rest) := by
  rw [consumeFixed, if_neg (by simp)]
  have front : (toLittle width v ++ rest).take width = toLittle width v :=
    List.take_left' (length_toLittle width v)
  have back : (toLittle width v ++ rest).drop width = rest :=
    List.drop_left' (length_toLittle width v)
  rw [front, back, ofLittle_toLittle]

theorem consumeFixed32_append (fits : v < 2 ^ 32) :
    consumeFixed32 (appendFixed32 v ++ rest) = some (v, rest) := by
  rw [consumeFixed32, appendFixed32, consumeFixed_append, Nat.mod_eq_of_lt (by simpa using fits)]

theorem consumeFixed64_append (fits : v < 2 ^ 64) :
    consumeFixed64 (appendFixed64 v ++ rest) = some (v, rest) := by
  rw [consumeFixed64, appendFixed64, consumeFixed_append, Nat.mod_eq_of_lt (by simpa using fits)]

theorem consumeBytes_append (fits : data.length < 2 ^ 64) :
    consumeBytes (appendBytes data ++ rest) = some (data, rest) := by
  rw [consumeBytes, appendBytes, List.append_assoc, consumeVarint_append fits]
  simp only [List.take_left, List.drop_left, List.length_append]
  rw [if_neg (by omega)]

theorem decodeZigZag_encodeZigZag (v : Int) : decodeZigZag (encodeZigZag v) = v := by
  simp only [decodeZigZag, encodeZigZag]
  split <;> split at * <;> omega

theorem encodeZigZag_lt {v : Int} (low : -2 ^ 63 ≤ v) (high : v < 2 ^ 63) :
    encodeZigZag v < 2 ^ 64 := by
  simp only [encodeZigZag]
  split <;> omega

theorem consumeVarintFrom_rest (data : Bytes) : ∀ i,
    consumeVarintFrom i data = some (v, rest) → rest.length < data.length := by
  induction data generalizing v with
  | nil => intro i read; cases read
  | cons b tail ih =>
    intro i read
    rw [consumeVarintFrom] at read
    split_ifs at read
    · cases read; simp
    · split at read
      · cases read
      · rename_i high following more
        cases read
        have shorter := ih (i + 1) more
        simp only [List.length_cons]
        omega

theorem consumeVarint_rest (read : consumeVarint data = some (v, rest)) :
    rest.length < data.length := consumeVarintFrom_rest data 0 read

theorem consumeTag_rest (read : consumeTag data = some (num, type, rest)) :
    rest.length < data.length := by
  rw [consumeTag] at read
  split at read
  · cases read
  · rename_i v following varint
    split_ifs at read
    cases read
    exact consumeVarint_rest varint

theorem consumeFixed_rest {width : Nat} (read : consumeFixed width data = some (v, rest)) :
    rest.length + width = data.length := by
  rw [consumeFixed] at read
  split_ifs at read with short
  cases read
  simp only [List.length_drop]
  omega

theorem consumeBytes_rest {found : Bytes} (read : consumeBytes data = some (found, rest)) :
    rest.length < data.length := by
  rw [consumeBytes] at read
  split at read
  · cases read
  · rename_i len following varint
    split_ifs at read
    cases read
    have shorter := consumeVarint_rest varint
    simp only [List.length_drop]
    omega

theorem consumePlainValue_rest (read : consumePlainValue type data = some rest) :
    rest.length ≤ data.length := by
  cases type <;> simp only [consumePlainValue, Option.map_eq_some_iff] at read
  · obtain ⟨⟨v, following⟩, varint, rfl⟩ := read
    exact Nat.le_of_lt (consumeVarint_rest varint)
  · obtain ⟨⟨v, following⟩, fixed, rfl⟩ := read
    exact Nat.le.intro (consumeFixed_rest fixed)
  · obtain ⟨⟨v, following⟩, found, rfl⟩ := read
    exact Nat.le_of_lt (consumeBytes_rest found)
  · cases read
  · cases read
  · obtain ⟨⟨v, following⟩, fixed, rfl⟩ := read
    exact Nat.le.intro (consumeFixed_rest fixed)
  · cases read
  · cases read

theorem groupTurn_next {s s' : GroupState} (turned : groupTurn s = .next s') :
    ∃ last outer inner type following, s.open_ = last :: outer ∧
      consumeTag s.data = some (inner, type, following) ∧
      ((type = .endGroup ∧ inner = last ∧ s' = ⟨following, outer⟩) ∨
        (type = .startGroup ∧ s' = ⟨following, inner :: s.open_⟩) ∨
        (∃ after, consumePlainValue type following = some after ∧ s' = ⟨after, s.open_⟩)) := by
  rw [groupTurn] at turned
  split at turned
  · cases turned
  rename_i last outer opened
  split at turned
  · cases turned
  rename_i inner type following tag
  refine ⟨last, outer, inner, type, following, opened, tag, ?_⟩
  split_ifs at turned with ends same starts deep
  · cases turned
    exact .inl ⟨ends, not_not.mp same, rfl⟩
  · cases turned
    exact .inr (.inl ⟨starts, rfl⟩)
  · split at turned
    · cases turned
    · rename_i after value
      cases turned
      exact .inr (.inr ⟨after, value, rfl⟩)

theorem groupTurn_done {s : GroupState} (turned : groupTurn s = .done (some rest)) :
    s.open_ = [] ∧ s.data = rest := by
  rw [groupTurn] at turned
  split at turned
  · rename_i closed
    cases turned
    exact ⟨closed, rfl⟩
  · split at turned
    · cases turned
    · split_ifs at turned
      all_goals try cases turned
      split at turned <;> cases turned

theorem groupTurn_lowers : Lowers (fun s : GroupState => s.data.length) groupTurn := by
  intro s s' turned
  obtain ⟨last, outer, inner, type, following, _, tag, step⟩ := groupTurn_next turned
  have shorter := consumeTag_rest tag
  obtain ⟨_, _, rfl⟩ | ⟨_, rfl⟩ | ⟨after, value, rfl⟩ := step
  · exact shorter
  · exact shorter
  · have shorter' := consumePlainValue_rest value
    exact Nat.lt_of_le_of_lt shorter' shorter

theorem groupLoop_rest (s : GroupState) :
    loop (fun s => s.data.length) groupTurn (fun _ => none) s = some rest →
      rest.length ≤ s.data.length := by
  refine loop_induct groupTurn_lowers (motive := fun s found => found = some rest →
    rest.length ≤ s.data.length) ?_ ?_ s
  · intro s s' found turned ih read
    have lower := groupTurn_lowers s s' turned
    exact Nat.le_trans (ih read) (Nat.le_of_lt lower)
  · intro s found turned read
    subst read
    exact Nat.le_of_eq (congrArg List.length (groupTurn_done turned).2.symm)

theorem consumeFieldValue_rest (read : consumeFieldValue data num type = some rest) :
    rest.length ≤ data.length := by
  rw [consumeFieldValue] at read
  split at read
  · exact groupLoop_rest ⟨data, [num]⟩ read
  · exact consumePlainValue_rest read

end Protowire.Wire
