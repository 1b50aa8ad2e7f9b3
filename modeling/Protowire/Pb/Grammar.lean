import Protowire.Pb.Records

/-!
The wire grammar, stated on its own, and that the readers follow it. A reader is local: what it
reads it reads from the bytes it consumes, whatever stands after them.
-/

namespace Protowire.Wire

open Support

variable {v num : Nat} {bytes : Bytes} {type : WireType}

def groupsValue : Bytes → Nat
  | [] => 0
  | b :: rest => b.toNat % 0x80 + 0x80 * groupsValue rest

structure IsVarint (bytes : Bytes) (v : Nat) : Prop where
  shape : ∃ more last, bytes = more ++ [last] ∧ (∀ b ∈ more, 0x80 ≤ b.toNat) ∧ last.toNat < 0x80
  short : bytes.length ≤ 10
  value : v = groupsValue bytes
  fits : v < 2 ^ 64

def IsTag (num : Nat) (type : WireType) (bytes : Bytes) : Prop :=
  ValidNumber num ∧ IsVarint bytes (num * 8 + type.code)

mutual

inductive IsValue : Nat → WireType → Bytes → Prop
  | varint {num : Nat} {bytes : Bytes} {v : Nat} (varint : IsVarint bytes v) :
      IsValue num .varint bytes
  | fixed64 {num : Nat} {bytes : Bytes} (length : bytes.length = 8) : IsValue num .fixed64 bytes
  | fixed32 {num : Nat} {bytes : Bytes} (length : bytes.length = 4) : IsValue num .fixed32 bytes
  | bytes {num : Nat} {length payload : Bytes} (varint : IsVarint length payload.length) :
      IsValue num .bytes (length ++ payload)
  | group {num : Nat} {body tag : Bytes} (records : AreRecords body)
      (end_ : IsTag num .endGroup tag) : IsValue num .startGroup (body ++ tag)

inductive AreRecords : Bytes → Prop
  | nil : AreRecords []
  | cons {num : Nat} {type : WireType} {tag value rest : Bytes} (tag_ : IsTag num type tag)
      (value_ : IsValue num type value) (rest_ : AreRecords rest) :
      AreRecords (tag ++ value ++ rest)

end

def IsRecord (num : Nat) (bytes : Bytes) : Prop :=
  ∃ type tag value, bytes = tag ++ value ∧ IsTag num type tag ∧ IsValue num type value

variable {data rest : Bytes}

theorem consumeVarintFrom_sound (data : Bytes) : ∀ i, i ≤ 9 →
    consumeVarintFrom i data = some (v, rest) → ∃ bytes, data = bytes ++ rest ∧
      (∃ more last, bytes = more ++ [last] ∧ (∀ b ∈ more, 0x80 ≤ b.toNat) ∧ last.toNat < 0x80) ∧
      bytes.length + i ≤ 10 ∧ v = groupsValue bytes ∧ v < 2 ^ (64 - 7 * i) := by
  induction data generalizing v with
  | nil => intro i _ read; cases read
  | cons b tail ih =>
    intro i early read
    rw [consumeVarintFrom, if_neg (by omega)] at read
    split_ifs at read with wide single
    · cases read
      refine ⟨[b], rfl, ⟨[], b, rfl, by simp, single⟩, by simp only [List.length_singleton]; omega,
        ?_, ?_⟩
      · simp only [groupsValue]
        omega
      · by_cases last : i = 9
        · subst last
          simp only [true_and] at wide
          omega
        · have power : 2 ^ 8 ≤ 2 ^ (64 - 7 * i) := Nat.pow_le_pow_right (by decide) (by omega)
          omega
    · split at read
      · cases read
      · rename_i high following more
        cases read
        have before : i < 9 := by
          have byte := b.toNat_lt
          by_contra last
          have last : i = 9 := by omega
          exact wide ⟨last, by omega⟩
        obtain ⟨bytes, rfl, ⟨continued, last, shape, high_, low⟩, length, value, bound⟩ :=
          ih (i + 1) (by omega) more
        have power : 2 ^ (64 - 7 * i) = 2 ^ (64 - 7 * (i + 1)) * 128 := by
          rw [← Nat.pow_add 2 _ 7]
          congr 1
          omega
        refine ⟨b :: bytes, rfl, ⟨b :: continued, last, by rw [shape]; rfl, ?_, low⟩, ?_, ?_, ?_⟩
        · intro c found
          rcases List.mem_cons.mp found with rfl | later
          · omega
          · exact high_ c later
        · simp only [List.length_cons]
          omega
        · rw [groupsValue, value]
        · have byte : b.toNat % 0x80 < 0x80 := Nat.mod_lt _ (by decide)
          rw [power]
          omega

theorem consumeVarintFrom_complete {last : UInt8} (low : last.toNat < 0x80) (more : Bytes) :
    ∀ i, (∀ b ∈ more, 0x80 ≤ b.toNat) → more.length + 1 + i ≤ 10 →
      groupsValue (more ++ [last]) < 2 ^ (64 - 7 * i) →
      consumeVarintFrom i (more ++ [last] ++ rest) = some (groupsValue (more ++ [last]), rest) := by
  induction more with
  | nil =>
    intro i _ short bound
    simp only [List.nil_append, groupsValue, Nat.mul_zero, Nat.add_zero,
      Nat.mod_eq_of_lt low] at bound ⊢
    have small : ¬ (i = 9 ∧ 1 < last.toNat) := by
      rintro ⟨rfl, wide⟩
      omega
    rw [List.singleton_append, consumeVarintFrom, if_neg (by simp at short; omega), if_neg small,
      if_pos low]
  | cons b more ih =>
    intro i continued short bound
    have first := continued b List.mem_cons_self
    simp only [List.length_cons] at short
    have power : 2 ^ (64 - 7 * i) = 2 ^ (64 - 7 * (i + 1)) * 128 := by
      rw [← Nat.pow_add 2 _ 7]
      congr 1
      omega
    simp only [List.cons_append, groupsValue] at bound ⊢
    have later := ih (i + 1) (fun c found => continued c (List.mem_cons_of_mem _ found))
      (by omega) (by rw [power] at bound; omega)
    simp only [List.append_assoc] at later ⊢
    rw [consumeVarintFrom, if_neg (by omega), if_neg (by omega), if_neg (by omega), later]

theorem consumeVarint_sound (read : consumeVarint data = some (v, rest)) :
    ∃ bytes, data = bytes ++ rest ∧ IsVarint bytes v := by
  obtain ⟨bytes, same, shape, length, value, bound⟩ := consumeVarintFrom_sound data 0 (by decide) read
  exact ⟨bytes, same, shape, length, value, bound⟩

theorem consumeVarint_complete (varint : IsVarint bytes v) (rest : Bytes) :
    consumeVarint (bytes ++ rest) = some (v, rest) := by
  obtain ⟨⟨more, last, rfl, continued, low⟩, short, rfl, fits⟩ := varint
  rw [List.length_append, List.length_singleton] at short
  exact consumeVarintFrom_complete low more 0 continued short fits

def IsLocal {α : Type} (read : Bytes → Option (α × Bytes)) : Prop :=
  ∀ data a rest, read data = some (a, rest) →
    ∃ bytes, data = bytes ++ rest ∧ ∀ rest, read (bytes ++ rest) = some (a, rest)

theorem consumeVarint_local : IsLocal consumeVarint := by
  intro data v rest read
  obtain ⟨bytes, same, varint⟩ := consumeVarint_sound read
  exact ⟨bytes, same, consumeVarint_complete varint⟩

theorem WireType.code_ofCode {n : Nat} (small : n < 8) : (WireType.ofCode n).code = n := by
  match n with
  | 0 | 1 | 2 | 3 | 4 | 5 | 6 | 7 => rfl
  | n + 8 => omega

theorem consumeTag_sound (read : consumeTag data = some (num, type, rest)) :
    ∃ bytes, data = bytes ++ rest ∧ IsTag num type bytes := by
  rw [consumeTag] at read
  split at read
  · cases read
  · rename_i v following varint
    split_ifs at read with invalid
    cases read
    obtain ⟨bytes, same, isVarint⟩ := consumeVarint_sound varint
    refine ⟨bytes, same, ⟨by omega, by omega⟩, ?_⟩
    rw [WireType.code_ofCode (Nat.mod_lt _ (by decide)), Nat.div_add_mod']
    exact isVarint

theorem consumeTag_complete (tag : IsTag num type bytes) (rest : Bytes) :
    consumeTag (bytes ++ rest) = some (num, type, rest) := by
  obtain ⟨⟨positive, bounded⟩, varint⟩ := tag
  have code := type.code_lt
  have number : (num * 8 + type.code) / 8 = num := by omega
  have low : (num * 8 + type.code) % 8 = type.code := by omega
  rw [consumeTag, consumeVarint_complete varint]
  simp only [number, low, type.ofCode_code]
  rw [if_neg (by omega)]

theorem consumeFixed_sound {width : Nat} (read : consumeFixed width data = some (v, rest)) :
    ∃ bytes, data = bytes ++ rest ∧ bytes.length = width ∧
      ∀ rest, consumeFixed width (bytes ++ rest) = some (v, rest) := by
  rw [consumeFixed] at read
  split_ifs at read with short
  cases read
  have length : (data.take width).length = width := by
    rw [List.length_take]
    omega
  refine ⟨data.take width, (List.take_append_drop _ _).symm, length, fun rest => ?_⟩
  rw [consumeFixed, if_neg (by rw [List.length_append]; omega), List.take_left' length,
    List.drop_left' length]

theorem consumeFixed_local (width : Nat) : IsLocal (consumeFixed width) := by
  intro data v rest read
  obtain ⟨bytes, same, _, again⟩ := consumeFixed_sound read
  exact ⟨bytes, same, again⟩

theorem consumeBytes_sound {found : Bytes} (read : consumeBytes data = some (found, rest)) :
    ∃ length, data = length ++ found ++ rest ∧ IsVarint length found.length := by
  rw [consumeBytes] at read
  split at read
  · cases read
  · rename_i len following varint
    split_ifs at read with short
    cases read
    obtain ⟨length, rfl, isVarint⟩ := consumeVarint_sound varint
    refine ⟨length, ?_, ?_⟩
    · rw [List.append_assoc, List.take_append_drop]
    · rwa [List.length_take, Nat.min_eq_left (by omega)]

theorem consumeBytes_complete {length payload : Bytes} (varint : IsVarint length payload.length)
    (rest : Bytes) : consumeBytes (length ++ payload ++ rest) = some (payload, rest) := by
  rw [consumeBytes, List.append_assoc, consumeVarint_complete varint]
  simp only [List.take_left, List.drop_left, List.length_append]
  rw [if_neg (by omega)]

theorem consumeBytes_local : IsLocal consumeBytes := by
  intro data found rest read
  obtain ⟨length, same, varint⟩ := consumeBytes_sound read
  exact ⟨length ++ found, same, consumeBytes_complete varint⟩

theorem consumePlainValue_sound (num : Nat) (read : consumePlainValue type data = some rest) :
    ∃ bytes, data = bytes ++ rest ∧ IsValue num type bytes ∧
      ∀ rest, consumePlainValue type (bytes ++ rest) = some rest := by
  cases type <;> simp only [consumePlainValue, Option.map_eq_some_iff] at read
  case varint =>
    obtain ⟨⟨v, following⟩, varint, rfl⟩ := read
    obtain ⟨bytes, same, isVarint⟩ := consumeVarint_sound varint
    refine ⟨bytes, same, .varint isVarint, fun rest => ?_⟩
    rw [consumePlainValue, consumeVarint_complete isVarint]
    rfl
  case fixed64 =>
    obtain ⟨⟨v, following⟩, fixed, rfl⟩ := read
    obtain ⟨bytes, same, length, again⟩ := consumeFixed_sound fixed
    refine ⟨bytes, same, .fixed64 length, fun rest => ?_⟩
    rw [consumePlainValue, consumeFixed64, again]
    rfl
  case bytes =>
    obtain ⟨⟨found, following⟩, bytes, rfl⟩ := read
    obtain ⟨length, same, varint⟩ := consumeBytes_sound bytes
    refine ⟨length ++ found, same, .bytes varint, fun rest => ?_⟩
    rw [consumePlainValue, consumeBytes_complete varint]
    rfl
  case fixed32 =>
    obtain ⟨⟨v, following⟩, fixed, rfl⟩ := read
    obtain ⟨bytes, same, length, again⟩ := consumeFixed_sound fixed
    refine ⟨bytes, same, .fixed32 length, fun rest => ?_⟩
    rw [consumePlainValue, consumeFixed32, again]
    rfl
  all_goals cases read

inductive Closes : List Nat → Bytes → Prop
  | nil : Closes [] []
  | cons {num : Nat} {outer : List Nat} {body tag rest : Bytes} (records : AreRecords body)
      (end_ : IsTag num .endGroup tag) (rest_ : Closes outer rest) :
      Closes (num :: outer) (body ++ tag ++ rest)

theorem Closes.record {outer : List Nat} (closes : Closes (num :: outer) bytes) {inner : Nat}
    {tag value : Bytes} (isTag : IsTag inner type tag) (isValue : IsValue inner type value) :
    Closes (num :: outer) (tag ++ (value ++ bytes)) := by
  cases closes with
  | cons records end_ rest_ =>
    have longer := Closes.cons (.cons isTag isValue records) end_ rest_
    simpa only [List.append_assoc] using longer

theorem Closes.group {inner : Nat} {outer : List Nat}
    (closes : Closes (inner :: num :: outer) bytes) {tag : Bytes}
    (isTag : IsTag inner .startGroup tag) : Closes (num :: outer) (tag ++ bytes) := by
  cases closes with
  | cons records end_ rest_ =>
    have longer := rest_.record isTag (.group records end_)
    simpa only [List.append_assoc] using longer

theorem groupTurn_sound {s s' : GroupState} (turned : groupTurn s = .next s') :
    ∃ bytes, s.data = bytes ++ s'.data ∧
      (∀ rest, groupTurn ⟨bytes ++ rest, s.open_⟩ = .next ⟨rest, s'.open_⟩) ∧
      ∀ more, Closes s'.open_ more → Closes s.open_ (bytes ++ more) := by
  obtain ⟨data, open_⟩ := s
  simp only [groupTurn] at turned ⊢
  cases open_ with
  | nil => cases turned
  | cons last outer =>
    simp only at turned
    split at turned
    · cases turned
    rename_i inner type following read
    obtain ⟨tag, rfl, isTag⟩ := consumeTag_sound read
    split_ifs at turned with ends other starts deep
    · -- the end of the innermost group
      cases turned
      obtain rfl := not_not.mp other
      subst ends
      refine ⟨tag, rfl, fun rest => ?_, fun more closes => ?_⟩
      · simp [consumeTag_complete isTag]
      · exact .cons .nil isTag closes
    · cases turned
      subst starts
      refine ⟨tag, rfl, fun rest => ?_, fun more closes => closes.group isTag⟩
      simp only [consumeTag_complete isTag, if_neg ends, if_neg deep, if_true]
    · split at turned
      · cases turned
      rename_i after value
      cases turned
      obtain ⟨bytes, rfl, isValue, again⟩ := consumePlainValue_sound inner value
      refine ⟨tag ++ bytes, by simp, fun rest => ?_, fun more closes => ?_⟩
      · simp [consumeTag_complete isTag, ends, starts, again]
      · rw [List.append_assoc]
        exact closes.record isTag isValue

theorem groupLoop_sound (s : GroupState) :
    loop (fun s => s.data.length) groupTurn (fun _ => none) s = some rest →
      ∃ bytes, s.data = bytes ++ rest ∧ Closes s.open_ bytes ∧ ∀ rest,
        loop (fun s => s.data.length) groupTurn (fun _ => none) ⟨bytes ++ rest, s.open_⟩ =
          some rest := by
  refine loop_induct groupTurn_lowers (motive := fun s found => found = some rest →
    ∃ bytes, s.data = bytes ++ rest ∧ Closes s.open_ bytes ∧ ∀ rest,
      loop (fun s => s.data.length) groupTurn (fun _ => none) ⟨bytes ++ rest, s.open_⟩ =
        some rest) ?_ ?_ s
  · intro s s' found turned ih read
    obtain ⟨first, same, again, closes⟩ := groupTurn_sound turned
    obtain ⟨bytes, same', closes', again'⟩ := ih read
    refine ⟨first ++ bytes, by rw [same, same', List.append_assoc], closes bytes closes',
      fun rest => ?_⟩
    rw [List.append_assoc, loop_next groupTurn_lowers (again (bytes ++ rest))]
    exact again' rest
  · intro s found turned read
    subst read
    obtain ⟨closed, same⟩ := groupTurn_done turned
    rw [closed]
    exact ⟨[], same, .nil, fun rest => rfl⟩

theorem consumeFieldValue_sound (read : consumeFieldValue data num type = some rest) :
    ∃ bytes, data = bytes ++ rest ∧ IsValue num type bytes ∧
      ∀ rest, consumeFieldValue (bytes ++ rest) num type = some rest := by
  rw [consumeFieldValue] at read
  split at read
  · rename_i group
    subst group
    obtain ⟨bytes, same, closes, again⟩ := groupLoop_sound ⟨data, [num]⟩ read
    refine ⟨bytes, same, ?_, fun rest => ?_⟩
    · cases closes with
      | cons records end_ rest_ =>
        cases rest_
        rw [List.append_nil]
        exact .group records end_
    · rw [consumeFieldValue, if_pos rfl]
      exact again rest
  · rename_i plain
    obtain ⟨bytes, same, isValue, again⟩ := consumePlainValue_sound num read
    refine ⟨bytes, same, isValue, fun rest => ?_⟩
    rw [consumeFieldValue, if_neg plain]
    exact again rest

end Protowire.Wire
