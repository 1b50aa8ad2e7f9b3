import Mathlib.Data.List.TakeWhile
import Protowire.Detail.Base64Core
import Protowire.Detail.Bytes
import Protowire.Support.Outcome

/-!
Base64 read back. A text is read one quantum at a time, so what is said of four characters is said
of the whole encoding by the recursion that writes it.
-/

namespace Protowire

open Support

theorem alphabet_value : ∀ k : Fin 64, base64Value false (peek base64Alphabet k) = some k.val := by
  decide +kernel

theorem base64Value_char (value index : Nat) :
    base64Value false (base64Char value index) = some (value / 64 ^ (3 - index) % 64) :=
  alphabet_value ⟨_, Nat.mod_lt _ (by decide)⟩

theorem base64Char_ne {c : UInt8} (unknown : base64Value false c = none) (value index : Nat) :
    base64Char value index ≠ c := by
  rintro rfl
  rw [base64Value_char] at unknown
  cases unknown

section Quanta

variable {url padded : Bool} {offset read value : Nat}

theorem decodeQuanta_value {c : UInt8} {v : Nat} (known : base64Value url c = some v)
    (inside : read ≠ 3) (rest : Bytes) :
    decodeQuanta url padded offset read value (c :: rest) =
      decodeQuanta url padded (offset + 1) (read + 1) (value + v * 64 ^ (3 - read)) rest := by
  rw [decodeQuanta]
  simp only [known, if_neg inside]

theorem decodeQuanta_last {c : UInt8} {v : Nat} (known : base64Value url c = some v)
    (rest : Bytes) :
    decodeQuanta url padded offset 3 value (c :: rest) =
      (quantumBytes (value + v) 4 ++ ·) <$> decodeQuanta url padded (offset + 1) 0 0 rest := by
  rw [decodeQuanta]
  simp [known]

end Quanta

theorem toUInt8_byte {n : Nat} {c : UInt8} (same : n % 256 = c.toNat) : n.toUInt8 = c := by
  rw [← UInt8.toNat_inj]
  simpa using same

theorem sixes (n : Nat) (small : n < 0x1000000) :
    0 + n / 64 ^ 3 % 64 * 64 ^ 3 + n / 64 ^ 2 % 64 * 64 ^ 2 + n / 64 ^ 1 % 64 * 64 ^ 1 +
      n / 64 ^ 0 % 64 = n := by
  omega

theorem quantumBytes_four (a b c : UInt8) :
    quantumBytes (a.toNat * 0x10000 + b.toNat * 0x100 + c.toNat) 4 = [a, b, c] := by
  have ha := a.toNat_lt
  have hb := b.toNat_lt
  have hc := c.toNat_lt
  have first : ((a.toNat * 0x10000 + b.toNat * 0x100 + c.toNat) / 0x10000).toUInt8 = a :=
    toUInt8_byte (by omega)
  have second : ((a.toNat * 0x10000 + b.toNat * 0x100 + c.toNat) / 0x100).toUInt8 = b :=
    toUInt8_byte (by omega)
  have third : (a.toNat * 0x10000 + b.toNat * 0x100 + c.toNat).toUInt8 = c :=
    toUInt8_byte (by omega)
  simp [quantumBytes, first, second, third]

theorem quantumBytes_three (a b : UInt8) :
    quantumBytes (a.toNat * 0x10000 + b.toNat * 0x100) 3 = [a, b] := by
  have ha := a.toNat_lt
  have hb := b.toNat_lt
  have first : ((a.toNat * 0x10000 + b.toNat * 0x100) / 0x10000).toUInt8 = a :=
    toUInt8_byte (by omega)
  have second : ((a.toNat * 0x10000 + b.toNat * 0x100) / 0x100).toUInt8 = b :=
    toUInt8_byte (by omega)
  simp [quantumBytes, first, second]

theorem quantumBytes_two (a : UInt8) : quantumBytes (a.toNat * 0x10000) 2 = [a] := by
  simp [quantumBytes]

theorem decodeQuanta_group (padded : Bool) (offset : Nat) (a b c : UInt8) (rest : Bytes) :
    let v := a.toNat * 0x10000 + b.toNat * 0x100 + c.toNat
    decodeQuanta false padded offset 0 0
        (base64Char v 0 :: base64Char v 1 :: base64Char v 2 :: base64Char v 3 :: rest) =
      ([a, b, c] ++ ·) <$> decodeQuanta false padded (offset + 4) 0 0 rest := by
  intro v
  have ha := a.toNat_lt
  have hb := b.toNat_lt
  have hc := c.toNat_lt
  have small : v < 0x1000000 := by
    simp only [v]
    omega
  rw [decodeQuanta_value (base64Value_char v 0) (by decide),
    decodeQuanta_value (base64Value_char v 1) (by decide),
    decodeQuanta_value (base64Value_char v 2) (by decide), decodeQuanta_last (base64Value_char v 3),
    sixes v small, quantumBytes_four]

theorem decodeQuanta_one (padded : Bool) (offset : Nat) (a : UInt8) (rest : Bytes) :
    let v := a.toNat * 0x10000
    decodeQuanta false padded offset 0 0 (base64Char v 0 :: base64Char v 1 :: rest) =
      decodeQuanta false padded (offset + 2) 2 v rest := by
  intro v
  have ha := a.toNat_lt
  have whole : 0 + v / 64 ^ (3 - 0) % 64 * 64 ^ (3 - 0) +
      v / 64 ^ (3 - 1) % 64 * 64 ^ (3 - (0 + 1)) = v := by
    simp only [v]
    omega
  rw [decodeQuanta_value (base64Value_char v 0) (by decide),
    decodeQuanta_value (base64Value_char v 1) (by decide), whole]

theorem decodeQuanta_two (padded : Bool) (offset : Nat) (a b : UInt8) (rest : Bytes) :
    let v := a.toNat * 0x10000 + b.toNat * 0x100
    decodeQuanta false padded offset 0 0
        (base64Char v 0 :: base64Char v 1 :: base64Char v 2 :: rest) =
      decodeQuanta false padded (offset + 3) 3 v rest := by
  intro v
  have ha := a.toNat_lt
  have hb := b.toNat_lt
  have whole : 0 + v / 64 ^ (3 - 0) % 64 * 64 ^ (3 - 0) +
      v / 64 ^ (3 - 1) % 64 * 64 ^ (3 - (0 + 1)) +
      v / 64 ^ (3 - 2) % 64 * 64 ^ (3 - (0 + 1 + 1)) = v := by
    simp only [v]
    omega
  rw [decodeQuanta_value (base64Value_char v 0) (by decide),
    decodeQuanta_value (base64Value_char v 1) (by decide),
    decodeQuanta_value (base64Value_char v 2) (by decide), whole]

theorem decodeQuanta_encode (offset : Nat) (bytes : Bytes) :
    decodeQuanta false true offset 0 0 (base64EncodeStd bytes) = .ok bytes := by
  fun_induction base64EncodeStd bytes generalizing offset with
  | case1 => rfl
  | case2 a v =>
    rw [decodeQuanta_one]
    change (fun _ => quantumBytes (a.toNat * 0x10000) 2) <$> Except.ok () = Except.ok [a]
    rw [quantumBytes_two]
    rfl
  | case3 a b v =>
    rw [decodeQuanta_two]
    change (fun _ => quantumBytes (a.toNat * 0x10000 + b.toNat * 0x100) 3) <$> Except.ok () =
      Except.ok [a, b]
    rw [quantumBytes_three]
    rfl
  | case4 a b c rest v ih =>
    rw [decodeQuanta_group, ih]
    rfl

def base64Unpadded (bytes : Bytes) : Bytes := (base64EncodeStd bytes).filter (· ≠ 0x3D)

theorem base64Unpadded_group (a b c : UInt8) (rest : Bytes) :
    let v := a.toNat * 0x10000 + b.toNat * 0x100 + c.toNat
    base64Unpadded (a :: b :: c :: rest) =
      base64Char v 0 :: base64Char v 1 :: base64Char v 2 :: base64Char v 3 ::
        base64Unpadded rest := by
  simp [base64Unpadded, base64EncodeStd, base64Char_ne (c := 0x3D) rfl]

theorem base64Unpadded_one (a : UInt8) :
    let v := a.toNat * 0x10000
    base64Unpadded [a] = [base64Char v 0, base64Char v 1] := by
  simp [base64Unpadded, base64EncodeStd, base64Char_ne (c := 0x3D) rfl]

theorem base64Unpadded_two (a b : UInt8) :
    let v := a.toNat * 0x10000 + b.toNat * 0x100
    base64Unpadded [a, b] = [base64Char v 0, base64Char v 1, base64Char v 2] := by
  simp [base64Unpadded, base64EncodeStd, base64Char_ne (c := 0x3D) rfl]

theorem decodeQuanta_unpadded (offset : Nat) (bytes : Bytes) :
    decodeQuanta false false offset 0 0 (base64Unpadded bytes) = .ok bytes := by
  fun_induction base64EncodeStd bytes generalizing offset with
  | case1 => rfl
  | case2 a v =>
    rw [base64Unpadded_one, decodeQuanta_one]
    change Except.ok (quantumBytes (a.toNat * 0x10000) 2) = Except.ok [a]
    rw [quantumBytes_two]
  | case3 a b v =>
    rw [base64Unpadded_two, decodeQuanta_two]
    change Except.ok (quantumBytes (a.toNat * 0x10000 + b.toNat * 0x100) 3) = Except.ok [a, b]
    rw [quantumBytes_three]
  | case4 a b c rest v ih =>
    rw [base64Unpadded_group, decodeQuanta_group, ih]
    rfl

theorem decodeQuanta_unpadded_strict (offset : Nat) (bytes : Bytes) {decoded : Bytes}
    (accepted : decodeQuanta false true offset 0 0 (base64Unpadded bytes) = .ok decoded) :
    decoded = bytes := by
  fun_induction base64EncodeStd bytes generalizing offset decoded with
  | case1 =>
    cases accepted
    rfl
  | case2 a v =>
    rw [base64Unpadded_one, decodeQuanta_one] at accepted
    cases accepted
  | case3 a b v =>
    rw [base64Unpadded_two, decodeQuanta_two] at accepted
    cases accepted
  | case4 a b c rest v ih =>
    rw [base64Unpadded_group, decodeQuanta_group] at accepted
    obtain ⟨others, following, accepted⟩ := except_map_ok accepted
    rw [← accepted, ih _ following]
    rfl

theorem base64DecodeLenient_encode (bytes : Bytes) :
    base64DecodeLenient (base64EncodeStd bytes) = .ok bytes := by
  rw [base64DecodeLenient, decodeGo, decodeQuanta_encode]

theorem base64DecodeLenient_unpadded (bytes : Bytes) :
    base64DecodeLenient (base64Unpadded bytes) = .ok bytes := by
  rw [base64DecodeLenient]
  cases strict : decodeGo false true (base64Unpadded bytes) with
  | ok decoded => rw [decodeQuanta_unpadded_strict 0 bytes strict]
  | error at_ =>
    have loose : decodeGo false false (base64Unpadded bytes) = .ok bytes :=
      decodeQuanta_unpadded 0 bytes
    simp [loose, Except.toOption]

/-- The standard encoding is read back with its padding and without it, and what is read of any
text is what its own encoding is read as. -/
theorem base64_readsBack :
    (∀ bytes : Bytes, base64DecodeLenient (base64EncodeStd bytes) = .ok bytes ∧
      base64DecodeLenient ((base64EncodeStd bytes).filter (· ≠ 0x3D)) = .ok bytes) ∧
    ∀ s bytes : Bytes, base64DecodeLenient s = .ok bytes →
      base64DecodeLenient (base64EncodeStd bytes) = .ok bytes :=
  ⟨fun bytes => ⟨base64DecodeLenient_encode bytes, base64DecodeLenient_unpadded bytes⟩,
    fun _ bytes _ => base64DecodeLenient_encode bytes⟩

theorem base64_readsBack_loose :
    base64DecodeLenient (text "-_8") = .ok [0xFB, 0xFF] ∧
      base64DecodeLenient (base64EncodeStd [0xFB, 0xFF]) = .ok [0xFB, 0xFF] :=
  have loose : base64DecodeLenient (text "-_8") = .ok [0xFB, 0xFF] := by decide +kernel
  ⟨loose, base64_readsBack.2 _ _ loose⟩

end Protowire
