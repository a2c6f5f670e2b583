import HotIndex.Lib.ByteString

/-!
# Base-128 Numbers

The variable-length encoding of numbers that protobuf uses: groups of seven bits, least
significant first, with the high bit set on every byte but the last.
-/

namespace HotIndex.Lib

/-- The groups of a number, `width` at most. -/
def varintBytes : Nat → Nat → Bytes
  | 0, _ => []
  | width + 1, value =>
    if value < 128 then [UInt8.ofNat value]
    else UInt8.ofNat (value % 128 + 128) :: varintBytes width (value / 128)

/-- The encoding of a 64-bit number takes ten bytes at most. -/
def encodeVarint (value : UInt64) : Bytes := varintBytes 10 value.toNat

/-! ## Groups of a byte -/

/-- The group that a byte carries. -/
theorem toNat_and_127 (byte : UInt8) : (byte &&& 0x7f).toNat = byte.toNat % 128 := by
  rw [UInt8.toNat_and]
  exact Nat.and_two_pow_sub_one_eq_mod byte.toNat 7

/-- The last byte has its high bit clear. -/
theorem and_128_eq_zero_iff (byte : UInt8) : byte &&& 0x80 = 0 ↔ byte.toNat < 128 := by
  have hbits : ∀ n < 256, n &&& 128 = 0 ↔ n < 128 := by decide +kernel
  rw [← UInt8.toNat_inj, UInt8.toNat_and]
  exact hbits byte.toNat byte.toNat_lt

/-- A group that is put above the bits collected so far adds its value; what lies above the
word is lost. -/
theorem toNat_or_shiftLeft_mod {acc group : UInt64} {shift : Nat} (hshift : shift < 64)
    (hacc : acc.toNat < 2 ^ shift) :
    (acc ||| group <<< UInt64.ofNat shift).toNat =
      (acc.toNat + group.toNat * 2 ^ shift) % 2 ^ 64 := by
  have hofNat : (UInt64.ofNat shift).toNat = shift :=
    UInt64.toNat_ofNat_of_lt' (by rw [UInt64.size]; omega)
  have hword : (2 : Nat) ^ 64 = 2 ^ (64 - shift) * 2 ^ shift := by
    rw [← Nat.pow_add, Nat.sub_add_cancel hshift.le]
  -- what is left of the group in the word
  have hkept : group.toNat * 2 ^ shift % 2 ^ 64 =
      2 ^ shift * (group.toNat % 2 ^ (64 - shift)) := by
    rw [hword, Nat.mul_mod_mul_right, Nat.mul_comm]
  have hsum : 2 ^ shift * (group.toNat % 2 ^ (64 - shift)) + acc.toNat < 2 ^ 64 := by
    have hlt : group.toNat % 2 ^ (64 - shift) < 2 ^ (64 - shift) :=
      Nat.mod_lt _ (Nat.two_pow_pos _)
    calc 2 ^ shift * (group.toNat % 2 ^ (64 - shift)) + acc.toNat
        < 2 ^ shift * (group.toNat % 2 ^ (64 - shift)) + 2 ^ shift := by omega
      _ = 2 ^ shift * (group.toNat % 2 ^ (64 - shift) + 1) := by ring
      _ ≤ 2 ^ shift * 2 ^ (64 - shift) := Nat.mul_le_mul_left _ hlt
      _ = 2 ^ 64 := by rw [hword, Nat.mul_comm]
  rw [UInt64.toNat_or, UInt64.toNat_shiftLeft, hofNat, Nat.mod_eq_of_lt hshift, Nat.shiftLeft_eq,
    hkept, Nat.or_comm, ← Nat.two_pow_add_eq_or_of_lt hacc, ← Nat.mod_eq_of_lt hsum, ← hkept,
    Nat.mod_add_mod, Nat.add_comm]

/-! ## Encodings -/

/-- An encoding: the high bit is set on every byte but the last. -/
inductive IsVarint : Bytes → Prop
  | last {byte : UInt8} (hlast : byte.toNat < 128) : IsVarint [byte]
  | more {byte : UInt8} {bytes : Bytes} (hmore : 128 ≤ byte.toNat) (hrest : IsVarint bytes) :
      IsVarint (byte :: bytes)

/-- The number that the groups of some bytes stand for, least significant first. -/
def varintValue (bytes : Bytes) : Nat :=
  Nat.ofDigits 128 (bytes.map fun byte => byte.toNat % 128)

@[simp]
theorem varintValue_nil : varintValue [] = 0 := rfl

@[simp]
theorem varintValue_cons (byte : UInt8) (bytes : Bytes) :
    varintValue (byte :: bytes) = byte.toNat % 128 + 128 * varintValue bytes := by
  simp [varintValue, Nat.ofDigits_cons]

theorem varintValue_append (first bytes : Bytes) :
    varintValue (first ++ bytes) = varintValue first + 128 ^ first.length * varintValue bytes := by
  simp [varintValue, Nat.ofDigits_append]

theorem varintValue_lt (bytes : Bytes) : varintValue bytes < 128 ^ bytes.length := by
  have hdigits := @Nat.ofDigits_lt_base_pow_length 128
    (bytes.map fun byte => byte.toNat % 128) (by norm_num) (by
      intro digit hdigit
      obtain ⟨byte, -, rfl⟩ := List.mem_map.1 hdigit
      exact Nat.mod_lt _ (by norm_num))
  rwa [List.length_map] at hdigits

/-- The encoding of a number stands for it. -/
theorem varintValue_varintBytes {width value : Nat} (hvalue : value < 128 ^ width) :
    varintValue (varintBytes width value) = value := by
  induction width generalizing value with
  | zero =>
    rw [varintBytes, varintValue_nil]
    omega
  | succ width ih =>
    rw [Nat.pow_succ] at hvalue
    -- the last byte has no continuation bit, the others have it and carry seven bits each
    by_cases hsmall : value < 128
    · rw [varintBytes, if_pos hsmall, varintValue_cons, varintValue_nil,
        UInt8.toNat_ofNat_of_lt' (by rw [UInt8.size]; omega)]
      omega
    · rw [varintBytes, if_neg hsmall, varintValue_cons, ih (by omega),
        UInt8.toNat_ofNat_of_lt' (by rw [UInt8.size]; omega)]
      omega

theorem length_varintBytes_le (width value : Nat) :
    (varintBytes width value).length ≤ width := by
  induction width generalizing value with
  | zero => simp [varintBytes]
  | succ width ih =>
    rw [varintBytes]
    split
    · simp
    · exact Nat.succ_le_succ (ih _)

namespace IsVarint

theorem varintBytes {width value : Nat} (hvalue : value < 128 ^ (width + 1)) :
    IsVarint (varintBytes (width + 1) value) := by
  induction width generalizing value with
  | zero =>
    have hsmall : value < 128 := by simpa using hvalue
    rw [Lib.varintBytes, if_pos hsmall]
    refine .last ?_
    rwa [UInt8.toNat_ofNat_of_lt' (by rw [UInt8.size]; omega)]
  | succ width ih =>
    rw [Nat.pow_succ] at hvalue
    rw [Lib.varintBytes]
    split
    · -- the byte without a continuation bit ends it
      rename_i hsmall
      refine .last ?_
      rwa [UInt8.toNat_ofNat_of_lt' (by rw [UInt8.size]; omega)]
    · refine .more ?_ (ih (by omega))
      rw [UInt8.toNat_ofNat_of_lt' (by rw [UInt8.size]; omega)]
      omega

theorem iff_append {bytes : Bytes} :
    IsVarint bytes ↔ ∃ first last, bytes = first ++ [last] ∧
      (∀ byte ∈ first, 128 ≤ byte.toNat) ∧ last.toNat < 128 := by
  constructor
  · intro h
    induction h with
    | @last byte hlast => exact ⟨[], byte, rfl, by simp, hlast⟩
    | @more byte bytes hmore _ ih =>
      obtain ⟨first, last, rfl, hfirst, hlast⟩ := ih
      exact ⟨byte :: first, last, rfl, List.forall_mem_cons.2 ⟨hmore, hfirst⟩, hlast⟩
  · rintro ⟨first, last, rfl, hfirst, hlast⟩
    induction first with
    | nil => exact .last hlast
    | cons byte first ih =>
      obtain ⟨hmore, hrest⟩ := List.forall_mem_cons.1 hfirst
      exact .more hmore (ih hrest)

/-- No encoding is a proper prefix of another. -/
theorem unique {first second rest rest' : Bytes} (hfirst : IsVarint first)
    (hsecond : IsVarint second) (heq : first ++ rest = second ++ rest') :
    first = second ∧ rest = rest' := by
  -- the continuation bit of a shared byte says for both whether they end there
  induction hfirst generalizing second with
  | last hlast =>
    cases hsecond with
    | last _ => simpa using heq
    | more hmore _ =>
      obtain ⟨rfl, -⟩ := List.cons.inj heq
      omega
  | more hmore _ ih =>
    cases hsecond with
    | last hlast =>
      obtain ⟨rfl, -⟩ := List.cons.inj heq
      omega
    | more _ hrest =>
      obtain ⟨rfl, htail⟩ := List.cons.inj heq
      obtain ⟨rfl, hrests⟩ := ih hrest htail
      exact ⟨rfl, hrests⟩

end IsVarint

end HotIndex.Lib
