import HotIndex.Dataset.ChunkFraming

/-!
# Length Prefixes That Do Not Fit

`read_varint_len` ORs up to ten groups of seven bits into a `u64`. The tenth group meets the
end of the word: one of its bits fits, and the shift drops the others. So the reader never
misreads a length unless ten bytes come whose last is 2 or more. Such an encoding stands for
2^64 or more, and the reader returns its value in 64 bits.
-/

namespace HotIndex

open Lib

/-- Lengths are not misread: a length that is returned is the number that the bytes read stand
for, and an encoding of a number that does not fit is rejected. -/
def LengthNotMisread (stream : Bytes) : Prop :=
  (∀ consumed rest n, stream = consumed ++ rest → readVarintLen stream = .ok (some n, rest) →
    n.toNat = varintValue consumed) ∧
  ∀ encoding rest, stream = encoding ++ rest → IsVarint encoding →
    2 ^ 64 ≤ varintValue encoding → ∃ error, readVarintLen stream = .error error

/-- The stream begins with nine bytes that call for another, and the tenth ends the length with
a group of more than one bit. -/
def TenthGroupOverflows (stream : Bytes) : Prop :=
  ∃ first tenth rest, stream = first ++ tenth :: rest ∧ first.length = 9 ∧
    (∀ byte ∈ first, 128 ≤ byte.toNat) ∧ 2 ≤ tenth.toNat ∧ tenth.toNat < 128

/-! ## Numbers of ten groups -/

/-- The tenth group counts for 2^63. -/
theorem varintValue_tenth {first : Bytes} {tenth : UInt8} (hlength : first.length = 9)
    (htenth : tenth.toNat < 128) :
    varintValue (first ++ [tenth]) = varintValue first + tenth.toNat * 2 ^ 63 := by
  rw [varintValue_append, hlength, varintValue_cons, varintValue_nil, Nat.mod_eq_of_lt htenth]
  norm_num
  ring

/-- An encoding of at most ten bytes does not fit if and only if its tenth group does not. -/
theorem le_varintValue_iff {encoding : Bytes} (rest : Bytes) (hencoding : IsVarint encoding)
    (hlength : encoding.length ≤ 10) :
    2 ^ 64 ≤ varintValue encoding ↔ TenthGroupOverflows (encoding ++ rest) := by
  constructor
  · intro hle
    obtain ⟨first, tenth, rfl, hfirst, htenth⟩ := IsVarint.iff_append.1 hencoding
    have hten : first.length = 9 := by
      by_contra hne
      -- nine groups fit
      have hshort : (first ++ [tenth]).length ≤ 9 := by
        rw [List.length_append, List.length_singleton] at hlength ⊢
        omega
      have hlt : varintValue (first ++ [tenth]) < 128 ^ 9 :=
        (varintValue_lt _).trans_le (Nat.pow_le_pow_right (by norm_num) hshort)
      have hfits : (128 : Nat) ^ 9 ≤ 2 ^ 64 := by norm_num
      omega
    refine ⟨first, tenth, rest, by simp, hten, hfirst, ?_, htenth⟩
    have hlt := varintValue_lt first
    rw [varintValue_tenth hten htenth] at hle
    rw [hten] at hlt
    norm_num at hlt hle
    omega
  · rintro ⟨first, tenth, rest', hstream, hten, hfirst, htwo, htenth⟩
    -- the ten bytes are the encoding
    have hwhole : IsVarint (first ++ [tenth]) :=
      IsVarint.iff_append.2 ⟨first, tenth, rfl, hfirst, htenth⟩
    have hsplit : encoding ++ rest = (first ++ [tenth]) ++ rest' := by
      rw [hstream]
      simp
    obtain ⟨rfl, -⟩ := hencoding.unique hwhole hsplit
    rw [varintValue_tenth hten htenth]
    norm_num
    omega

/-! ## What the reader makes of them -/

/-- Where no length overflows, the reader returns it exactly or rejects it. -/
theorem lengthNotMisread_of_fits {stream : Bytes} (hfits : ¬ TenthGroupOverflows stream) :
    LengthNotMisread stream := by
  have hexact : ∀ n rest, readVarintLen stream = .ok (some n, rest) →
      ∃ encoding, IsVarint encoding ∧ stream = encoding ++ rest ∧
        n.toNat = varintValue encoding ∧ varintValue encoding < 2 ^ 64 := by
    intro n rest hread
    obtain ⟨encoding, hencoding, hlength, hstream, hn⟩ := readVarintLen_eq_ok_iff.1 hread
    have hlt : varintValue encoding < 2 ^ 64 := by
      rw [← not_le, le_varintValue_iff rest hencoding hlength, ← hstream]
      exact hfits
    exact ⟨encoding, hencoding, hstream, hn.trans (Nat.mod_eq_of_lt hlt), hlt⟩
  refine ⟨fun consumed rest n hstream hread => ?_, fun encoding rest hstream hencoding hle => ?_⟩
  · obtain ⟨encoding, -, hstream', hn, -⟩ := hexact n rest hread
    rw [hn, List.append_cancel_right (hstream.symm.trans hstream')]
  · rcases hread : readVarintLen stream with error | ⟨_ | n, rest'⟩
    · exact ⟨error, rfl⟩
    · -- the end of the stream is found at its first byte only
      have hempty : stream = [] := (readVarintFrom_eq_none hread).2
      cases hencoding <;> simp [hempty] at hstream
    · obtain ⟨encoding', hencoding', hstream', -, hlt⟩ := hexact n rest' hread
      obtain ⟨rfl, -⟩ := hencoding.unique hencoding' (hstream.symm.trans hstream')
      omega

/-- **Exactly when lengths are not misread.** A length is never misread if and only if its
tenth group, where it has one, is a single bit. -/
theorem lengthNotMisread_iff (stream : Bytes) :
    LengthNotMisread stream ↔ ¬ TenthGroupOverflows stream := by
  refine ⟨fun hexact hover => ?_, lengthNotMisread_of_fits⟩
  obtain ⟨first, tenth, rest, hstream, hten, hfirst, htwo, htenth⟩ := hover
  have hencoding : IsVarint (first ++ [tenth]) :=
    IsVarint.iff_append.2 ⟨first, tenth, rfl, hfirst, htenth⟩
  have hlength : (first ++ [tenth]).length ≤ 10 := by simp [hten]
  have hsplit : stream = first ++ [tenth] ++ rest := by rw [hstream]; simp
  -- the reader returns what is left of the number in 64 bits
  have hread : readVarintLen stream =
      .ok (some (UInt64.ofNat (varintValue (first ++ [tenth]))), rest) :=
    readVarintLen_eq_ok_iff.2 ⟨_, hencoding, hlength, hsplit, UInt64.toNat_ofNat'⟩
  obtain ⟨error, herror⟩ := hexact.2 _ _ hsplit hencoding
    ((le_varintValue_iff rest hencoding hlength).2
      ⟨first, tenth, rest, by simp, hten, hfirst, htwo, htenth⟩)
  rw [hread] at herror
  cases herror

/-- Ten bytes that stand for 2^64 are read as the length zero. -/
theorem not_lengthNotMisread_two_pow_64 :
    ¬ LengthNotMisread [0x80, 0x80, 0x80, 0x80, 0x80, 0x80, 0x80, 0x80, 0x80, 0x02] := by
  intro hexact
  have hzero := hexact.1 _ [] 0 (List.append_nil _).symm (by rfl)
  have hvalue : varintValue [0x80, 0x80, 0x80, 0x80, 0x80, 0x80, 0x80, 0x80, 0x80, 0x02] =
      2 ^ 64 := by decide +kernel
  rw [hvalue] at hzero
  cases hzero

end HotIndex
