import HotIndex.Core.Address
import HotIndex.Lib.HexText

/-!
# Canonical Addresses

An address is a number of 256 bits that may be written in many ways: with a prefix or without,
in either case, with zeros in front or not. `normalize_aptos_address` takes exactly these
spellings and returns the same text for all spellings of a number
(`normalizeAptosAddress_canonical`), so its callers may compare texts.
-/

namespace HotIndex

open Lib RustText HexText

/-! ## Spellings -/

/-- The text is 1 to 64 hexadecimal digits, behind a prefix or not, between spaces. -/
structure SpellsAddress (input : String) (digits : List Char) : Prop where
  hex : ∀ c ∈ digits, isAsciiHexdigit c = true
  nonempty : 0 < digits.length
  length : digits.length ≤ 64
  text : ∃ start ∈ ["", "0x", "0X"], (trim input).toList = start.toList ++ digits

/-- `0x` and 64 lowercase digits of the number. -/
def IsCanonicalAddress (output : String) (n : Nat) : Prop :=
  ∃ digits, output = "0x" ++ String.ofList digits ∧ digits.length = 64 ∧
    (∀ c ∈ digits, isLowerDigit c = true) ∧ value digits = n

/-- What stands behind the prefix, as `normalize_aptos_address` finds it. -/
def addressHex (input : String) : String :=
  ((stripPrefix (trim input) "0x").or (stripPrefix (trim input) "0X")).getD (trim input)

theorem normalizeAptosAddress_eq (input : String) :
    normalizeAptosAddress input =
      if (addressHex input).isEmpty then .error (.address "address is empty")
      else if (addressHex input).utf8ByteSize > 64 then
        .error (.address
          s!"address has {(addressHex input).utf8ByteSize} hex chars, maximum is 64")
      else if !(addressHex input).toList.all isAsciiHexdigit then
        .error (.address s!"address contains non-hex characters: {input}")
      else .ok ("0x" ++ padLeftZeros 64 (toAsciiLowercase (addressHex input))) := by
  unfold normalizeAptosAddress addressHex
  rfl

/-- A prefix that is not there is not stripped. -/
private theorem stripPrefix_eq_none {text : String} {letter : Char}
    (hletter : letter ∉ text.toList) : stripPrefix text (String.ofList ['0', letter]) = none := by
  unfold stripPrefix
  rw [if_neg]
  intro hstarts
  rw [String.toList_ofList, List.isPrefixOf_iff_prefix] at hstarts
  exact hletter (hstarts.subset (by simp))

/-- Hexadecimal digits do not begin with a prefix. -/
theorem addressHex_of_spells {input : String} {digits : List Char}
    (hspells : SpellsAddress input digits) : addressHex input = String.ofList digits := by
  have hlower : 'x' ∉ digits := fun hx => (hexdigit_plain (hspells.hex _ hx)).2.1 rfl
  have hupper : 'X' ∉ digits := fun hx => (hexdigit_plain (hspells.hex _ hx)).2.2 rfl
  obtain ⟨start, hstart, htext⟩ := hspells.text
  have htrim : trim input = start ++ String.ofList digits := by
    rw [← String.ofList_toList (s := trim input), htext, String.ofList_append,
      String.ofList_toList]
  have hsplit : ∀ letter : Char, String.ofList ['0', letter] ++ String.ofList digits =
      String.ofList ('0' :: letter :: digits) := by
    intro letter
    rw [← String.ofList_append]
    rfl
  unfold addressHex
  rw [htrim]
  simp only [List.mem_cons, List.not_mem_nil, or_false] at hstart
  rcases hstart with rfl | rfl | rfl
  · -- no prefix: the text has no `x` at all
    have hnone := @stripPrefix_eq_none (String.ofList digits) 'x'
      (by rwa [String.toList_ofList])
    have hnone' := @stripPrefix_eq_none (String.ofList digits) 'X'
      (by rwa [String.toList_ofList])
    rw [String.empty_append]
    show ((stripPrefix _ (String.ofList ['0', 'x'])).or
      (stripPrefix _ (String.ofList ['0', 'X']))).getD _ = _
    rw [hnone, hnone']
    rfl
  · rw [stripPrefix_append]
    rfl
  · have hnone := @stripPrefix_eq_none ("0X" ++ String.ofList digits) 'x' (by
      simp [hlower])
    rw [stripPrefix_append]
    show ((stripPrefix _ (String.ofList ['0', 'x'])).or _).getD _ = _
    rw [hnone]
    rfl

/-- What is stripped is a prefix. -/
theorem exists_start (input : String) :
    ∃ start ∈ ["", "0x", "0X"],
      (trim input).toList = start.toList ++ (addressHex input).toList := by
  -- what is stripped is put back in front
  have hstrip : ∀ {text start rest : String}, stripPrefix text start = some rest →
      text.toList = start.toList ++ rest.toList := by
    intro text start rest h
    unfold stripPrefix at h
    split_ifs at h with hprefix
    cases h
    obtain ⟨rest, hrest⟩ := List.isPrefixOf_iff_prefix.1 hprefix
    rw [String.toList_ofList, ← hrest, List.drop_left]
  unfold addressHex
  -- `0x` first, then `0X`, then the text as it stands
  cases hlower : stripPrefix (trim input) "0x" with
  | some rest =>
    rw [Option.some_or, Option.getD_some]
    exact ⟨"0x", by simp, hstrip hlower⟩
  | none =>
    rw [Option.none_or]
    cases hupper : stripPrefix (trim input) "0X" with
    | some rest =>
      rw [Option.getD_some]
      exact ⟨"0X", by simp, hstrip hupper⟩
    | none =>
      rw [Option.getD_none]
      exact ⟨"", by simp, by simp⟩

/-! ## What is accepted -/

/-- The text that stands for the digits of a spelling. -/
def canonicalText (digits : List Char) : String :=
  "0x" ++ String.ofList (List.replicate (64 - digits.length) '0' ++ digits.map lowerChar)

/-- A spelling is normalized to its digits in lowercase, behind zeros. -/
theorem normalizeAptosAddress_of_spells {input : String} {digits : List Char}
    (hspells : SpellsAddress input digits) :
    normalizeAptosAddress input = .ok (canonicalText digits) := by
  have hhex := addressHex_of_spells hspells
  -- the three checks of the code: not empty, hexadecimal, at most 64 digits
  have hnonempty : (String.ofList digits).isEmpty = false := by
    have hne := List.length_pos_iff.1 hspells.nonempty
    simpa using hne
  have hall : (String.ofList digits).toList.all isAsciiHexdigit = true := by
    rw [String.toList_ofList]
    exact List.all_eq_true.2 hspells.hex
  have hsize : ¬ (String.ofList digits).utf8ByteSize > 64 := by
    rw [utf8ByteSize_digits hspells.hex]
    exact not_lt.2 hspells.length
  rw [normalizeAptosAddress_eq, hhex, hnonempty, if_neg (by simp), if_neg hsize, hall,
    if_neg (by simp)]
  unfold canonicalText padLeftZeros
  rw [toAsciiLowercase_ofList, String.toList_ofList, List.length_map]

/-- What is accepted is a spelling. -/
theorem spells_of_normalizeAptosAddress {input output : String}
    (h : normalizeAptosAddress input = .ok output) :
    SpellsAddress input (addressHex input).toList := by
  rw [normalizeAptosAddress_eq] at h
  split_ifs at h with hempty hlong hhex
  have hdigits : ∀ c ∈ (addressHex input).toList, isAsciiHexdigit c = true := by
    simpa using hhex
  refine ⟨hdigits, ?_, ?_, exists_start input⟩
  · rw [List.length_pos_iff]
    simpa using hempty
  · rw [← utf8ByteSize_digits hdigits, String.ofList_toList]
    exact not_lt.1 hlong

/-! ## What is returned -/

theorem isCanonicalAddress_canonicalText {input : String} {digits : List Char}
    (hspells : SpellsAddress input digits) :
    IsCanonicalAddress (canonicalText digits) (value digits) := by
  refine ⟨_, rfl, ?_, ?_, ?_⟩
  · rw [List.length_append, List.length_replicate, List.length_map]
    exact Nat.sub_add_cancel hspells.length
  · intro c hc
    rcases List.mem_append.1 hc with hc | hc
    · rw [List.eq_of_mem_replicate hc]
      decide
    · obtain ⟨letter, hletter, rfl⟩ := List.mem_map.1 hc
      exact isLowerDigit_lowerChar (hspells.hex letter hletter)
  · rw [value_replicate_zero, value_map_lowerChar hspells.hex]

/-- A number has one canonical address. -/
theorem IsCanonicalAddress.unique {output output' : String} {n : Nat}
    (h : IsCanonicalAddress output n) (h' : IsCanonicalAddress output' n) : output = output' := by
  obtain ⟨digits, rfl, hlength, hlower, hvalue⟩ := h
  obtain ⟨digits', rfl, hlength', hlower', hvalue'⟩ := h'
  rw [value_inj hlower hlower' (hlength.trans hlength'.symm) (hvalue.trans hvalue'.symm)]

/-- The digits of a canonical address spell it, and stay as they are. -/
theorem IsCanonicalAddress.normalize_self {output : String} {n : Nat}
    (h : IsCanonicalAddress output n) : normalizeAptosAddress output = .ok output := by
  obtain ⟨digits, rfl, hlength, hlower, -⟩ := h
  have hhex : ∀ c ∈ digits, isAsciiHexdigit c = true :=
    fun c hc => isAsciiHexdigit_of_isLowerDigit (hlower c hc)
  have hjoin : "0x" ++ String.ofList digits = String.ofList ('0' :: 'x' :: digits) := by
    rw [show ('0' :: 'x' :: digits) = ['0', 'x'] ++ digits from rfl, String.ofList_append]
  -- no character of the text is whitespace
  have htrim : trim ("0x" ++ String.ofList digits) = "0x" ++ String.ofList digits := by
    have hplain : ∀ c ∈ '0' :: 'x' :: digits, isWhitespace c = false := by
      simp only [List.forall_mem_cons]
      exact ⟨by decide, by decide, fun c hc => (hexdigit_plain (hhex c hc)).1⟩
    rw [hjoin]
    exact trim_eq_self (fun c hc => hplain c (List.mem_of_mem_head? hc))
      (fun c hc => hplain c (List.mem_of_mem_getLast? hc))
  have hspells : SpellsAddress ("0x" ++ String.ofList digits) digits :=
    ⟨hhex, by omega, hlength.le, "0x", by simp, by rw [htrim]; simp⟩
  -- the digits are lowercase already and 64 of them need no padding
  rw [normalizeAptosAddress_of_spells hspells]
  unfold canonicalText
  rw [hlength, Nat.sub_self, List.replicate_zero, List.nil_append,
    List.map_congr_left fun c hc => lowerChar_eq_self (hlower c hc), List.map_id']

/-- The zero address is canonical. -/
theorem isCanonicalAddress_zeroAddress : IsCanonicalAddress zeroAddress 0 := by
  refine ⟨List.replicate 64 '0', by decide +kernel, by simp, ?_, ?_⟩
  · intro c hc
    rw [List.eq_of_mem_replicate hc]
    decide
  · have hvalue := value_replicate_zero 64 []
    rwa [List.append_nil] at hvalue

theorem isZeroAddress_zeroAddress : isZeroAddress zeroAddress = true := by
  unfold isZeroAddress
  rw [isCanonicalAddress_zeroAddress.normalize_self]
  exact beq_self_eq_true zeroAddress

/-- **Canonical addresses.** Exactly the spellings are accepted. Every output is the canonical
address of the number that was spelled, and is left as it is by a second application. Two
outputs are equal if and only if the inputs spell one number. -/
theorem normalizeAptosAddress_canonical :
    (∀ input, (∃ output, normalizeAptosAddress input = .ok output) ↔
      ∃ digits, SpellsAddress input digits) ∧
    (∀ input output digits, normalizeAptosAddress input = .ok output →
      SpellsAddress input digits →
        value digits < 2 ^ 256 ∧ IsCanonicalAddress output (value digits) ∧
          normalizeAptosAddress output = .ok output) ∧
    ∀ input input' output output' digits digits',
      normalizeAptosAddress input = .ok output → normalizeAptosAddress input' = .ok output' →
        SpellsAddress input digits → SpellsAddress input' digits' →
          (output = output' ↔ value digits = value digits') := by
  have houtput : ∀ {input output digits}, normalizeAptosAddress input = .ok output →
      SpellsAddress input digits → IsCanonicalAddress output (value digits) := by
    intro input output digits h hspells
    rw [normalizeAptosAddress_of_spells hspells] at h
    rw [← Except.ok.inj h]
    exact isCanonicalAddress_canonicalText hspells
  refine ⟨fun input => ⟨?_, ?_⟩, ?_, ?_⟩
  · rintro ⟨output, h⟩
    exact ⟨_, spells_of_normalizeAptosAddress h⟩
  · rintro ⟨digits, hspells⟩
    exact ⟨_, normalizeAptosAddress_of_spells hspells⟩
  · intro input output digits h hspells
    have hcanonical := houtput h hspells
    refine ⟨?_, hcanonical, hcanonical.normalize_self⟩
    calc value digits < 16 ^ digits.length := value_lt hspells.hex
      _ ≤ 16 ^ 64 := Nat.pow_le_pow_right (by norm_num) hspells.length
      _ = 2 ^ 256 := by norm_num
  · intro input input' output output' digits digits' h h' hspells hspells'
    have hcanonical := houtput h hspells
    have hcanonical' := houtput h' hspells'
    constructor
    · rintro rfl
      -- one text stands for one number
      obtain ⟨written, hwritten, -, -, hvalue⟩ := hcanonical
      obtain ⟨written', hwritten', -, -, hvalue'⟩ := hcanonical'
      have hsame := congrArg String.toList (hwritten.symm.trans hwritten')
      simp only [String.toList_append, String.toList_ofList, List.append_cancel_left_eq] at hsame
      rw [← hvalue, ← hvalue', hsame]
    · intro hvalue
      exact hcanonical.unique (hvalue ▸ hcanonical')

/-- Two spellings of 2748. -/
theorem spellsAddress_abc :
    SpellsAddress "0xabc" ['a', 'b', 'c'] ∧ SpellsAddress " 00ABC" ['0', '0', 'A', 'B', 'C'] :=
  ⟨⟨List.all_eq_true.1 (by decide), by decide, by decide, "0x", by simp, by decide +kernel⟩,
    ⟨List.all_eq_true.1 (by decide), by decide, by decide, "", by simp, by decide +kernel⟩⟩

theorem normalizeAptosAddress_canonical_abc :
    canonicalText ['a', 'b', 'c'] = canonicalText ['0', '0', 'A', 'B', 'C'] :=
  (normalizeAptosAddress_canonical.2.2 "0xabc" " 00ABC" _ _ _ _
    (normalizeAptosAddress_of_spells spellsAddress_abc.1)
    (normalizeAptosAddress_of_spells spellsAddress_abc.2)
    spellsAddress_abc.1 spellsAddress_abc.2).2 (by decide +kernel)

end HotIndex
