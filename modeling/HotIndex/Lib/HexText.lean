import HotIndex.Lib.RustText
import Mathlib.Data.Nat.Digits.Defs

/-!
# Hexadecimal Texts

What a string of hexadecimal digits stands for. Neither the case of its letters nor zeros in
front change the number, and in lowercase at a fixed width every number has one text.
-/

namespace HotIndex.Lib.HexText

open RustText

/-- What a hexadecimal digit stands for. -/
def digitValue (c : Char) : Nat :=
  if c.isDigit then c.toNat - 48 else if 'a' ≤ c then c.toNat - 87 else c.toNat - 55

/-- The number that a string of hexadecimal digits stands for. -/
def value (digits : List Char) : Nat := Nat.ofDigits 16 (digits.reverse.map digitValue)

/-- A decimal digit or one of the letters `a` to `f`. -/
def isLowerDigit (c : Char) : Bool := c.isDigit || ('a' ≤ c && c ≤ 'f')

/-- `char::to_ascii_lowercase` -/
def lowerChar (c : Char) : Char := if 'A' ≤ c ∧ c ≤ 'Z' then Char.ofNat (c.toNat + 32) else c

theorem toAsciiLowercase_ofList (digits : List Char) :
    toAsciiLowercase (String.ofList digits) = String.ofList (digits.map lowerChar) := by
  unfold toAsciiLowercase
  rw [String.toList_ofList]
  rfl

/-! ## Single digits -/

theorem toNat_lt_of_isAsciiHexdigit {c : Char} (hc : isAsciiHexdigit c = true) :
    c.toNat < 128 := by
  simp only [isAsciiHexdigit, Char.isDigit, Bool.or_eq_true, Bool.and_eq_true, decide_eq_true_eq,
    Char.le_def, UInt32.le_iff_toNat_le, ge_iff_le] at hc
  have hcodes : 'f'.val.toNat = 102 ∧ 'F'.val.toNat = 70 ∧ '9'.val.toNat = 57 := by decide
  have hval : c.val.toNat = c.toNat := rfl
  omega

/-- A fact about characters is checked on the hexadecimal digits one by one. -/
theorem forall_hexdigit {P : Char → Prop}
    (h : ∀ n < 128, isAsciiHexdigit (Char.ofNat n) = true → P (Char.ofNat n)) {c : Char}
    (hc : isAsciiHexdigit c = true) : P c := by
  have hcheck := h c.toNat (toNat_lt_of_isAsciiHexdigit hc)
  rw [Char.ofNat_toNat] at hcheck
  exact hcheck hc

theorem digitValue_lt {c : Char} (hc : isAsciiHexdigit c = true) : digitValue c < 16 :=
  forall_hexdigit (P := fun c => digitValue c < 16) (by decide +kernel) hc

theorem digitValue_lowerChar {c : Char} (hc : isAsciiHexdigit c = true) :
    digitValue (lowerChar c) = digitValue c :=
  forall_hexdigit (P := fun c => digitValue (lowerChar c) = digitValue c) (by decide +kernel) hc

theorem isLowerDigit_lowerChar {c : Char} (hc : isAsciiHexdigit c = true) :
    isLowerDigit (lowerChar c) = true :=
  forall_hexdigit (P := fun c => isLowerDigit (lowerChar c) = true) (by decide +kernel) hc

/-- A hexadecimal digit is no space, and no prefix is made of them. -/
theorem hexdigit_plain {c : Char} (hc : isAsciiHexdigit c = true) :
    isWhitespace c = false ∧ c ≠ 'x' ∧ c ≠ 'X' :=
  forall_hexdigit (P := fun c => isWhitespace c = false ∧ c ≠ 'x' ∧ c ≠ 'X')
    (by decide +kernel) hc

theorem isAsciiHexdigit_of_isLowerDigit {c : Char} (hc : isLowerDigit c = true) :
    isAsciiHexdigit c = true := by
  unfold isLowerDigit at hc
  unfold isAsciiHexdigit
  rw [hc, Bool.true_or]

/-- A lowercase digit is the one that its value is written with. -/
theorem eq_digitChar {c : Char} (hc : isLowerDigit c = true) : c = Nat.digitChar (digitValue c) :=
  forall_hexdigit (P := fun c => isLowerDigit c = true → c = Nat.digitChar (digitValue c))
    (by decide +kernel) (isAsciiHexdigit_of_isLowerDigit hc) hc

theorem lowerChar_eq_self {c : Char} (hc : isLowerDigit c = true) : lowerChar c = c :=
  forall_hexdigit (P := fun c => isLowerDigit c = true → lowerChar c = c)
    (by decide +kernel) (isAsciiHexdigit_of_isLowerDigit hc) hc

/-- Hexadecimal digits take a byte each. -/
theorem utf8ByteSize_digits {digits : List Char}
    (hdigits : ∀ c ∈ digits, isAsciiHexdigit c = true) :
    (String.ofList digits).utf8ByteSize = digits.length := by
  induction digits with
  | nil => rfl
  | cons c digits ih =>
    obtain ⟨hc, hrest⟩ := List.forall_mem_cons.1 hdigits
    have hsize : c.utf8Size = 1 :=
      forall_hexdigit (P := fun c => c.utf8Size = 1) (by decide +kernel) hc
    rw [String.ofList_cons, String.utf8ByteSize_append, String.utf8ByteSize_singleton, hsize,
      ih hrest, List.length_cons, Nat.add_comm]

/-! ## Numbers -/

theorem value_lt {digits : List Char} (hdigits : ∀ c ∈ digits, isAsciiHexdigit c = true) :
    value digits < 16 ^ digits.length := by
  have hlt := @Nat.ofDigits_lt_base_pow_length 16 (digits.reverse.map digitValue) (by norm_num) (by
    intro n hn
    obtain ⟨c, hc, rfl⟩ := List.mem_map.1 hn
    exact digitValue_lt (hdigits c (List.mem_reverse.1 hc)))
  rwa [List.length_map, List.length_reverse] at hlt

/-- Zeros in front do not count. -/
theorem value_replicate_zero (count : Nat) (digits : List Char) :
    value (List.replicate count '0' ++ digits) = value digits := by
  unfold value
  rw [List.reverse_append, List.map_append, Nat.ofDigits_append]
  have hzeros : (List.replicate count '0').reverse.map digitValue = List.replicate count 0 := by
    rw [List.reverse_replicate, List.map_replicate]
    rfl
  rw [hzeros, Nat.ofDigits_replicate_zero, Nat.mul_zero, Nat.add_zero]

/-- Neither does the case of the letters. -/
theorem value_map_lowerChar {digits : List Char}
    (hdigits : ∀ c ∈ digits, isAsciiHexdigit c = true) :
    value (digits.map lowerChar) = value digits := by
  unfold value
  rw [← List.map_reverse, List.map_map]
  congr 1
  refine List.map_congr_left fun c hc => ?_
  exact digitValue_lowerChar (hdigits c (List.mem_reverse.1 hc))

/-- **One text for a number.** Lowercase texts of one length that stand for one number are
equal. -/
theorem value_inj {digits digits' : List Char} (hdigits : ∀ c ∈ digits, isLowerDigit c = true)
    (hdigits' : ∀ c ∈ digits', isLowerDigit c = true) (hlength : digits.length = digits'.length)
    (hvalue : value digits = value digits') : digits = digits' := by
  have hlt : ∀ {l : List Char}, (∀ c ∈ l, isLowerDigit c = true) →
      ∀ n ∈ l.reverse.map digitValue, n < 16 := by
    intro l hl n hn
    obtain ⟨c, hc, rfl⟩ := List.mem_map.1 hn
    exact digitValue_lt (isAsciiHexdigit_of_isLowerDigit (hl c (List.mem_reverse.1 hc)))
  -- the texts are written with the values of their digits
  have hchars : ∀ {l : List Char}, (∀ c ∈ l, isLowerDigit c = true) →
      (l.reverse.map digitValue).reverse.map Nat.digitChar = l := by
    intro l hl
    rw [← List.map_reverse, List.reverse_reverse, List.map_map]
    conv_rhs => rw [← List.map_id l]
    exact List.map_congr_left fun c hc => (eq_digitChar (hl c hc)).symm
  have hvalues := Nat.ofDigits_inj_of_len_eq (by norm_num) (by simpa using hlength)
    (hlt hdigits) (hlt hdigits') hvalue
  rw [← hchars hdigits, hvalues, hchars hdigits']

end HotIndex.Lib.HexText
