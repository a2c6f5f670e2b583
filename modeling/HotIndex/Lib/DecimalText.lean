import Mathlib.Algebra.Order.Field.Rat
import Mathlib.Data.List.Basic
import Mathlib.Tactic

/-!
# Decimal Texts

A decimal number written out: a sign, the digits before the point and those behind it. Of the
many texts of one number, one is canonical; it has no digit that could be left out and no sign
on zero (`Canonical.eq_of_value_eq`).

Digit strings are read by `Nat.ofDigitChars` and written by `Nat.toDigits`.
-/

namespace HotIndex.Lib

/-! ## Digit strings -/

/-- The number that a string of decimal digits denotes. -/
abbrev digitsValue (digits : List Char) : Nat := Nat.ofDigitChars 10 digits 0

theorem digitsValue_append (l m : List Char) :
    digitsValue (l ++ m) = 10 ^ m.length * digitsValue l + digitsValue m := by
  unfold digitsValue
  rw [Nat.ofDigitChars_append, Nat.ofDigitChars_eq_ofDigitChars_zero]

theorem digitsValue_concat (l : List Char) (c : Char) :
    digitsValue (l ++ [c]) = 10 * digitsValue l + (c.toNat - 48) := by
  rw [digitsValue_append]
  simp [digitsValue, Nat.ofDigitChars_cons]

theorem toNat_of_isDigit {c : Char} (h : c.isDigit = true) : 48 ≤ c.toNat ∧ c.toNat ≤ 57 := by
  simpa [Char.isDigit, UInt32.le_iff_toNat_le] using h

/-- Digit strings of one length denote different numbers. -/
theorem digitsValue_inj {l m : List Char} (hl : ∀ c ∈ l, c.isDigit = true)
    (hm : ∀ c ∈ m, c.isDigit = true) (hlength : l.length = m.length)
    (h : digitsValue l = digitsValue m) : l = m := by
  induction l using List.reverseRecOn generalizing m with
  | nil => exact (List.length_eq_zero_iff.1 hlength.symm).symm
  | append_singleton l c ih =>
    rcases List.eq_nil_or_concat' m with rfl | ⟨m, d, rfl⟩
    · simp at hlength
    · rw [digitsValue_concat, digitsValue_concat] at h
      have hc := toNat_of_isDigit (hl c (by simp))
      have hd := toNat_of_isDigit (hm d (by simp))
      -- the last digits agree modulo ten, the others behind a division by ten
      have hlast : c.toNat = d.toNat := by omega
      have hrest : digitsValue l = digitsValue m := by omega
      rw [ih (fun c hc => hl c (by simp [hc])) (fun d hd => hm d (by simp [hd]))
        (by simpa using hlength) hrest, Char.toNat_inj.1 hlast]

theorem digitsValue_lt {l : List Char} (hl : ∀ c ∈ l, c.isDigit = true) :
    digitsValue l < 10 ^ l.length := by
  induction l using List.reverseRecOn with
  | nil => simp
  | append_singleton l c ih =>
    have hc := toNat_of_isDigit (hl c (by simp))
    have hrest := ih (fun c hc => hl c (by simp [hc]))
    rw [digitsValue_concat, List.length_append, List.length_singleton, pow_succ]
    omega

/-- A digit string without leading zeros is what its number is written as. -/
theorem eq_toDigits {l : List Char} (hl : ∀ c ∈ l, c.isDigit = true) (hne : l ≠ [])
    (hzero : l.head? = some '0' → l = ['0']) : l = Nat.toDigits 10 (digitsValue l) := by
  induction l using List.reverseRecOn with
  | nil => exact absurd rfl hne
  | append_singleton l c ih =>
    have hc := toNat_of_isDigit (hl c (by simp))
    -- the last digit is written as itself
    have hdigit : [c] = Nat.toDigits 10 (c.toNat - 48) := by
      rw [Nat.toDigits_of_lt_base (by omega)]
      have hchar : (Nat.digitChar (c.toNat - 48)).toNat = c.toNat := by
        have hten : ∀ d < 10, (Nat.digitChar d).toNat = 48 + d := by decide
        rw [hten _ (by omega)]
        omega
      rw [Char.toNat_inj.1 hchar]
    by_cases hnil : l = []
    · subst hnil
      rw [digitsValue_concat]
      simpa [digitsValue] using hdigit
    · -- the first digit of a longer string is not a zero
      have hhead : l.head? ≠ some '0' := by
        intro h
        have hsingle := hzero (by rw [List.head?_append_of_ne_nil _ hnil, h])
        have hlength := congrArg List.length hsingle
        exact hnil (by simpa using hlength)
      have hrest := ih (fun c hc => hl c (by simp [hc])) hnil (fun h => absurd h hhead)
      have hpos : 0 < digitsValue l := by
        by_contra h
        have hvalue : digitsValue l = 0 := by omega
        rw [hvalue, Nat.toDigits_zero] at hrest
        exact hhead (by rw [hrest]; rfl)
      rw [digitsValue_concat, ← Nat.toDigits_append_toDigits (by decide) hpos (by omega),
        ← hrest, ← hdigit]

/-! ## Decimals -/

/-- A decimal in parts. -/
structure DecimalText where
  negative : Bool
  whole : List Char
  fractional : List Char

namespace DecimalText

/-- The characters of a decimal; without fractional digits there is no point. -/
def chars (d : DecimalText) : List Char :=
  (if d.negative then ['-'] else []) ++ d.whole ++
    (if d.fractional.isEmpty then [] else '.' :: d.fractional)

/-- The characters behind the sign. -/
def body (d : DecimalText) : List Char :=
  d.whole ++ (if d.fractional.isEmpty then [] else '.' :: d.fractional)

/-- The number of units of the last place. -/
def units (d : DecimalText) : Int :=
  if d.negative then -(digitsValue (d.whole ++ d.fractional) : Int)
  else digitsValue (d.whole ++ d.fractional)

/-- The number that a decimal denotes. -/
def value (d : DecimalText) : ℚ := d.units / 10 ^ d.fractional.length

/-- No part of the text could be left out. -/
structure Canonical (d : DecimalText) : Prop where
  digits : ∀ c ∈ d.whole ++ d.fractional, c.isDigit = true
  whole_ne_nil : d.whole ≠ []
  no_leading_zero : d.whole.head? = some '0' → d.whole = ['0']
  no_trailing_zero : d.fractional.getLast? ≠ some '0'
  no_negative_zero : d.negative = true → digitsValue (d.whole ++ d.fractional) ≠ 0

theorem Canonical.isDigit_whole {d : DecimalText} (h : d.Canonical) {c : Char}
    (hc : c ∈ d.whole) : c.isDigit = true := h.digits c (List.mem_append_left _ hc)

theorem Canonical.isDigit_fractional {d : DecimalText} (h : d.Canonical) {c : Char}
    (hc : c ∈ d.fractional) : c.isDigit = true := h.digits c (List.mem_append_right _ hc)

/-- A canonical decimal is split at its point, if it has one. -/
theorem Canonical.splitOn_body {d : DecimalText} (h : d.Canonical) :
    d.body.splitOn '.' = if d.fractional.isEmpty then [d.whole] else [d.whole, d.fractional] := by
  have hwhole : '.' ∉ d.whole := fun hc => absurd (h.isDigit_whole hc) (by decide)
  have hfractional : '.' ∉ d.fractional := fun hc => absurd (h.isDigit_fractional hc) (by decide)
  unfold body
  split_ifs
  · rw [List.append_nil, List.splitOn_eq_singleton hwhole]
  · rw [List.splitOn_append_cons_self_of_not_mem hwhole, List.splitOn_eq_singleton hfractional]

theorem natAbs_units (d : DecimalText) :
    d.units.natAbs = digitsValue (d.whole ++ d.fractional) := by
  unfold units
  split_ifs <;> simp

/-- Only zero has the sign of its opposite. -/
theorem Canonical.negative_iff {d : DecimalText} (h : d.Canonical) :
    d.negative = true ↔ d.units < 0 := by
  cases hnegative : d.negative with
  | false => simp [units, hnegative]
  | true =>
    have hzero := h.no_negative_zero hnegative
    simp only [units, hnegative, if_true, true_iff]
    omega

/-- The last digit of a canonical decimal is not a zero behind the point. -/
theorem Canonical.units_not_dvd {d : DecimalText} (h : d.Canonical)
    (hfractional : d.fractional ≠ []) : ¬ 10 ∣ d.units := by
  rcases List.eq_nil_or_concat' d.fractional with hnil | ⟨l, c, hconcat⟩
  · exact absurd hnil hfractional
  · -- a multiple of ten would end with a zero
    intro hdvd
    have hc := toNat_of_isDigit (h.digits c (by simp [hconcat]))
    have hunits : 10 ∣ digitsValue (d.whole ++ d.fractional) := by
      rw [← natAbs_units]
      exact Int.natCast_dvd.1 (by exact_mod_cast hdvd)
    rw [hconcat, ← List.append_assoc, digitsValue_concat] at hunits
    have hzero : c.toNat = '0'.toNat := by
      show c.toNat = 48
      omega
    apply h.no_trailing_zero
    rw [hconcat, List.getLast?_concat, Char.toNat_inj.1 hzero]

private theorem length_le_of_value_eq {d d' : DecimalText} (h' : d'.Canonical)
    (hvalue : d.value = d'.value) : d'.fractional.length ≤ d.fractional.length := by
  by_contra! hlt
  -- with fewer places on the other side, the units here are a multiple of ten
  have hne : d'.fractional ≠ [] := by
    intro hnil
    simp [hnil] at hlt
  apply h'.units_not_dvd hne
  obtain ⟨k, hk⟩ := Nat.exists_eq_add_of_lt hlt
  have hunits : d'.units = d.units * 10 ^ (k + 1) := by
    unfold value at hvalue
    rw [hk, div_eq_div_iff (by positivity) (by positivity), add_assoc, pow_add] at hvalue
    have hpos : (10 : ℚ) ^ d.fractional.length ≠ 0 := by positivity
    have hcancel : (d'.units : ℚ) = d.units * 10 ^ (k + 1) := by
      apply mul_right_cancel₀ hpos
      linarith
    exact_mod_cast hcancel
  rw [hunits, pow_succ]
  exact ⟨d.units * 10 ^ k, by ring⟩

/-- **Canonical texts.** Canonical decimals of one number are equal. -/
theorem Canonical.eq_of_value_eq {d d' : DecimalText} (h : d.Canonical) (h' : d'.Canonical)
    (hvalue : d.value = d'.value) : d = d' := by
  have hlength : d.fractional.length = d'.fractional.length :=
    le_antisymm (length_le_of_value_eq h hvalue.symm) (length_le_of_value_eq h' hvalue)
  have hunits : d.units = d'.units := by
    unfold value at hvalue
    rw [hlength, div_left_inj' (by positivity)] at hvalue
    exact_mod_cast hvalue
  -- equal units have equal signs and equal digits
  have hnegative : d.negative = d'.negative := by
    rw [Bool.eq_iff_iff, h.negative_iff, h'.negative_iff, hunits]
  have hdigits : digitsValue (d.whole ++ d.fractional) =
      digitsValue (d'.whole ++ d'.fractional) := by
    rw [← natAbs_units, ← natAbs_units, hunits]
  have hwhole : ∀ c ∈ d.whole, c.isDigit = true := fun _ => h.isDigit_whole
  have hwhole' : ∀ c ∈ d'.whole, c.isDigit = true := fun _ => h'.isDigit_whole
  have hfractional : ∀ c ∈ d.fractional, c.isDigit = true := fun _ => h.isDigit_fractional
  have hfractional' : ∀ c ∈ d'.fractional, c.isDigit = true := fun _ => h'.isDigit_fractional
  -- the digits behind the point are the remainder by a power of ten
  rw [digitsValue_append, digitsValue_append, ← hlength] at hdigits
  have hlt := digitsValue_lt hfractional
  have hlt' := digitsValue_lt hfractional'
  rw [← hlength] at hlt'
  have hwholeValue : digitsValue d.whole = digitsValue d'.whole := by
    have hdiv := congrArg (· / 10 ^ d.fractional.length) hdigits
    simpa [Nat.mul_add_div, Nat.div_eq_of_lt hlt, Nat.div_eq_of_lt hlt'] using hdiv
  have hfractionalValue : digitsValue d.fractional = digitsValue d'.fractional := by
    rw [hwholeValue] at hdigits
    omega
  -- the whole parts may differ in length, but have no leading zeros
  have heq : d.whole = d'.whole := by
    rw [eq_toDigits hwhole h.whole_ne_nil h.no_leading_zero,
      eq_toDigits hwhole' h'.whole_ne_nil h'.no_leading_zero, hwholeValue]
  have heq' := digitsValue_inj hfractional hfractional' hlength hfractionalValue
  cases d
  cases d'
  simp only at hnegative heq heq'
  rw [hnegative, heq, heq']

end DecimalText

end HotIndex.Lib
