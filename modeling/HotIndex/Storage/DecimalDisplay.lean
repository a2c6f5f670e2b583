import HotIndex.Lib.DecimalText
import HotIndex.Storage.DecimalGrammar
import HotIndex.Storage.DecimalSums
import Mathlib.Data.List.TakeWhile

/-!
# The Text of a Decimal Sum

`DecimalAccumulator` prints its units with the point `scale` places from the right and drops
the zeros at the end. Unless the units are `i128::MIN`, which has no absolute value in `i128`,
the text is the canonical decimal of the exact sum, so it does not depend on the order or the
scales of the summands, and `parse_decimal` reads the sum back (`decimalText_iff`).
-/

namespace HotIndex

open Lib

/-! ## Digits -/

theorem toList_toString_int (n : Int) :
    (toString n).toList = (if n < 0 then ['-'] else []) ++ Nat.toDigits 10 n.natAbs := by
  show (Int.repr n).toList = _
  cases n with
  | ofNat m => simp [Int.repr]
  | negSucc m => simp [Int.repr]

theorem isDigit_of_mem_toDigits {n : Nat} {c : Char} (h : c ∈ Nat.toDigits 10 n) :
    c.isDigit = true :=
  Nat.isDigit_of_mem_toDigits (by decide) (by decide) h

/-- Only zero is written with a leading zero. -/
theorem head_toDigits {n : Nat} (h : (Nat.toDigits 10 n).head? = some '0') : n = 0 := by
  induction n using Nat.strong_induction_on with
  | _ n ih =>
    rw [Nat.toDigits_eq_if (by decide)] at h
    split_ifs at h with hlt
    · have hdigit : ∀ d < 10, ['0'] = [Nat.digitChar d] → d = 0 := by decide
      exact hdigit n hlt (by simpa using h.symm)
    · rw [List.head?_append_of_ne_nil _ Nat.toDigits_ne_nil] at h
      have := ih (n / 10) (by omega) h
      omega

namespace DecimalAccumulator

/-- Trimming takes away zeros at the end, and all of them. -/
theorem trimTrailingZeros_spec (digits : List Char) :
    (∃ k, digits = trimTrailingZeros digits ++ List.replicate k '0') ∧
      (trimTrailingZeros digits).getLast? ≠ some '0' := by
  unfold trimTrailingZeros
  constructor
  · refine ⟨(digits.reverse.takeWhile (· == '0')).length, ?_⟩
    -- what is taken from the end are zeros
    have hzeros : digits.reverse.takeWhile (· == '0') =
        List.replicate (digits.reverse.takeWhile (· == '0')).length '0' := by
      rw [List.eq_replicate_iff]
      exact ⟨rfl, fun c hc => by simpa using List.mem_takeWhile_imp hc⟩
    calc digits = digits.reverse.reverse := (List.reverse_reverse digits).symm
      _ = (digits.reverse.takeWhile (· == '0') ++ digits.reverse.dropWhile (· == '0')).reverse := by
        rw [List.takeWhile_append_dropWhile]
      _ = _ := by
        rw [List.reverse_append, hzeros, List.reverse_replicate]
        simp
  · -- what stays does not end in one
    rw [List.getLast?_reverse]
    intro h
    have hnot := List.head?_dropWhile_not (· == '0') digits.reverse
    rw [h] at hnot
    simp at hnot

/-! ## What is shown -/

theorem length_toDigits_pos (n : Nat) : 0 < (Nat.toDigits 10 n).length :=
  List.length_pos_iff.2 Nat.toDigits_ne_nil

/-- The digits of the units, at least one of them before the point. -/
def padded (acc : DecimalAccumulator) : List Char :=
  let digits := Nat.toDigits 10 acc.units.natAbs
  List.replicate (acc.scale + 1 - digits.length) '0' ++ digits

/-- The decimal that an accumulator is displayed as. -/
def shown (acc : DecimalAccumulator) : DecimalText where
  negative := acc.units < 0
  whole := acc.padded.take (acc.padded.length - acc.scale)
  fractional := trimTrailingZeros (acc.padded.drop (acc.padded.length - acc.scale))

theorem scale_lt_length_padded (acc : DecimalAccumulator) : acc.scale < acc.padded.length := by
  simp only [padded, List.length_append, List.length_replicate]
  omega

theorem digitsValue_padded (acc : DecimalAccumulator) :
    digitsValue acc.padded = acc.units.natAbs := by
  unfold padded
  rw [digitsValue_append]
  simp [digitsValue]

theorem isDigit_of_mem_padded {acc : DecimalAccumulator} {c : Char} (h : c ∈ acc.padded) :
    c.isDigit = true := by
  rcases List.mem_append.1 h with h | h
  · rw [(List.mem_replicate.1 h).2]
    decide
  · exact isDigit_of_mem_toDigits h

/-- Where there are digits for every place, nothing is padded. -/
theorem padded_of_lt {acc : DecimalAccumulator}
    (h : acc.scale < (Nat.toDigits 10 acc.units.natAbs).length) :
    acc.padded = Nat.toDigits 10 acc.units.natAbs := by
  have hnone : acc.scale + 1 - (Nat.toDigits 10 acc.units.natAbs).length = 0 := by omega
  simp only [padded, hnone, List.replicate_zero, List.nil_append]

/-- Where there are not, the whole part is a single zero. -/
theorem padded_of_le {acc : DecimalAccumulator}
    (h : (Nat.toDigits 10 acc.units.natAbs).length ≤ acc.scale) :
    acc.padded = '0' :: (List.replicate (acc.scale - (Nat.toDigits 10 acc.units.natAbs).length) '0'
      ++ Nat.toDigits 10 acc.units.natAbs) := by
  simp only [padded, Nat.succ_sub h, List.replicate_succ, List.cons_append]

/-- The shown decimal has the units of the accumulator, short of the places that were
trimmed. -/
theorem units_shown (acc : DecimalAccumulator) :
    ∃ k, acc.scale = acc.shown.fractional.length + k ∧ acc.units = acc.shown.units * 10 ^ k := by
  have hlt := acc.scale_lt_length_padded
  rcases trimTrailingZeros_spec (acc.padded.drop (acc.padded.length - acc.scale)) with
    ⟨⟨k, hk⟩, _⟩
  have hlength := congrArg List.length hk
  rw [List.length_drop, List.length_append, List.length_replicate] at hlength
  refine ⟨k, ?_, ?_⟩
  · show acc.scale = (trimTrailingZeros _).length + k
    omega
  · -- what was trimmed are zeros, so the digits before them stand for the rest
    have hvalue : acc.units.natAbs =
        digitsValue (acc.shown.whole ++ acc.shown.fractional) * 10 ^ k := by
      calc acc.units.natAbs = digitsValue acc.padded := acc.digitsValue_padded.symm
        _ = digitsValue ((acc.shown.whole ++ acc.shown.fractional) ++
              List.replicate k '0') := by
          rw [List.append_assoc]
          conv_lhs => rw [← List.take_append_drop (acc.padded.length - acc.scale) acc.padded]
          exact congrArg (fun l => digitsValue (_ ++ l)) hk
        _ = _ := by
          rw [digitsValue_append]
          simp [digitsValue, mul_comm]
    have hcast : (digitsValue (acc.shown.whole ++ acc.shown.fractional) : Int) * 10 ^ k =
        acc.units.natAbs := by
      rw [hvalue]
      push_cast
      rfl
    unfold DecimalText.units
    -- the sign is put in front of the digits of the absolute value
    by_cases hnegative : acc.units < 0
    · have hsign : acc.shown.negative = true := decide_eq_true hnegative
      rw [if_pos hsign, neg_mul, hcast]
      omega
    · have hsign : ¬ acc.shown.negative = true := by
        show ¬ decide (acc.units < 0) = true
        simpa using hnegative
      rw [if_neg hsign, hcast]
      omega

theorem value_shown (acc : DecimalAccumulator) : acc.shown.value = acc.value := by
  rcases acc.units_shown with ⟨k, hscale, hunits⟩
  unfold DecimalText.value Scaled.value
  rw [hunits, hscale, pow_add]
  push_cast
  rw [div_eq_div_iff (by positivity) (by positivity)]
  ring

/-- The two texts that are printed, without a fraction and with one. -/
theorem printed_eq {d : DecimalText} {bare full : String}
    (hbare : bare.toList = (if d.negative then ['-'] else []) ++ d.whole)
    (hfull : full.toList = (if d.negative then ['-'] else []) ++ d.whole ++ '.' :: d.fractional) :
    (if d.fractional.isEmpty then (pure bare : Except Fault String) else pure full) =
      .ok (String.ofList d.chars) := by
  unfold DecimalText.chars
  split_ifs at hbare hfull ⊢ <;>
    simp [pure, Except.pure, ← String.toList_inj, hbare, hfull]

/-- What is printed is the shown decimal. The units need an absolute value only behind a
point. -/
theorem display_eq {acc : DecimalAccumulator} (hfits : FitsI128 acc.units)
    (hmin : acc.scale = 0 ∨ acc.units ≠ i128Min) :
    acc.display = .ok (String.ofList acc.shown.chars) := by
  unfold display
  by_cases hscale : acc.scale = 0
  · -- whole units are printed as they are
    rw [if_pos hscale]
    have hpadded := @padded_of_lt acc (by rw [hscale]; exact length_toDigits_pos _)
    congr 1
    apply String.toList_inj.1
    rw [toList_toString_int, String.toList_ofList]
    simp [DecimalText.chars, shown, hpadded, hscale, trimTrailingZeros]
  · rw [if_neg hscale]
    -- only the absolute value of `i128::MIN` is out of range
    have habs : FitsI128 |acc.units| := by
      have hne := hmin.resolve_left hscale
      unfold FitsI128 i128Min i128Max at *
      rw [Int.abs_eq_natAbs]
      omega
    have hdigits : (toString |acc.units|).toList = Nat.toDigits 10 acc.units.natAbs := by
      rw [toList_toString_int, if_neg (by simp), Int.natAbs_abs, List.nil_append]
    have hsign : (if acc.units < 0 then "-" else "").toList =
        if acc.shown.negative then ['-'] else [] := by
      simp only [shown, decide_eq_true_eq]
      split_ifs <;> rfl
    simp only [checkedI128_of_fits _ habs, bind, Except.bind, hdigits]
    by_cases hlength : (Nat.toDigits 10 acc.units.natAbs).length ≤ acc.scale
    · -- too few digits for all places: a zero stands before the point
      have hpoint : acc.padded.length - acc.scale = 1 := by
        rw [padded_of_le hlength, List.length_cons, List.length_append, List.length_replicate]
        omega
      have hwhole : acc.shown.whole = ['0'] := by
        simp only [shown, hpoint]
        simp [padded_of_le hlength]
      have hfractional : acc.shown.fractional = trimTrailingZeros
          (List.replicate (acc.scale - (Nat.toDigits 10 acc.units.natAbs).length) '0' ++
            Nat.toDigits 10 acc.units.natAbs) := by
        simp only [shown, hpoint]
        simp [padded_of_le hlength]
      rw [if_pos hlength, ← hfractional]
      apply printed_eq
      · simp [hwhole, hsign]
      · simp [hwhole, hsign]
    · -- the digits are cut where the point stands
      have hwhole : acc.shown.whole = (Nat.toDigits 10 acc.units.natAbs).take
          ((Nat.toDigits 10 acc.units.natAbs).length - acc.scale) := by
        simp [shown, padded_of_lt (not_le.1 hlength)]
      have hfractional : acc.shown.fractional = trimTrailingZeros
          ((Nat.toDigits 10 acc.units.natAbs).drop
            ((Nat.toDigits 10 acc.units.natAbs).length - acc.scale)) := by
        simp [shown, padded_of_lt (not_le.1 hlength)]
      rw [if_neg hlength, ← hfractional, ← hwhole]
      apply printed_eq
      · simp [hsign]
      · simp [hsign]

/-- Nothing of what is shown could be left out. -/
theorem shown_canonical (acc : DecimalAccumulator) : acc.shown.Canonical where
  digits := by
    intro c hc
    rcases List.mem_append.1 hc with hc | hc
    · exact isDigit_of_mem_padded (List.mem_of_mem_take hc)
    · rcases trimTrailingZeros_spec (acc.padded.drop (acc.padded.length - acc.scale)) with
        ⟨⟨k, hk⟩, _⟩
      apply @isDigit_of_mem_padded acc
      apply List.mem_of_mem_drop (i := acc.padded.length - acc.scale)
      rw [hk]
      exact List.mem_append_left _ hc
  whole_ne_nil := by
    have hlt := acc.scale_lt_length_padded
    intro hnil
    have hlength := congrArg List.length hnil
    simp only [shown, List.length_take, List.length_nil] at hlength
    omega
  no_leading_zero := by
    intro hhead
    rcases lt_or_ge acc.scale (Nat.toDigits 10 acc.units.natAbs).length with hlt | hle
    · -- the digits of a number other than zero do not start with a zero
      have hdigits : (Nat.toDigits 10 acc.units.natAbs).head? = some '0' := by
        simp only [shown, padded_of_lt hlt] at hhead
        rw [List.head?_take, if_neg (by omega)] at hhead
        exact hhead
      have hzero := head_toDigits hdigits
      simp only [shown, padded_of_lt hlt, hzero, Nat.toDigits_zero] at hlt ⊢
      have hscale : acc.scale = 0 := by simpa using hlt
      simp [hscale]
    · have hpoint : acc.padded.length - acc.scale = 1 := by
        rw [padded_of_le hle, List.length_cons, List.length_append, List.length_replicate]
        omega
      simp only [shown, hpoint]
      simp [padded_of_le hle]
  no_trailing_zero := (trimTrailingZeros_spec _).2
  no_negative_zero := by
    -- units that are shown as zero are zero
    intro hnegative hzero
    rcases acc.units_shown with ⟨k, _, hunits⟩
    have hneg : acc.units < 0 := of_decide_eq_true hnegative
    rw [← DecimalText.natAbs_units, Int.natAbs_eq_zero] at hzero
    rw [hunits, hzero, zero_mul] at hneg
    exact lt_irrefl 0 hneg

end DecimalAccumulator

/-! ## Reading a canonical decimal -/

theorem not_whitespace_of_isDigit {c : Char} (h : c.isDigit = true) :
    RustText.isWhitespace c = false := by
  have hc := toNat_of_isDigit h
  simp only [RustText.isWhitespace, Bool.or_eq_false_iff, Bool.and_eq_false_iff,
    beq_eq_false_iff_ne, decide_eq_false_iff_not]
  omega

/-- Whatever stands at an end of a canonical decimal is no space. -/
theorem trim_chars {d : DecimalText} (h : d.Canonical) :
    RustText.trim (String.ofList d.chars) = String.ofList d.chars := by
  have hmem : ∀ c ∈ d.chars, RustText.isWhitespace c = false := by
    intro c hc
    -- a sign, a point or a digit
    have hcases : c = '-' ∨ c ∈ d.whole ∨ c = '.' ∨ c ∈ d.fractional := by
      unfold DecimalText.chars at hc
      split_ifs at hc <;> simp at hc <;> tauto
    rcases hcases with rfl | hc | rfl | hc
    · decide
    · exact not_whitespace_of_isDigit (h.isDigit_whole hc)
    · decide
    · exact not_whitespace_of_isDigit (h.isDigit_fractional hc)
  exact RustText.trim_eq_self (fun c hc => hmem c (List.mem_of_mem_head? hc))
    (fun c hc => hmem c (List.mem_of_mem_getLast? hc))

/-- A canonical decimal is in the grammar of `parse_decimal`. -/
theorem spellsDecimal_chars {d : DecimalText} (h : d.Canonical) :
    SpellsDecimal (String.ofList d.chars) d := by
  have htext : (RustText.trim (String.ofList d.chars)).toList =
      signChars d.negative ++ d.body := by
    rw [trim_chars h, String.toList_ofList]
    exact List.append_assoc _ _ _
  -- the first digit is not taken for a sign
  have hhead : d.body.head? ≠ some '-' := by
    rcases List.exists_cons_of_ne_nil h.whole_ne_nil with ⟨c, rest, hwhole⟩
    rw [DecimalText.body, hwhole, List.cons_append, List.head?_cons]
    intro hminus
    have hdigit := h.isDigit_whole (hwhole ▸ List.mem_cons_self)
    rw [Option.some.inj hminus] at hdigit
    exact absurd hdigit (by decide)
  obtain ⟨hminus, hbody⟩ := eq_of_signChars_append htext hhead
  refine spellsDecimal_iff.2 ⟨h.digits, by simp [h.whole_ne_nil], hminus, ?_⟩
  rw [hbody, h.splitOn_body]
  cases hfractional : d.fractional with
  | nil => exact .inr ⟨rfl, rfl⟩
  | cons c digits => exact .inl rfl

/-- `parse_decimal` reads a canonical decimal back. -/
theorem parseDecimal_chars {d : DecimalText} (h : d.Canonical)
    (hunits : (d.units.natAbs : Int) ≤ i128Max) (hlength : d.fractional.length < 2 ^ 32) :
    parseDecimal (String.ofList d.chars) =
      some { units := d.units, scale := d.fractional.length } := by
  rw [DecimalText.natAbs_units] at hunits
  refine parseDecimal_eq_some_iff.2 ⟨d, spellsDecimal_chars h, hunits, ?_⟩
  rw [Nat.mod_eq_of_lt hlength]

/-! ## The printed sum -/

/-- The number that the decimals among the texts add up to. -/
def exactSum (values : List String) : ℚ := ((decimals values).map Scaled.value).sum

/-- The text is the canonical decimal of a number, and `parse_decimal` reads it as this
number. -/
def IsDecimalOf (text : String) (q : ℚ) : Prop :=
  (∃ d : DecimalText, d.Canonical ∧ d.value = q ∧ text = String.ofList d.chars) ∧
    ∃ decimal, parseDecimal text = some decimal ∧ decimal.value = q

/-- The sum of the texts is printed as the canonical decimal of the exact sum. The same text is
printed for the texts in any other order, and for any other texts with this sum. -/
def PrintsExactSum (values : List String) : Prop :=
  ∃ acc text, decimalSum values = .ok acc ∧ acc.display = .ok text ∧
    IsDecimalOf text (exactSum values) ∧
    ∀ values' acc', values'.Perm values ∨ exactSum values' = exactSum values →
      decimalSum values' = .ok acc' → acc'.display = .ok text

theorem exactSum_perm {values values' : List String} (h : values'.Perm values) :
    exactSum values' = exactSum values :=
  ((h.filterMap parseDecimal).map Scaled.value).sum_eq

theorem value_decimalSum {values : List String} {acc : DecimalAccumulator}
    (h : decimalSum values = .ok acc) : acc.value = exactSum values := by
  rw [decimalSum_eq_ok h, Scaled.value_sum]
  rfl

theorem scale_lt_of_decimalSum {values : List String} {acc : DecimalAccumulator}
    (h : decimalSum values = .ok acc) : acc.scale < 2 ^ 32 := by
  rw [decimalSum_eq_ok h, Scaled.scale_sum]
  apply Scaled.maxScale_lt (Nat.two_pow_pos 32)
  intro decimal hdecimal
  rcases List.mem_filterMap.1 hdecimal with ⟨value, _, hvalue⟩
  exact (bounds_of_parseDecimal hvalue).2

/-- `i128::MIN` is not divisible by ten, and ten times it is out of range, so a sum whose units
it is shares its value with no other sum. -/
theorem units_eq_min {acc acc' : DecimalAccumulator} (hfits : FitsI128 acc.units)
    (hvalue : acc'.value = acc.value) (hmin : acc'.units = i128Min) : acc.units = i128Min := by
  have hcross : acc.units * 10 ^ acc'.scale = i128Min * 10 ^ acc.scale := by
    unfold Scaled.value at hvalue
    rw [div_eq_div_iff (by positivity) (by positivity), hmin] at hvalue
    exact_mod_cast hvalue.symm
  have hpow : ∀ n : Nat, (10 : Int) ^ n ≠ 0 := fun n => by positivity
  rcases lt_trichotomy acc.scale acc'.scale with hlt | heq | hgt
  · -- `i128::MIN` would be a multiple of ten
    rcases Nat.exists_eq_add_of_lt hlt with ⟨k, hk⟩
    rw [hk, add_assoc, pow_add, mul_comm ((10 : Int) ^ acc.scale), ← mul_assoc] at hcross
    have hdvd : (10 : Int) ∣ i128Min := by
      rw [← mul_right_cancel₀ (hpow _) hcross, pow_succ]
      exact ⟨acc.units * 10 ^ k, by ring⟩
    exact absurd hdvd (by decide)
  · rw [heq] at hcross
    exact mul_right_cancel₀ (hpow _) hcross
  · -- the units would be a multiple of `i128::MIN`
    rcases Nat.exists_eq_add_of_lt hgt with ⟨k, hk⟩
    rw [hk, add_assoc, pow_add, mul_comm ((10 : Int) ^ acc'.scale), ← mul_assoc] at hcross
    have hunits := mul_right_cancel₀ (hpow _) hcross
    have hpos : (0 : Int) < 10 ^ k := by positivity
    rw [pow_succ] at hunits
    unfold FitsI128 i128Min i128Max at *
    omega

/-- The texts of a sum whose units are not `i128::MIN`. -/
theorem printsExactSum {values : List String} {acc : DecimalAccumulator}
    (h : decimalSum values = .ok acc) (hmin : acc.units ≠ i128Min) : PrintsExactSum values := by
  have hfits := fits_of_decimalSum h
  refine ⟨acc, _, h, DecimalAccumulator.display_eq hfits (.inr hmin), ⟨?_, ?_⟩, ?_⟩
  · exact ⟨acc.shown, acc.shown_canonical, by rw [acc.value_shown, value_decimalSum h], rfl⟩
  · -- dropping places makes the units smaller
    rcases acc.units_shown with ⟨k, hscale, hunits⟩
    have habs : acc.units.natAbs = acc.shown.units.natAbs * 10 ^ k := by
      rw [hunits, Int.natAbs_mul, Int.natAbs_pow]
      rfl
    have hle : acc.shown.units.natAbs ≤ acc.units.natAbs := by
      rw [habs]
      exact Nat.le_mul_of_pos_right _ (by positivity)
    have hmax : (acc.shown.units.natAbs : Int) ≤ i128Max := by
      unfold FitsI128 i128Min i128Max at *
      omega
    have hlength := scale_lt_of_decimalSum h
    refine ⟨_, parseDecimal_chars acc.shown_canonical hmax (by omega), ?_⟩
    rw [← value_decimalSum h, ← acc.value_shown]
    rfl
  · -- another sum of this value shows the same canonical decimal
    intro values' acc' hsame h'
    have hsum : exactSum values' = exactSum values := hsame.elim exactSum_perm id
    have hvalue : acc'.value = acc.value := by rw [value_decimalSum h, value_decimalSum h', hsum]
    have hmin' : acc'.units ≠ i128Min := fun heq => hmin (units_eq_min hfits hvalue heq)
    rw [DecimalAccumulator.display_eq (fits_of_decimalSum h') (.inr hmin')]
    have hshown : acc'.shown = acc.shown := by
      apply acc'.shown_canonical.eq_of_value_eq acc.shown_canonical
      rw [acc'.value_shown, acc.value_shown, hvalue]
    rw [hshown]

/-- With the units `i128::MIN`, the text is one that `parse_decimal` rejects, or there is
none. -/
theorem not_printsExactSum {values : List String} {acc : DecimalAccumulator}
    (h : decimalSum values = .ok acc) (hmin : acc.units = i128Min) : ¬ PrintsExactSum values := by
  rintro ⟨acc', text, h', hdisplay, ⟨_, decimal, hparse, _⟩, _⟩
  rw [h, Except.ok.injEq] at h'
  subst h'
  unfold DecimalAccumulator.display at hdisplay
  by_cases hscale : acc.scale = 0
  · -- the text is printed, but its digits alone are out of range
    rw [if_pos hscale, hmin] at hdisplay
    have hrejected : parseDecimal (toString i128Min) = none := by decide +kernel
    cases hdisplay
    rw [hrejected] at hparse
    cases hparse
  · rw [if_neg hscale, hmin] at hdisplay
    have hnegate : checkedI128 negateOverflow |i128Min| = .error negateOverflow := by decide
    simp only [hnegate] at hdisplay
    cases hdisplay

/-- **Canonical sums.** Of texts whose sum stays in the `i128` range, the exact sum is printed
in canonical form if and only if it is not `i128::MIN` units of the finest scale. -/
theorem printsExactSum_iff {values : List String} (h : NoOverflow (decimalSum values)) :
    PrintsExactSum values ↔
      Scaled.unitsSum (decimals values) (Scaled.maxScale (decimals values)) ≠ i128Min := by
  rcases (failsByOverflow_decimalSum values).returns h with ⟨acc, hacc⟩
  rw [← Scaled.units_sum, ← decimalSum_eq_ok hacc]
  exact ⟨fun hprints hmin => not_printsExactSum hacc hmin hprints, printsExactSum hacc⟩

/-- Ten and a half, three and a quarter, one and a quarter. -/
def sampleNotionals : List String := ["10.50", "3.25", "1.25"]

/-- The sample is printed as `15`, which is what any other texts of this sum print. -/
theorem printsExactSum_iff_sample :
    decimalSum sampleNotionals = .ok { units := 1500, scale := 2 } ∧
      DecimalAccumulator.display { units := 1500, scale := 2 } = .ok "15" ∧
      PrintsExactSum sampleNotionals := by
  have hsum : decimalSum sampleNotionals = .ok { units := 1500, scale := 2 } := by decide +kernel
  refine ⟨hsum, by decide +kernel, (printsExactSum_iff ?_).2 (by decide +kernel)⟩
  intro fault hfault
  rw [hsum] at hfault
  cases hfault

/-- `i128::MIN` as a sum of two texts, of whole numbers or behind a point. -/
def lowestSum : List String := ["-170141183460469231731687303715884105727", "-1"]

def lowestFraction : List String := ["-17014118346046923173168730371588410572.7", "-0.1"]

/-- The sum is printed as a text that is no decimal to `parse_decimal`, or its sign cannot be
taken off. -/
theorem printsExactSum_fails_lowest :
    NoOverflow (decimalSum lowestSum) ∧ ¬ PrintsExactSum lowestSum ∧
      NoOverflow (decimalSum lowestFraction) ∧ ¬ PrintsExactSum lowestFraction := by
  have hsum : decimalSum lowestSum = .ok { units := i128Min, scale := 0 } := by decide +kernel
  have hfraction : decimalSum lowestFraction = .ok { units := i128Min, scale := 1 } := by
    decide +kernel
  refine ⟨fun fault h => ?_, not_printsExactSum hsum rfl, fun fault h => ?_,
    not_printsExactSum hfraction rfl⟩
  · rw [hsum] at h
    cases h
  · rw [hfraction] at h
    cases h

end HotIndex
