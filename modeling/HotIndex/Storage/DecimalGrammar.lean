import HotIndex.Lib.DecimalText
import HotIndex.Storage.BuilderVolume

/-!
# What `parse_decimal` Accepts

The grammar of the amounts in fills and attributions: an optional minus, digits, and
optionally a point and digits, with at least one digit in all. `parse_decimal` trims, strips
and splits its way to the same strings (`parseDecimal_eq_some_iff`) and reads their digits as
an `i128`. The number of places is cast to `u32`, so it is the right one below 2^32 places
(`parsesExactly_iff`).

Both engines have the same copy of `parse_decimal`.
-/

namespace HotIndex

open Lib

/-! ## The grammar -/

/-- The minus of a negative decimal. -/
def signChars (negative : Bool) : List Char := if negative then ['-'] else []

/-- The trimmed text is a decimal with these parts. Without a point there are no fractional
digits. -/
structure SpellsDecimal (value : String) (d : DecimalText) : Prop where
  digits : ∀ c ∈ d.whole ++ d.fractional, c.isDigit = true
  nonempty : d.whole ++ d.fractional ≠ []
  text : (RustText.trim value).toList =
      signChars d.negative ++ (d.whole ++ '.' :: d.fractional) ∨
    d.fractional = [] ∧ (RustText.trim value).toList = signChars d.negative ++ d.whole

/-- The digits denote a number that an `i128` can hold. -/
def DigitsFitI128 (d : DecimalText) : Prop :=
  (digitsValue (d.whole ++ d.fractional) : Int) ≤ i128Max

/-- `parse_decimal` returns units and a number of places exactly for the decimals whose digits
fit an `i128`: the number of digits behind the point, and as many units of the last place as
the decimal denotes. -/
def ParsesExactly (value : String) : Prop :=
  ∀ parsed, parseDecimal value = some parsed ↔
    ∃ d, SpellsDecimal value d ∧ DigitsFitI128 d ∧ parsed.scale = d.fractional.length ∧
      (parsed.units : ℚ) / 10 ^ parsed.scale = d.value

/-! ## The steps of `parse_decimal` -/

/-- `parse_decimal` looks for a minus. -/
def hasMinus (value : String) : Bool := (RustText.trim value).toList.head? == some '-'

/-- What stands behind the minus, if there is one. -/
def decimalBody (value : String) : List Char :=
  ((RustText.stripPrefix (RustText.trim value) "-").getD (RustText.trim value)).toList

theorem decimalValue?_digits {l : List Char} (hne : l ≠ []) (h : ∀ c ∈ l, c.isDigit = true) :
    RustText.decimalValue? l = some (digitsValue l) := by
  cases l with
  | nil => exact absurd rfl hne
  | cons c l =>
    rw [RustText.decimalValue?, if_pos (List.all_eq_true.2 h)]
    · rfl
    · intro hnil
      cases hnil

/-- The minus and the body are the trimmed text. -/
theorem signChars_append_body (value : String) :
    (RustText.trim value).toList = signChars (hasMinus value) ++ decimalBody value := by
  unfold hasMinus decimalBody RustText.stripPrefix
  cases htext : (RustText.trim value).toList with
  | nil => simp [signChars, htext]
  | cons c rest =>
    by_cases hminus : c = '-'
    · simp [signChars, hminus]
    · simp [signChars, hminus, Ne.symm hminus, htext]

/-- A minus in front of something else is the one that is found. -/
theorem eq_of_signChars_append {value : String} {negative : Bool} {body : List Char}
    (htext : (RustText.trim value).toList = signChars negative ++ body)
    (hbody : body.head? ≠ some '-') : hasMinus value = negative ∧ decimalBody value = body := by
  have hminus : hasMinus value = negative := by
    unfold hasMinus
    rw [htext]
    cases negative with
    | true => rfl
    | false =>
      simp only [signChars, Bool.false_eq_true, if_false, List.nil_append]
      simpa using hbody
  refine ⟨hminus, ?_⟩
  have hsame := (signChars_append_body value).symm.trans htext
  rw [hminus] at hsame
  exact List.append_cancel_left hsame

/-- The grammar in terms of the steps. -/
theorem spellsDecimal_iff {value : String} {d : DecimalText} :
    SpellsDecimal value d ↔
      (∀ c ∈ d.whole ++ d.fractional, c.isDigit = true) ∧ d.whole ++ d.fractional ≠ [] ∧
        hasMinus value = d.negative ∧
        ((decimalBody value).splitOn '.' = [d.whole, d.fractional] ∨
          d.fractional = [] ∧ (decimalBody value).splitOn '.' = [d.whole]) := by
  constructor
  · rintro ⟨hdigits, hnonempty, htext⟩
    refine ⟨hdigits, hnonempty, ?_⟩
    have hwhole : '.' ∉ d.whole :=
      fun hc => absurd (hdigits _ (List.mem_append_left _ hc)) (by decide)
    have hfractional : '.' ∉ d.fractional :=
      fun hc => absurd (hdigits _ (List.mem_append_right _ hc)) (by decide)
    -- digits and a point are no minus
    have hhead : ∀ rest, rest.head? ≠ some '-' → (d.whole ++ rest).head? ≠ some '-' := by
      intro rest hrest
      cases hd : d.whole with
      | nil => simpa using hrest
      | cons c digits =>
        rw [List.cons_append, List.head?_cons]
        intro hc
        have hdigit := hdigits c (by simp [hd])
        rw [Option.some.inj hc] at hdigit
        exact absurd hdigit (by decide)
    rcases htext with htext | ⟨hempty, htext⟩
    · obtain ⟨hminus, hbody⟩ := eq_of_signChars_append htext (hhead _ (by simp))
      refine ⟨hminus, .inl ?_⟩
      rw [hbody, List.splitOn_append_cons_self_of_not_mem hwhole,
        List.splitOn_eq_singleton hfractional]
    · have hwholeHead : d.whole.head? ≠ some '-' := by simpa using hhead [] (by simp)
      obtain ⟨hminus, hbody⟩ := eq_of_signChars_append htext hwholeHead
      exact ⟨hminus, .inr ⟨hempty, by rw [hbody, List.splitOn_eq_singleton hwhole]⟩⟩
  · rintro ⟨hdigits, hnonempty, hminus, hparts⟩
    have hjoined : ['.'].intercalate ((decimalBody value).splitOn '.') = decimalBody value :=
      List.intercalate_splitOn '.'
    refine ⟨hdigits, hnonempty, ?_⟩
    rw [signChars_append_body, hminus]
    rcases hparts with hparts | ⟨hempty, hparts⟩
    · rw [hparts] at hjoined
      left
      rw [← hjoined]
      simp [List.intercalate]
    · rw [hparts] at hjoined
      right
      refine ⟨hempty, ?_⟩
      rw [← hjoined]
      simp [List.intercalate]

/-- A text has one reading. -/
theorem SpellsDecimal.unique {value : String} {d d' : DecimalText} (h : SpellsDecimal value d)
    (h' : SpellsDecimal value d') : d = d' := by
  obtain ⟨-, -, hminus, hparts⟩ := spellsDecimal_iff.1 h
  obtain ⟨-, -, hminus', hparts'⟩ := spellsDecimal_iff.1 h'
  have hnegative := hminus.symm.trans hminus'
  cases d
  cases d'
  simp only at hnegative hparts hparts'
  -- both are read off the same parts
  rcases hparts with hparts | ⟨hempty, hparts⟩ <;>
    rcases hparts' with hparts' | ⟨hempty', hparts'⟩ <;> rw [hparts] at hparts' <;> simp_all

/-! ## What is accepted -/

theorem parseParts_eq_some_iff {negative : Bool} {whole : List Char}
    {fractional : Option (List Char)} {parsed : Scaled} :
    parseDecimal.parseParts negative whole fractional = some parsed ↔
      let d : DecimalText := ⟨negative, whole, fractional.getD []⟩
      (∀ c ∈ d.whole ++ d.fractional, c.isDigit = true) ∧ d.whole ++ d.fractional ≠ [] ∧
        DigitsFitI128 d ∧ parsed = { units := d.units, scale := d.fractional.length % 2 ^ 32 } := by
  have hscale : (fractional.map (fun digits => digits.length % 2 ^ 32)).getD 0 =
      (fractional.getD []).length % 2 ^ 32 := by
    cases fractional <;> rfl
  unfold parseDecimal.parseParts DigitsFitI128 DecimalText.units
  rw [hscale]
  -- the cases follow the checks of the code: no digits, a character that is none, a value beyond
  -- `i128`
  by_cases hempty : whole ++ fractional.getD [] = []
  · obtain ⟨hwhole, hfractional⟩ := List.append_eq_nil_iff.1 hempty
    simp [hwhole, hfractional]
  · have hparts : (whole.isEmpty && (fractional.getD []).isEmpty) = false := by
      rw [Bool.eq_false_iff]
      intro h
      rw [Bool.and_eq_true, List.isEmpty_iff, List.isEmpty_iff] at h
      exact hempty (by rw [h.1, h.2, List.nil_append])
    by_cases hdigits : ∀ c ∈ whole ++ fractional.getD [], c.isDigit = true
    · have hall : (!whole.all Char.isDigit || !(fractional.getD []).all Char.isDigit) = false := by
        rw [← Bool.not_and, ← List.all_append, List.all_eq_true.2 hdigits, Bool.not_true]
      rw [hparts, hall, decimalValue?_digits hempty hdigits]
      simp only [Bool.false_eq_true, if_false]
      by_cases hfits : (digitsValue (whole ++ fractional.getD []) : Int) ≤ i128Max
      · rw [if_pos hfits, Option.some.injEq]
        exact ⟨fun h => ⟨hdigits, hempty, hfits, h.symm⟩, fun h => h.2.2.2.symm⟩
      · rw [if_neg hfits]
        exact ⟨fun h => (by cases h), fun h => absurd h.2.2.1 hfits⟩
    · have hall : (!whole.all Char.isDigit || !(fractional.getD []).all Char.isDigit) = true := by
        rw [← Bool.not_and, ← List.all_append, Bool.not_eq_true', ← Bool.not_eq_true,
          List.all_eq_true]
        exact hdigits
      rw [hparts, hall]
      simp only [Bool.false_eq_true, if_false, if_true]
      exact ⟨fun h => (by cases h), fun h => absurd h.1 hdigits⟩

/-- **The grammar.** `parse_decimal` accepts exactly the decimals whose digits fit an `i128`. It
returns the units of the last place, and the number of places in 32 bits. -/
theorem parseDecimal_eq_some_iff {value : String} {parsed : Scaled} :
    parseDecimal value = some parsed ↔
      ∃ d, SpellsDecimal value d ∧ DigitsFitI128 d ∧
        parsed = { units := d.units, scale := d.fractional.length % 2 ^ 32 } := by
  constructor
  · intro h
    unfold parseDecimal at h
    simp only at h
    split_ifs at h with hempty
    -- the text has one part, two parts or more, split at its points
    split at h
    · rename_i whole hsplit
      obtain ⟨hdigits, hnonempty, hfits, hparsed⟩ := parseParts_eq_some_iff.1 h
      exact ⟨_, spellsDecimal_iff.2 ⟨hdigits, hnonempty, rfl, .inr ⟨rfl, hsplit⟩⟩, hfits, hparsed⟩
    · rename_i whole fractional hsplit
      obtain ⟨hdigits, hnonempty, hfits, hparsed⟩ := parseParts_eq_some_iff.1 h
      exact ⟨_, spellsDecimal_iff.2 ⟨hdigits, hnonempty, rfl, .inl hsplit⟩, hfits, hparsed⟩
    · cases h
  · rintro ⟨⟨negative, whole, fractional⟩, hspells, hfits, rfl⟩
    obtain ⟨hdigits, hnonempty, hminus, hparts⟩ := spellsDecimal_iff.1 hspells
    -- an empty text spells no decimal: it has no digits
    have hempty : ¬ (RustText.trim value).isEmpty = true := by
      intro hempty
      have hnil : (RustText.trim value).toList = [] := by simpa using hempty
      rcases hspells.text with htext | ⟨hfractional, htext⟩
      · simp [hnil] at htext
      · rw [hnil] at htext
        apply hnonempty
        rw [(List.append_eq_nil_iff.1 htext.symm).2, hfractional, List.append_nil]
    unfold hasMinus at hminus
    unfold decimalBody at hparts
    unfold parseDecimal
    simp only at hminus hparts ⊢
    rw [if_neg hempty, hminus]
    rcases hparts with hparts | ⟨rfl, hparts⟩
    · rw [hparts]
      exact parseParts_eq_some_iff.2 ⟨hdigits, hnonempty, hfits, rfl⟩
    · rw [hparts]
      exact parseParts_eq_some_iff.2 ⟨hdigits, hnonempty, hfits, rfl⟩

/-! ## The number of places -/

/-- Below 2^32 places, the number of places and the value are right. -/
theorem parsesExactly_of_places {value : String}
    (hplaces : ∀ d, SpellsDecimal value d → DigitsFitI128 d → d.fractional.length < 2 ^ 32) :
    ParsesExactly value := by
  intro parsed
  rw [parseDecimal_eq_some_iff]
  refine exists_congr fun d => and_congr_right fun hspells => and_congr_right fun hfits => ?_
  have hmod : d.fractional.length % 2 ^ 32 = d.fractional.length :=
    Nat.mod_eq_of_lt (hplaces d hspells hfits)
  rw [hmod]
  constructor
  · rintro rfl
    exact ⟨rfl, rfl⟩
  · rintro ⟨hscale, hvalue⟩
    -- units of the same place that denote the same number are equal
    unfold DecimalText.value at hvalue
    rw [hscale, div_left_inj' (by positivity)] at hvalue
    have hunits : parsed.units = d.units := by exact_mod_cast hvalue
    cases parsed
    simp only at hunits hscale
    rw [hunits, hscale]

/-- With more places, the number that is returned is not theirs. -/
theorem not_parsesExactly_of_places {value : String} {d : DecimalText}
    (hspells : SpellsDecimal value d) (hfits : DigitsFitI128 d)
    (hplaces : 2 ^ 32 ≤ d.fractional.length) : ¬ ParsesExactly value := by
  intro hexact
  obtain ⟨d', hspells', -, hscale, -⟩ :=
    (hexact _).1 (parseDecimal_eq_some_iff.2 ⟨d, hspells, hfits, rfl⟩)
  rw [← hspells.unique hspells'] at hscale
  have hlt : d.fractional.length % 2 ^ 32 < 2 ^ 32 := Nat.mod_lt _ (by norm_num)
  simp only at hscale
  omega

/-- **Exactly when the value is right.** `parse_decimal` accepts exactly its grammar, with the
right number of places and the right value, unless the text is a decimal that fits an `i128`
and has 2^32 places or more. -/
theorem parsesExactly_iff (value : String) :
    ParsesExactly value ↔
      ∀ d, SpellsDecimal value d → DigitsFitI128 d → d.fractional.length < 2 ^ 32 :=
  ⟨fun hexact _ hspells hfits => not_le.1 fun hplaces =>
    not_parsesExactly_of_places hspells hfits hplaces hexact, parsesExactly_of_places⟩

/-- A point, zeros and a one. -/
def smallDecimal (zeros : Nat) : String :=
  String.ofList ('.' :: (List.replicate zeros '0' ++ ['1']))

theorem spellsDecimal_smallDecimal (zeros : Nat) :
    SpellsDecimal (smallDecimal zeros) ⟨false, [], List.replicate zeros '0' ++ ['1']⟩ ∧
      DigitsFitI128 ⟨false, [], List.replicate zeros '0' ++ ['1']⟩ := by
  -- neither end is whitespace
  have htrim : RustText.trim (smallDecimal zeros) = smallDecimal zeros := by
    refine RustText.trim_eq_self ?_ ?_
    · intro c hc
      obtain rfl : '.' = c := by simpa using hc
      decide
    · intro c hc
      rw [← List.cons_append, List.getLast?_concat] at hc
      obtain rfl : '1' = c := by simpa using hc
      decide
  refine ⟨⟨?_, by simp, .inl ?_⟩, ?_⟩
  · intro c hc
    rcases List.mem_append.1 hc with hc | hc
    · cases hc
    · rcases List.mem_append.1 hc with hc | hc
      · rw [List.eq_of_mem_replicate hc]
        decide
      · rw [List.mem_singleton.1 hc]
        decide
  · rw [htrim, smallDecimal, String.toList_ofList]
    rfl
  · unfold DigitsFitI128
    rw [List.nil_append, digitsValue_append]
    have hone : digitsValue ['1'] = 1 := by decide
    simp [hone, i128Max]

/-- One unit of the last of 2^32 + 1 places is read as a tenth. -/
theorem not_parsesExactly_smallDecimal : ¬ ParsesExactly (smallDecimal (2 ^ 32)) := by
  obtain ⟨hspells, hfits⟩ := spellsDecimal_smallDecimal (2 ^ 32)
  refine not_parsesExactly_of_places hspells hfits ?_
  rw [List.length_append, List.length_replicate]
  exact Nat.le_add_right _ _

end HotIndex
