import HotIndex.Storage.BuilderVolume

/-!
# When a Decimal Sum Overflows

`parse_decimal` admits every text whose digits denote an `i128`. `DecimalAccumulator` keeps its
units at the largest scale it has met and brings both summands to that scale, so whether an
addition fits into `i128` depends on the scales of the texts before it: `1` and a zero with
39 places overflow. The sum of a list stays in range exactly if, for each decimal, the sum
before it, the decimal and their sum do at the largest scale so far
(`decimalSum_noOverflow_iff`).
-/

namespace HotIndex

open Lib

/-- The number is an `i128`. -/
def FitsI128 (n : Int) : Prop := i128Min ≤ n ∧ n ≤ i128Max

instance (n : Int) : Decidable (FitsI128 n) := inferInstanceAs (Decidable (_ ∧ _))

theorem fitsI128_zero : FitsI128 0 := by decide

theorem checkedI128_of_fits (overflow : Fault) {n : Int} (h : FitsI128 n) :
    checkedI128 overflow n = .ok n := if_pos h

theorem fits_of_checkedI128 {overflow : Fault} {n m : Int} (h : checkedI128 overflow n = .ok m) :
    FitsI128 n ∧ m = n := by
  refine ⟨?_, checkedI128_eq_ok h⟩
  unfold checkedI128 at h
  split_ifs at h with hfits
  exact hfits

/-- Between zero and a number in range, every number is in range. -/
theorem FitsI128.of_mul {n k : Int} (hk : 0 < k) (h : FitsI128 (n * k)) : FitsI128 n := by
  unfold FitsI128 i128Min i128Max at *
  rcases lt_or_ge n 0 with hn | hn
  · have : n * k ≤ n := by nlinarith
    omega
  · have : n ≤ n * k := by nlinarith
    omega

/-- A loop of multiplications by ten stays in range if its last one does. -/
theorem timesTen_ok_iff {units : Int} (hunits : FitsI128 units) (steps : Nat) :
    (∃ scaled, timesTen steps units = .ok scaled) ↔ FitsI128 (units * 10 ^ steps) := by
  induction steps generalizing units with
  | zero => simpa [timesTen] using hunits
  | succ steps ih =>
    -- the code multiplies by ten step by step, and the last product is the largest
    have hpow : units * 10 ^ (steps + 1) = units * 10 * 10 ^ steps := by ring
    rw [hpow]
    constructor
    · rintro ⟨scaled, h⟩
      rcases bind_eq_ok_iff.1 h with ⟨next, hnext, h⟩
      rcases fits_of_checkedI128 hnext with ⟨hfits, rfl⟩
      exact (ih hfits).1 ⟨scaled, h⟩
    · intro h
      have hfits : FitsI128 (units * 10) := h.of_mul (by positivity)
      rcases (ih hfits).2 h with ⟨scaled, hscaled⟩
      refine ⟨scaled, ?_⟩
      show (checkedI128 multiplyOverflow (units * 10) >>= fun units => timesTen steps units) = _
      rw [checkedI128_of_fits _ hfits]
      exact hscaled

/-- What `parse_decimal` accepts is in range, and its scale is a `u32`. -/
theorem bounds_of_parseDecimal {value : String} {decimal : Scaled}
    (h : parseDecimal value = some decimal) :
    FitsI128 decimal.units ∧ decimal.scale < 2 ^ 32 := by
  have hparts : ∀ negative whole fractional,
      parseDecimal.parseParts negative whole fractional = some decimal →
      FitsI128 decimal.units ∧ decimal.scale < 2 ^ 32 := by
    intro negative whole fractional hparts
    unfold parseDecimal.parseParts at hparts
    simp only at hparts
    rw [Option.ite_none_left_eq_some, Option.ite_none_left_eq_some] at hparts
    rcases hparts with ⟨_, _, hparts⟩
    cases hnumber : RustText.decimalValue? (whole ++ fractional.getD []) with
    | none =>
      rw [hnumber] at hparts
      cases hparts
    | some n =>
      rw [hnumber] at hparts
      simp only [Option.ite_none_right_eq_some, Option.some.injEq] at hparts
      rcases hparts with ⟨hmax, rfl⟩
      constructor
      · unfold FitsI128 i128Min i128Max at *
        -- both signs of a number up to the maximum are in range
        simp only
        split_ifs <;> omega
      · cases fractional with
        | none => exact Nat.two_pow_pos 32
        | some digits => exact Nat.mod_lt _ (Nat.two_pow_pos 32)
  unfold parseDecimal at h
  simp only at h
  split_ifs at h
  split at h
  · exact hparts _ _ _ h
  · exact hparts _ _ _ h
  · cases h

namespace DecimalAccumulator

/-- An addition of a decimal stays in range if both summands and the sum do, at the larger of
their scales. -/
theorem add_ok_iff {acc : DecimalAccumulator} {value : String} {decimal : Scaled}
    (hacc : FitsI128 acc.units) (hvalue : parseDecimal value = some decimal) :
    (∃ sum, acc.add value = .ok sum) ↔
      FitsI128 (acc.unitsAt (max acc.scale decimal.scale)) ∧
      FitsI128 (decimal.unitsAt (max acc.scale decimal.scale)) ∧
      FitsI128 (acc.unitsAt (max acc.scale decimal.scale) +
        decimal.unitsAt (max acc.scale decimal.scale)) := by
  -- the sum is brought to the scale of the decimal if that is finer, and the decimal to its own
  have hlack : decimal.scale - acc.scale = max acc.scale decimal.scale - acc.scale := by omega
  have hup := timesTen_ok_iff hacc (decimal.scale - acc.scale)
  have haligned := timesTen_ok_iff (bounds_of_parseDecimal hvalue).1
    (max acc.scale decimal.scale - decimal.scale)
  unfold DecimalAccumulator.add
  rw [hvalue]
  constructor
  · -- each of the three steps that succeeded was in range
    rintro ⟨sum, h⟩
    rcases bind_eq_ok_iff.1 h with ⟨units, hunits, h⟩
    rcases bind_eq_ok_iff.1 h with ⟨aligned, hdecimal, h⟩
    rcases bind_eq_ok_iff.1 h with ⟨total, htotal, _⟩
    have hfits := (fits_of_checkedI128 htotal).1
    rw [timesTen_eq_ok hunits, timesTen_eq_ok hdecimal, hlack] at hfits
    have hacc := hup.1 ⟨units, hunits⟩
    rw [hlack] at hacc
    exact ⟨hacc, haligned.1 ⟨aligned, hdecimal⟩, hfits⟩
  · rintro ⟨hacc, hdecimal, hsum⟩
    rcases hup.2 (by rw [hlack]; exact hacc) with ⟨units, hunits⟩
    rcases haligned.2 hdecimal with ⟨aligned, haligned⟩
    refine ⟨{ units := units + aligned, scale := max acc.scale decimal.scale }, ?_⟩
    have htotal : FitsI128 (units + aligned) := by
      rw [timesTen_eq_ok hunits, timesTen_eq_ok haligned, hlack]
      exact hsum
    show (timesTen (decimal.scale - acc.scale) acc.units >>= _) = _
    rw [hunits]
    show (timesTen (max acc.scale decimal.scale - decimal.scale) decimal.units >>= _) = _
    rw [haligned]
    show (checkedI128 addOverflow (units + aligned) >>= _) = _
    rw [checkedI128_of_fits _ htotal]
    rfl

/-- The units of an accumulator never leave the range. -/
theorem fits_of_add {acc sum : DecimalAccumulator} {value : String} (hacc : FitsI128 acc.units)
    (h : acc.add value = .ok sum) : FitsI128 sum.units := by
  unfold DecimalAccumulator.add at h
  -- a text that is no decimal leaves the sum as it is
  cases hvalue : parseDecimal value with
  | none =>
    rw [hvalue] at h
    cases h
    exact hacc
  | some decimal =>
    rw [hvalue] at h
    rcases bind_eq_ok_iff.1 h with ⟨units, _, h⟩
    rcases bind_eq_ok_iff.1 h with ⟨aligned, _, h⟩
    rcases bind_eq_ok_iff.1 h with ⟨total, htotal, h⟩
    cases h
    rcases fits_of_checkedI128 htotal with ⟨hfits, rfl⟩
    exact hfits

end DecimalAccumulator

/-! ## Sums of texts -/

/-- The decimals among the texts. -/
def decimals (values : List String) : List Scaled := values.filterMap parseDecimal

/-- The sum of the texts as the accumulator computes it. -/
def decimalSum (values : List String) : Except Fault DecimalAccumulator :=
  values.foldlM DecimalAccumulator.add .zero

/-- A sum that is computed is exact. -/
theorem decimalSum_eq_ok {values : List String} {acc : DecimalAccumulator}
    (h : decimalSum values = .ok acc) : acc = Scaled.sum (decimals values) := by
  have hfold := foldlM_eq_foldl (fun _ _ _ => DecimalAccumulator.add_eq_ok) h
  -- texts that are no decimals are passed over by both sides
  have hsum : ∀ (values : List String) (acc : Scaled),
      values.foldl (fun acc value => acc.addOption (parseDecimal value)) acc =
        (decimals values).foldl Scaled.add acc := by
    intro values
    induction values with
    | nil => exact fun _ => rfl
    | cons value values ih =>
      intro acc
      rw [List.foldl_cons, ih]
      simp only [decimals, List.filterMap_cons]
      cases parseDecimal value <;> rfl
  rw [hfold, hsum]
  rfl

/-- For each decimal, the sum before it, the decimal and the sum with it are in range at the
largest scale met so far. -/
def SumsFit (ds : List Scaled) : Prop :=
  ∀ before d after, ds = before ++ d :: after →
    let s := Scaled.maxScale (before ++ [d])
    FitsI128 (Scaled.unitsSum before s) ∧ FitsI128 (d.unitsAt s) ∧
      FitsI128 (Scaled.unitsSum (before ++ [d]) s)

theorem sumsFit_concat (ds : List Scaled) (d : Scaled) :
    SumsFit (ds ++ [d]) ↔ SumsFit ds ∧
      (FitsI128 (Scaled.unitsSum ds (Scaled.maxScale (ds ++ [d]))) ∧
        FitsI128 (d.unitsAt (Scaled.maxScale (ds ++ [d]))) ∧
        FitsI128 (Scaled.unitsSum (ds ++ [d]) (Scaled.maxScale (ds ++ [d])))) := by
  constructor
  · intro h
    refine ⟨fun before e after heq => ?_, h ds d [] rfl⟩
    exact h before e (after ++ [d]) (by simp [heq])
  · rintro ⟨h, hlast⟩ before e after heq
    rcases List.eq_nil_or_concat' after with rfl | ⟨after, f, rfl⟩
    · -- the decimal at the end
      rcases List.append_inj' heq rfl with ⟨rfl, hd⟩
      cases hd
      exact hlast
    · have hsplit : ds ++ [d] = (before ++ e :: after) ++ [f] := by simpa using heq
      exact h before e after (List.append_inj' hsplit rfl).1

theorem fits_of_decimalSum {values : List String} {acc : DecimalAccumulator}
    (h : decimalSum values = .ok acc) : FitsI128 acc.units :=
  foldlM_induction (P := fun _ acc => FitsI128 acc.units) h fitsI128_zero
    (fun _ _ _ _ _ hacc hadd => DecimalAccumulator.fits_of_add hacc hadd)

/-- The next decimal, behind a sum that was computed. -/
theorem add_decimalSum_ok_iff {values : List String} {acc : DecimalAccumulator}
    (h : decimalSum values = .ok acc) {value : String} {d : Scaled}
    (hvalue : parseDecimal value = some d) :
    (∃ sum, acc.add value = .ok sum) ↔
      FitsI128 (Scaled.unitsSum (decimals values) (Scaled.maxScale (decimals values ++ [d]))) ∧
      FitsI128 (d.unitsAt (Scaled.maxScale (decimals values ++ [d]))) ∧
      FitsI128 (Scaled.unitsSum (decimals values ++ [d])
        (Scaled.maxScale (decimals values ++ [d]))) := by
  -- a sum that was computed has the largest scale so far, and the units of all at any finer one
  have hscale : max acc.scale d.scale = Scaled.maxScale (decimals values ++ [d]) := by
    rw [decimalSum_eq_ok h, Scaled.scale_sum, Scaled.maxScale_concat]
  have hunits : acc.unitsAt (Scaled.maxScale (decimals values ++ [d])) =
      Scaled.unitsSum (decimals values) (Scaled.maxScale (decimals values ++ [d])) := by
    rw [decimalSum_eq_ok h]
    exact Scaled.unitsAt_sum (by simp)
  rw [DecimalAccumulator.add_ok_iff (fits_of_decimalSum h) hvalue, hscale, hunits,
    Scaled.unitsSum_concat]

/-- Adding texts succeeds exactly if, at every decimal, the three numbers that are computed at
the largest scale so far are in range. -/
theorem decimalSum_ok_iff (values : List String) :
    (∃ acc, decimalSum values = .ok acc) ↔ SumsFit (decimals values) := by
  induction values using List.reverseRecOn with
  | nil =>
    refine ⟨fun _ before d after h => ?_, fun _ => ⟨.zero, rfl⟩⟩
    simp [decimals] at h
  | append_singleton values value ih =>
    have hstep : decimalSum (values ++ [value]) =
        decimalSum values >>= fun acc => acc.add value := by
      simp [decimalSum]
    rw [hstep]
    cases hvalue : parseDecimal value with
    | none =>
      -- a text that is no decimal is skipped
      have hdecimals : decimals (values ++ [value]) = decimals values := by
        simp [decimals, hvalue]
      have hadd : ∀ acc : DecimalAccumulator, acc.add value = .ok acc := by
        intro acc
        unfold DecimalAccumulator.add
        rw [hvalue]
      rw [hdecimals, ← ih]
      cases hsum : decimalSum values with
      | error fault => exact ⟨nofun, nofun⟩
      | ok acc => exact iff_of_true ⟨acc, bind_eq_ok_iff.2 ⟨acc, rfl, hadd acc⟩⟩ ⟨acc, rfl⟩
    | some d =>
      have hdecimals : decimals (values ++ [value]) = decimals values ++ [d] := by
        simp [decimals, hvalue]
      rw [hdecimals, sumsFit_concat, ← ih]
      constructor
      · rintro ⟨sum, hsum⟩
        rcases bind_eq_ok_iff.1 hsum with ⟨acc, hacc, hadd⟩
        exact ⟨⟨acc, hacc⟩, (add_decimalSum_ok_iff hacc hvalue).1 ⟨sum, hadd⟩⟩
      · rintro ⟨⟨acc, hacc⟩, hfits⟩
        rcases (add_decimalSum_ok_iff hacc hvalue).2 hfits with ⟨sum, hadd⟩
        exact ⟨sum, bind_eq_ok_iff.2 ⟨acc, hacc, hadd⟩⟩

theorem failsByOverflow_decimalSum (values : List String) :
    FailsByOverflow (decimalSum values) := by
  unfold decimalSum
  generalize DecimalAccumulator.zero = acc
  induction values generalizing acc with
  | nil => exact .ok acc
  | cons value values ih =>
    rw [List.foldlM_cons]
    exact .bind (acc.failsByOverflow_add value) ih

/-- **Sums in range.** No step of the sum of some texts leaves the `i128` range if and only if,
at every decimal among them, the sum before it, the decimal and their sum are in range at the
largest scale so far. -/
theorem decimalSum_noOverflow_iff (values : List String) :
    NoOverflow (decimalSum values) ↔ SumsFit (decimals values) := by
  rw [← decimalSum_ok_iff]
  constructor
  · exact (failsByOverflow_decimalSum values).returns
  · rintro ⟨acc, hacc⟩ fault hfault
    rw [hacc] at hfault
    cases hfault

/-- One, and a zero with 39 places. -/
def scaledZero : List String := ["1", "0.000000000000000000000000000000000000000"]

/-- To add the zero, the one is multiplied by ten more often than it fits. -/
theorem decimalSum_overflows_scaledZero :
    decimals scaledZero = [{ units := 1, scale := 0 }, { units := 0, scale := 39 }] ∧
      decimalSum scaledZero = .error multiplyOverflow ∧
      ¬ NoOverflow (decimalSum scaledZero) := by
  have hsum : decimalSum scaledZero = .error multiplyOverflow := by decide +kernel
  exact ⟨by decide +kernel, hsum, fun h => h _ hsum (.inl rfl)⟩

end HotIndex
