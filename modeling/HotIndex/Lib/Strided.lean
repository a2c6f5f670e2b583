import Mathlib.Data.Int.CardIntervalMod
import Mathlib.Data.List.Nodup
import Mathlib.Tactic

/-!
# Strided Loops

A loop that advances by `step` visits the indexes of one residue. As many of these loops as the
step is long, each with a start of its own below it, visit every index below the end once
(`flatMap_strided_perm`).
-/

namespace HotIndex.Lib

/-- The indexes that a loop visits which starts at `idx`, ends at `n` and advances by `step`. -/
def strided (step : Nat) (hstep : 0 < step) (n idx : Nat) : List Nat :=
  if idx < n then idx :: strided step hstep n (idx + step) else []
termination_by n - idx

variable {step : Nat} {hstep : 0 < step} {n idx : Nat}

theorem mem_strided {i : Nat} :
    i ∈ strided step hstep n idx ↔ idx ≤ i ∧ i < n ∧ i % step = idx % step := by
  fun_induction strided step hstep n idx with
  | case1 idx hlt ih =>
    rw [List.mem_cons, ih, Nat.add_mod_right]
    constructor
    · rintro (rfl | ⟨hle, hend, hmod⟩)
      · exact ⟨le_rfl, hlt, rfl⟩
      · exact ⟨by omega, hend, hmod⟩
    · rintro ⟨hle, hend, hmod⟩
      -- an index of the residue is the first one, or a whole step behind it
      rcases hle.eq_or_lt with rfl | hbehind
      · exact .inl rfl
      · right
        have hdvd : step ∣ i - idx := (Nat.modEq_iff_dvd' hle).1 hmod.symm
        have hstride : step ≤ i - idx := Nat.le_of_dvd (by omega) hdvd
        exact ⟨by omega, hend, hmod⟩
  | case2 idx hend =>
    simp only [List.not_mem_nil, false_iff]
    omega

theorem strided_nodup : (strided step hstep n idx).Nodup := by
  fun_induction strided step hstep n idx with
  | case1 idx _ ih =>
    refine List.nodup_cons.2 ⟨fun hmem => ?_, ih⟩
    obtain ⟨hle, -⟩ := mem_strided.1 hmem
    omega
  | case2 => exact List.nodup_nil

/-- **Partition.** Loops that start at each index below the step visit every index below the end
once. -/
theorem flatMap_strided_perm (hstep : 0 < step) (n : Nat) :
    ((List.range step).flatMap (strided step hstep n)).Perm (List.range n) := by
  refine (List.perm_ext_iff_of_nodup ?_ List.nodup_range).2 fun i => ?_
  · refine List.nodup_flatMap.2 ⟨fun _ _ => strided_nodup, ?_⟩
    refine List.nodup_range.pairwise_of_forall_ne fun start hstart start' hstart' hne i hi hi' => ?_
    -- the residue of an index tells its loop
    obtain ⟨-, -, hmod⟩ := mem_strided.1 hi
    obtain ⟨-, -, hmod'⟩ := mem_strided.1 hi'
    rw [Nat.mod_eq_of_lt (List.mem_range.1 hstart)] at hmod
    rw [Nat.mod_eq_of_lt (List.mem_range.1 hstart')] at hmod'
    exact hne (hmod.symm.trans hmod')
  · rw [List.mem_flatMap, List.mem_range]
    constructor
    · rintro ⟨start, -, hi⟩
      exact (mem_strided.1 hi).2.1
    · intro hi
      have hlt := Nat.mod_lt i hstep
      refine ⟨i % step, List.mem_range.2 hlt, mem_strided.2 ⟨Nat.mod_le i step, hi, ?_⟩⟩
      rw [Nat.mod_mod]

/-- How many of the first `n` indexes have a residue. -/
theorem count_map_mod_range {m r : Nat} (n : Nat) (hr : r < m) :
    ((List.range n).map (· % m)).count r = n / m + if r < n % m then 1 else 0 := by
  have hcount := Nat.count_modEq_card n (Nat.zero_lt_of_lt hr) r
  rw [Nat.mod_eq_of_lt hr] at hcount
  rw [← hcount, List.count_eq_countP, List.countP_map]
  refine List.countP_congr fun i _ => ?_
  simp [Nat.ModEq, Nat.mod_eq_of_lt hr]

/-- With a remainder, the quotient is rounded up. -/
theorem ceil_div_of_mod_pos {n m : Nat} (hm : 0 < m) (hmod : 0 < n % m) :
    (n + m - 1) / m = n / m + 1 := by
  have hsplit := Nat.div_add_mod n m
  have hlt := Nat.mod_lt n hm
  have hsum : n + m - 1 = (n % m - 1) + m * (n / m + 1) := by
    rw [Nat.mul_add, Nat.mul_one]
    omega
  have hzero : (n % m - 1) / m = 0 := Nat.div_eq_of_lt (by omega)
  rw [hsum, Nat.add_mul_div_left _ _ hm, hzero, Nat.zero_add]

end HotIndex.Lib
