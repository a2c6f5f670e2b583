import Mathlib.Algebra.Field.GeomSum
import Mathlib.Data.Nat.ModEq
import Mathlib.NumberTheory.Multiplicity
import Mathlib.Tactic

/-!
# Cycles of Affine Maps

An affine map `a * x + c` whose multiplier is one modulo four and whose increment is odd runs
through all residues modulo every power of two before it repeats one. The argument is that
`n` steps move `x` by a geometric sum of `n` powers of `a` times an odd number, and that such
a sum is divisible by a power of two exactly when `n` is.
-/

namespace HotIndex.Lib

open Finset

/-! ## Geometric sums -/

/-- A geometric sum has as many factors two as its number of terms. -/
theorem two_pow_dvd_geomSum_iff {a : ℤ} (ha : 4 ∣ a - 1) (k n : ℕ) :
    2 ^ k ∣ ∑ i ∈ range n, a ^ i ↔ (2 : ℤ) ^ k ∣ n := by
  rcases eq_or_ne a 1 with rfl | hne
  · simp
  have hodd : ¬ 2 ∣ a := by omega
  have hfinite : emultiplicity 2 (a - 1) ≠ ⊤ := by
    rw [← finiteMultiplicity_iff_emultiplicity_ne_top, Int.finiteMultiplicity_iff]
    exact ⟨by decide, sub_ne_zero.2 hne⟩
  have hsum : emultiplicity 2 (∑ i ∈ range n, a ^ i) = emultiplicity 2 (n : ℤ) := by
    -- the factors of `a ^ n - 1` are counted in two ways
    have hlift := @Int.two_pow_sub_pow' a 1 n ha hodd
    rw [one_pow, ← geom_sum_mul, emultiplicity_mul Int.prime_two, add_comm] at hlift
    exact ENat.add_right_injective_of_ne_top hfinite hlift
  rw [pow_dvd_iff_le_emultiplicity, pow_dvd_iff_le_emultiplicity, hsum]

/-! ## Steps of an affine map -/

/-- `a * x + c` -/
def affineStep (a c x : ℕ) : ℕ := a * x + c

variable {a c : ℕ}

/-- How far some steps move a number. -/
theorem iterate_affineStep_sub (n x : ℕ) :
    (((affineStep a c)^[n] x : ℕ) : ℤ) - x =
      (∑ i ∈ range n, (a : ℤ) ^ i) * ((a - 1) * x + c) := by
  induction n with
  | zero => simp
  | succ n ih =>
    have hlast : (((affineStep a c)^[n + 1] x : ℕ) : ℤ) - x =
        a * ((((affineStep a c)^[n] x : ℕ) : ℤ) - x) + ((a - 1) * x + c) := by
      rw [Function.iterate_succ_apply', affineStep]
      push_cast
      ring
    rw [hlast, ih, geom_sum_succ]
    ring

/-- Equal residues stay equal. -/
theorem affineStep_modEq {m x y : ℕ} (h : x ≡ y [MOD m]) :
    affineStep a c x ≡ affineStep a c y [MOD m] :=
  (h.mul_left a).add_right c

theorem iterate_affineStep_modEq {m x y : ℕ} (h : x ≡ y [MOD m]) (n : ℕ) :
    (affineStep a c)^[n] x ≡ (affineStep a c)^[n] y [MOD m] := by
  induction n with
  | zero => exact h
  | succ n ih =>
    rw [Function.iterate_succ_apply', Function.iterate_succ_apply']
    exact affineStep_modEq ih

section Cycle

variable (ha : a % 4 = 1) (hc : c % 2 = 1)
include ha hc

/-- Some steps lead back to where they began exactly if there are a multiple of `2 ^ k`. -/
theorem iterate_affineStep_modEq_self_iff (k n x : ℕ) :
    (affineStep a c)^[n] x ≡ x [MOD 2 ^ k] ↔ 2 ^ k ∣ n := by
  have hfour : (4 : ℤ) ∣ a - 1 := by omega
  have heven : (2 : ℤ) ∣ (a - 1) * x := (Int.dvd_trans (by decide) hfour).mul_right _
  have hcoprime : IsCoprime ((2 : ℤ) ^ k) ((a - 1) * x + c) := by
    apply IsCoprime.pow_left
    rw [Int.isCoprime_two_left, Int.odd_iff]
    omega
  rw [Nat.ModEq.comm, Nat.modEq_iff_dvd, iterate_affineStep_sub]
  push_cast
  have hfactor : (2 : ℤ) ^ k ∣ (∑ i ∈ range n, (a : ℤ) ^ i) * ((a - 1) * x + c) ↔
      2 ^ k ∣ ∑ i ∈ range n, (a : ℤ) ^ i :=
    ⟨hcoprime.dvd_of_dvd_mul_right, fun h => h.mul_right _⟩
  rw [hfactor, two_pow_dvd_geomSum_iff hfour]
  norm_cast

/-- Two numbers of steps lead to one residue exactly if they agree modulo `2 ^ k`. -/
theorem iterate_affineStep_modEq_iff (k n m x : ℕ) :
    (affineStep a c)^[n] x ≡ (affineStep a c)^[m] x [MOD 2 ^ k] ↔ n ≡ m [MOD 2 ^ k] := by
  wlog hle : m ≤ n generalizing n m
  · rw [Nat.ModEq.comm, this m n (by omega), Nat.ModEq.comm]
  obtain ⟨d, rfl⟩ := Nat.exists_eq_add_of_le' hle
  rw [Function.iterate_add_apply, iterate_affineStep_modEq_self_iff ha hc]
  rw [Nat.ModEq.comm, Nat.modEq_iff_dvd' hle, Nat.add_sub_cancel]

/-- **Full period.** As many steps as there are residues modulo a power of two lead to each
of them once. -/
theorem iterate_affineStep_perm_range (k x : ℕ) :
    ((List.range (2 ^ k)).map (fun n => (affineStep a c)^[n] x % 2 ^ k)).Perm
      (List.range (2 ^ k)) := by
  have hnodup : ((List.range (2 ^ k)).map (fun n => (affineStep a c)^[n] x % 2 ^ k)).Nodup := by
    refine List.Nodup.map_on (fun n hn m hm h => ?_) List.nodup_range
    exact ((iterate_affineStep_modEq_iff ha hc k n m x).1 h).eq_of_lt_of_lt
      (List.mem_range.1 hn) (List.mem_range.1 hm)
  have hsubset : (List.range (2 ^ k)).map (fun n => (affineStep a c)^[n] x % 2 ^ k) ⊆
      List.range (2 ^ k) := by
    intro i hi
    obtain ⟨n, -, rfl⟩ := List.mem_map.1 hi
    exact List.mem_range.2 (Nat.mod_lt _ (by positivity))
  exact (hnodup.subperm hsubset).perm_of_length_le (by simp)

end Cycle

end HotIndex.Lib
