import HotIndex.Bench.MeasureQueries
import HotIndex.Lib.AffineCycle

/-!
# Uniform Access to a Power of Two

The generator behind the uniform access pattern steps its state by an affine map modulo `2 ^ 64`,
and an index is a remainder of the state. Where the length of the corpus is a power of two, the
remainders are stepped by the same map, which has full period: the indexes are a cycle through the
whole corpus, from whatever state they are drawn (`nextUsize_cycle`), and so are the records that
a worker executes (`uniformExecutions_cycle`).
-/

namespace HotIndex

open Lib

namespace DeterministicRng

/-! ## Consecutive draws -/

/-- That many consecutive calls of `next_usize`, and the generator behind them. -/
def nextUsizes (rng : DeterministicRng) (upper : Nat) : Nat → List Nat × DeterministicRng
  | 0 => ([], rng)
  | count + 1 =>
    let (index, rng) := rng.nextUsize upper
    let (indexes, rng) := rng.nextUsizes upper count
    (index :: indexes, rng)

theorem nextUsizes_succ_fst (rng : DeterministicRng) (upper count : Nat) :
    (rng.nextUsizes upper (count + 1)).1 =
      (rng.nextUsize upper).1 :: ((rng.nextUsize upper).2.nextUsizes upper count).1 := rfl

/-- The draws of a longer run are those of its two parts. -/
theorem nextUsizes_add (rng : DeterministicRng) (upper first second : Nat) :
    (rng.nextUsizes upper (first + second)).1 = (rng.nextUsizes upper first).1 ++
      ((rng.nextUsizes upper first).2.nextUsizes upper second).1 := by
  induction first generalizing rng with
  | zero => rw [Nat.zero_add]; rfl
  | succ first ih =>
    rw [Nat.succ_add_eq_add_succ, Nat.add_succ, nextUsizes_succ_fst, ih]
    rfl

theorem length_nextUsizes (rng : DeterministicRng) (upper count : Nat) :
    (rng.nextUsizes upper count).1.length = count := by
  induction count generalizing rng with
  | zero => rfl
  | succ count ih => rw [nextUsizes_succ_fst, List.length_cons, ih]

/-! ## Remainders of the state -/

/-- The multiplier of the generator. -/
def multiplier : Nat := 6364136223846793005

section Remainders

variable {k : Nat}

/-- The state is wrapped at `2 ^ 64`, which its remainders do not notice. -/
theorem nextU64_modEq (hk : k ≤ 64) (rng : DeterministicRng) :
    rng.nextU64.1.toNat ≡ affineStep multiplier 1 rng.state.toNat [MOD 2 ^ k] := by
  have hwrap : rng.nextU64.1.toNat = affineStep multiplier 1 rng.state.toNat % 2 ^ 64 := by
    unfold nextU64 affineStep
    simp only [UInt64.toNat_add, UInt64.toNat_mul]
    rw [Nat.mod_add_mod, Nat.mul_comm]
    rfl
  rw [hwrap]
  exact (Nat.mod_modEq _ _).of_dvd (Nat.pow_dvd_pow 2 hk)

/-- A power of two above one is drawn from. -/
theorem nextUsize_two_pow (hpos : 1 ≤ k) (rng : DeterministicRng) :
    rng.nextUsize (2 ^ k) = (rng.nextU64.1.toNat % 2 ^ k, rng.nextU64.2) := by
  have hlt : 1 < 2 ^ k := Nat.one_lt_two_pow (by omega)
  unfold nextUsize
  rw [if_neg (by omega)]

/-- The indexes that are drawn are the remainders of the iterates. -/
theorem nextUsizes_two_pow (hpos : 1 ≤ k) (hk : k ≤ 64) (rng : DeterministicRng) (count : Nat) :
    (rng.nextUsizes (2 ^ k) count).1 = (List.range count).map (fun n =>
      (affineStep multiplier 1)^[n] (affineStep multiplier 1 rng.state.toNat) % 2 ^ k) := by
  induction count generalizing rng with
  | zero => rfl
  | succ count ih =>
    rw [nextUsizes_succ_fst, nextUsize_two_pow hpos, ih, List.range_succ_eq_map, List.map_cons,
      List.map_map]
    congr 1
    · exact nextU64_modEq hk rng
    · refine List.map_congr_left fun n _ => ?_
      -- the state behind the first draw is congruent to its step
      exact iterate_affineStep_modEq (affineStep_modEq (nextU64_modEq hk rng)) n

/-- The state behind some draws is congruent to an iterate. -/
theorem nextUsizes_state_modEq (hpos : 1 ≤ k) (hk : k ≤ 64) (rng : DeterministicRng)
    (count : Nat) : (rng.nextUsizes (2 ^ k) count).2.state.toNat ≡
      (affineStep multiplier 1)^[count] rng.state.toNat [MOD 2 ^ k] := by
  induction count generalizing rng with
  | zero => rfl
  | succ count ih =>
    have hfirst : (rng.nextUsizes (2 ^ k) (count + 1)).2 =
        (rng.nextU64.2.nextUsizes (2 ^ k) count).2 := by
      rw [nextUsizes, nextUsize_two_pow hpos]
    rw [hfirst, Function.iterate_succ_apply]
    exact (ih rng.nextU64.2).trans (iterate_affineStep_modEq (nextU64_modEq hk rng) count)

/-- Generators with congruent states draw the same indexes. -/
theorem nextUsizes_congr (hpos : 1 ≤ k) (hk : k ≤ 64) {rng rng' : DeterministicRng}
    (h : rng.state.toNat ≡ rng'.state.toNat [MOD 2 ^ k]) (count : Nat) :
    (rng.nextUsizes (2 ^ k) count).1 = (rng'.nextUsizes (2 ^ k) count).1 := by
  rw [nextUsizes_two_pow hpos hk, nextUsizes_two_pow hpos hk]
  refine List.map_congr_left fun n _ => ?_
  exact iterate_affineStep_modEq (affineStep_modEq h) n

/-! ## The cycle -/

/-- As many draws as there are indexes draw each of them once. -/
theorem nextUsizes_perm_range (hpos : 1 ≤ k) (hk : k ≤ 64) (rng : DeterministicRng) :
    (rng.nextUsizes (2 ^ k) (2 ^ k)).1.Perm (List.range (2 ^ k)) := by
  rw [nextUsizes_two_pow hpos hk]
  exact iterate_affineStep_perm_range (by decide) (by decide) k _

/-- Behind the cycle, the draws start over. -/
theorem nextUsizes_repeats (hpos : 1 ≤ k) (hk : k ≤ 64) (rng : DeterministicRng)
    (count : Nat) : ((rng.nextUsizes (2 ^ k) (2 ^ k)).2.nextUsizes (2 ^ k) count).1 =
      (rng.nextUsizes (2 ^ k) count).1 := by
  refine nextUsizes_congr hpos hk ?_ count
  exact (nextUsizes_state_modEq hpos hk rng (2 ^ k)).trans
    ((iterate_affineStep_modEq_self_iff (by decide) (by decide) k _ _).2 dvd_rfl)

/-- A draw changes the state. -/
theorem nextU64_ne_self (rng : DeterministicRng) : rng.nextU64.2 ≠ rng := by
  intro hstuck
  have hparity := @nextU64_modEq 1 (by decide) rng
  have hstate : rng.nextU64.1 = rng.state := congrArg state hstuck
  rw [hstate] at hparity
  -- one step would lead back to the same parity
  have hone := (@iterate_affineStep_modEq_self_iff multiplier 1 (by decide) (by decide) 1 1
    rng.state.toNat).1 hparity.symm
  omega

end Remainders

end DeterministicRng

/-- **Uniform access is a cycle.** From any seed, and after any number of draws, as many draws
from a power of two as there are indexes draw each index once; no draw leaves the state as it
was; and behind these draws the indexes repeat. -/
theorem nextUsize_cycle (seed : UInt64) {k : Nat} (hpos : 1 ≤ k) (hk : k ≤ 63) (skip : Nat) :
    let rng := ((DeterministicRng.new seed).nextUsizes (2 ^ k) skip).2
    (rng.nextUsizes (2 ^ k) (2 ^ k)).1.Perm (List.range (2 ^ k)) ∧
      (rng.nextUsize (2 ^ k)).2 ≠ rng ∧
      ∀ count, ((rng.nextUsizes (2 ^ k) (2 ^ k)).2.nextUsizes (2 ^ k) count).1 =
        (rng.nextUsizes (2 ^ k) count).1 := by
  intro rng
  have hword : k ≤ 64 := hk.trans (by decide)
  refine ⟨rng.nextUsizes_perm_range hpos hword, ?_, rng.nextUsizes_repeats hpos hword⟩
  rw [DeterministicRng.nextUsize_two_pow hpos]
  exact rng.nextU64_ne_self

example : ((DeterministicRng.new 0).nextUsizes 8 9).1 = [6, 7, 4, 5, 2, 3, 0, 1, 6] := by decide

/-- The four indexes behind three draws from seed 7. -/
theorem nextUsize_cycle_four :
    let rng := ((DeterministicRng.new 7).nextUsizes (2 ^ 2) 3).2
    (rng.nextUsizes (2 ^ 2) (2 ^ 2)).1.Perm (List.range (2 ^ 2)) ∧
      (rng.nextUsize (2 ^ 2)).2 ≠ rng ∧
      ∀ count, ((rng.nextUsizes (2 ^ 2) (2 ^ 2)).2.nextUsizes (2 ^ 2) count).1 =
        (rng.nextUsizes (2 ^ 2) count).1 :=
  @nextUsize_cycle 7 2 (by decide) (by decide) 3

/-! ## Uniform workers -/

section Workers

variable {curve : UInt64 → Nat → Nat}

/-- A uniform worker draws its records one after the other. -/
theorem executionsFrom_uniform {input : QueryWorkerInput}
    (hpattern : input.accessPattern = "uniform") (idx : Nat) (rng : DeterministicRng) :
    (executionsFrom curve input idx rng).map Prod.snd =
      (rng.nextUsizes input.corpus.length (executionsFrom curve input idx rng).length).1 := by
  fun_induction executionsFrom curve input idx rng with
  | case1 idx rng _ fault hchoice =>
    rw [hpattern, queryIndex, if_pos rfl] at hchoice
    cases hchoice
  | case2 idx rng _ recordIdx rng' hchoice ih =>
    rw [hpattern, queryIndex, if_pos rfl, Except.ok.injEq] at hchoice
    rw [List.map_cons, ih, List.length_cons, DeterministicRng.nextUsizes_succ_fst, hchoice]
  | case3 => rfl

/-- **Uniform workers.** Over a corpus whose length is a power of two, a uniform worker executes
each record once in any run of as many executions as there are records. -/
theorem uniformExecutions_cycle {input : QueryWorkerInput} {k skip : Nat}
    (hpattern : input.accessPattern = "uniform") (hcorpus : input.corpus.length = 2 ^ k)
    (hpos : 1 ≤ k) (hk : k ≤ 63) (hend : skip + 2 ^ k ≤ (input.executions curve).length) :
    ((((input.executions curve).drop skip).take (2 ^ k)).map Prod.snd).Perm
      (List.range (2 ^ k)) := by
  obtain ⟨rest, hrest⟩ := Nat.exists_eq_add_of_le hend
  have hdrawn : (input.executions curve).map Prod.snd =
      (input.rng.nextUsizes (2 ^ k) (skip + (2 ^ k + rest))).1 := by
    unfold QueryWorkerInput.executions
    rw [executionsFrom_uniform hpattern, hcorpus, ← Nat.add_assoc, ← hrest]
    rfl
  -- the draws behind `skip` start from another state, and any state has a full cycle
  rw [List.map_take, List.map_drop, hdrawn, DeterministicRng.nextUsizes_add,
    List.drop_left' (DeterministicRng.length_nextUsizes _ _ _), DeterministicRng.nextUsizes_add,
    List.take_left' (DeterministicRng.length_nextUsizes _ _ _)]
  exact DeterministicRng.nextUsizes_perm_range hpos (hk.trans (by decide)) _

end Workers

end HotIndex
