import Mathlib.Logic.Relation

/-!
# Runs, Invariants and Simulations

A run of a system is a sequence of its steps, of any length. What every step keeps, every run
keeps (`run_keeps`); and if every step is matched, under an invariant, by a run of a smaller
system, then so is every run (`run_simulates`).

The smallest system here is a register that is written once: it stays empty or takes one of
the allowed values, which it then keeps.
-/

namespace HotIndex.Lib

open Relation

section Runs

variable {σ τ : Type*} {step : σ → σ → Prop} {matched : τ → τ → Prop} {s s' : σ}

/-- An invariant of the steps is one of the runs. -/
theorem run_keeps {inv : σ → Prop} (hstep : ∀ s s', inv s → step s s' → inv s')
    (h : ReflTransGen step s s') (hs : inv s) : inv s' := by
  induction h with
  | refl => exact hs
  | tail _ hlast ih => exact hstep _ _ ih hlast

/-- A run of the larger system, seen through `view`, is one of the smaller system. -/
theorem run_simulates {inv : σ → Prop} (view : σ → τ)
    (hstep : ∀ s s', inv s → step s s' → inv s' ∧ ReflTransGen matched (view s) (view s'))
    (h : ReflTransGen step s s') (hs : inv s) :
    inv s' ∧ ReflTransGen matched (view s) (view s') := by
  induction h with
  | refl => exact ⟨hs, .refl⟩
  | tail _ hlast ih =>
    obtain ⟨hbefore, hrun⟩ := ih
    obtain ⟨hafter, hmatched⟩ := hstep _ _ hbefore hlast
    exact ⟨hafter, hrun.trans hmatched⟩

/-- **Progress.** If a state under the invariant that is not a goal has a step that keeps the
invariant and makes a measure smaller, then a goal can be reached. -/
theorem exists_run_of_progress {inv goal : σ → Prop} (measure : σ → Nat)
    (hprogress : ∀ s, inv s → ¬ goal s → ∃ s', step s s' ∧ inv s' ∧ measure s' < measure s)
    (hs : inv s) : ∃ s', ReflTransGen step s s' ∧ inv s' ∧ goal s' := by
  induction hmeasure : measure s using Nat.strongRecOn generalizing s with
  | ind n ih =>
    by_cases hgoal : goal s
    · exact ⟨s, .refl, hs, hgoal⟩
    · obtain ⟨next, hstep, hnext, hless⟩ := hprogress s hs hgoal
      obtain ⟨s', hrun, hs', hgoal'⟩ := ih (measure next) (hmeasure ▸ hless) hnext rfl
      exact ⟨s', hrun.head hstep, hs', hgoal'⟩

end Runs

/-! ## A register that is written once -/

section Register

variable {α : Type*} {allowed : α → Prop}

/-- The one step of the register. -/
inductive WriteOnce (allowed : α → Prop) : Option α → Option α → Prop
  | write {a : α} (h : allowed a) : WriteOnce allowed none (some a)

/-- What is written stays. -/
theorem WriteOnce.run_some {a : α} {register : Option α}
    (h : ReflTransGen (WriteOnce allowed) (some a) register) : register = some a := by
  induction h with
  | refl => rfl
  | tail _ hlast ih =>
    rw [ih] at hlast
    cases hlast

/-- What is there was there, or was written and is allowed. -/
theorem WriteOnce.eq_or_allowed {a : α} {register : Option α}
    (h : ReflTransGen (WriteOnce allowed) register (some a)) :
    register = some a ∨ register = none ∧ allowed a := by
  rcases h.cases_tail with h | ⟨before, hrun, hlast⟩
  · exact .inl h.symm
  · cases hlast with
    | write hallowed =>
      cases register with
      | none => exact .inr ⟨rfl, hallowed⟩
      | some b => cases WriteOnce.run_some hrun

end Register

end HotIndex.Lib
