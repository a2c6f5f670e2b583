import Mathlib.Algebra.BigOperators.Group.List.Basic
import Mathlib.Tactic

/-!
# Budgets

Weighted elements that are taken as long as the weight taken so far is below a limit. Such a
list can exceed the limit only by its last element, and two of them follow on each other if
the second starts with the weight of the first.
-/

namespace HotIndex.Lib

variable {α : Type} {weight : α → Nat} {limit start : Nat} {l l' : List α}

/-- Before each element of `l`, the weight `start` and that of the elements before it are
below the limit. -/
def StaysBelow (weight : α → Nat) (limit start : Nat) (l : List α) : Prop :=
  ∀ before a after, l = before ++ a :: after → start + (before.map weight).sum < limit

namespace StaysBelow

theorem nil : StaysBelow weight limit start [] := by
  intro before a after h
  cases before <;> cases h

theorem cons {a : α} (hstart : start < limit) (h : StaysBelow weight limit (start + weight a) l) :
    StaysBelow weight limit start (a :: l) := by
  intro before b after hsplit
  cases before with
  | nil => simpa using hstart
  | cons c before =>
    obtain ⟨rfl, hrest⟩ := List.cons.inj hsplit
    have := h before b after hrest
    rw [List.map_cons, List.sum_cons]
    omega

theorem append (h : StaysBelow weight limit start l)
    (h' : StaysBelow weight limit (start + (l.map weight).sum) l') :
    StaysBelow weight limit start (l ++ l') := by
  induction l generalizing start with
  | nil => simpa using h'
  | cons a l ih =>
    refine cons ?_ (ih ?_ ?_)
    · simpa using h [] a l rfl
    · intro before b after hsplit
      have := h (a :: before) b after (by rw [hsplit, List.cons_append])
      rw [List.map_cons, List.sum_cons] at this
      omega
    · rw [List.map_cons, List.sum_cons, ← Nat.add_assoc] at h'
      exact h'

/-- The limit is exceeded by less than the last element. -/
theorem sum_lt (h : StaysBelow weight limit start l) {last : α} (hlast : last ∈ l.getLast?) :
    start + (l.map weight).sum < limit + weight last := by
  obtain ⟨init, rfl⟩ := List.getLast?_eq_some_iff.1 hlast
  have := h init last [] rfl
  rw [List.map_append, List.sum_append, List.map_singleton, List.sum_singleton]
  omega

end StaysBelow

end HotIndex.Lib
