import Mathlib.Data.List.Infix
import Mathlib.Tactic

/-!
# Searching in Lists

The first place at which a list stands in another, as `str::find` looks for it.
-/

namespace HotIndex.Lib

/-- A single letter is found where it stands. -/
theorem singleton_prefix_drop_iff {α : Type} {text : List α} {letter : α}
    {i : Nat} :
    [letter] <+: text.drop i ↔ text[i]? = some letter := by
  rw [← List.head?_drop]
  cases text.drop i with
  | nil => simp
  | cons first rest => simp [List.cons_prefix_cons, eq_comm]

variable {α : Type} [DecidableEq α] {needle text : List α}

/-- The first place of `text` from which `needle` can be read. -/
def find (needle text : List α) : Option Nat :=
  text.tails.findIdx? (fun rest => needle.isPrefixOf rest)

theorem find_eq_some_iff {i : Nat} :
    find needle text = some i ↔
      i ≤ text.length ∧ needle <+: text.drop i ∧ ∀ j < i, ¬ needle <+: text.drop j := by
  unfold find
  rw [List.findIdx?_eq_some_iff_getElem]
  simp only [List.getElem_tails, List.isPrefixOf_iff_prefix, List.length_tails, Nat.lt_succ_iff]
  constructor
  · rintro ⟨hle, hhere, hbefore⟩
    exact ⟨hle, hhere, fun j hj => by simpa using hbefore j hj⟩
  · rintro ⟨hle, hhere, hbefore⟩
    exact ⟨hle, hhere, fun j hj => by simpa using hbefore j hj⟩

theorem find_eq_none_iff : find needle text = none ↔ ∀ i, ¬ needle <+: text.drop i := by
  unfold find
  rw [List.findIdx?_eq_none_iff]
  simp only [List.mem_tails, Bool.eq_false_iff, ne_eq, List.isPrefixOf_iff_prefix]
  constructor
  · intro h i
    exact h _ (List.drop_suffix i text)
  · rintro h rest ⟨start, rfl⟩
    simpa using h start.length

end HotIndex.Lib
