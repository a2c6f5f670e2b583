import Mathlib.Data.List.Range
import Mathlib.Tactic

/-!
# Consecutive Numbers

Lists that count up by one from a given start, and ranges that tile such a list: they leave
no gap between them and do not overlap.
-/

namespace HotIndex.Lib

/-- `l` counts up by one from `start`. -/
def ConsecutiveFrom (start : Nat) (l : List Nat) : Prop := l = List.range' start l.length

namespace ConsecutiveFrom

variable {start : Nat} {l l' : List Nat}

@[simp] theorem nil (start : Nat) : ConsecutiveFrom start [] := rfl

@[simp] theorem cons_iff {a : Nat} :
    ConsecutiveFrom start (a :: l) ↔ a = start ∧ ConsecutiveFrom (start + 1) l := by
  unfold ConsecutiveFrom
  rw [List.length_cons, List.range'_succ, List.cons.injEq]

theorem append_iff :
    ConsecutiveFrom start (l ++ l') ↔
      ConsecutiveFrom start l ∧ ConsecutiveFrom (start + l.length) l' := by
  induction l generalizing start with
  | nil => simp
  | cons a l ih =>
    rw [List.cons_append, cons_iff, cons_iff, ih, List.length_cons, and_assoc,
      show start + 1 + l.length = start + (l.length + 1) by omega]

theorem mem_iff (h : ConsecutiveFrom start l) (n : Nat) :
    n ∈ l ↔ start ≤ n ∧ n < start + l.length := by
  constructor
  · intro hn
    rw [h, List.mem_range'_1] at hn
    exact hn
  · intro hn
    rw [h, List.mem_range'_1]
    exact hn

/-- The numbers stand in ascending order, each once. -/
theorem pairwise_lt (h : ConsecutiveFrom start l) : l.Pairwise (· < ·) := by
  rw [h]
  exact List.pairwise_lt_range'

theorem head?_eq (h : ConsecutiveFrom start l) (hne : l ≠ []) : l.head? = some start := by
  cases l with
  | nil => exact absurd rfl hne
  | cons a l => rw [(cons_iff.1 h).1, List.head?_cons]

theorem getLast?_eq (h : ConsecutiveFrom start l) (hne : l ≠ []) :
    l.getLast? = some (start + l.length - 1) := by
  obtain ⟨init, a, rfl⟩ := List.eq_nil_or_concat l |>.resolve_left hne
  rw [List.concat_eq_append] at h ⊢
  have ha : a = start + init.length := (cons_iff.1 (append_iff.1 h).2).1
  rw [List.getLast?_concat, ha, List.length_append, List.length_singleton]
  rfl

/-- The first number and the last determine the list. -/
theorem eq_range'_of_ends {first last : Nat} (h : ConsecutiveFrom start l)
    (hfirst : l.head? = some first) (hlast : l.getLast? = some last) :
    first ≤ last ∧ l = List.range' first (last + 1 - first) := by
  have hne : l ≠ [] := by
    rintro rfl
    cases hfirst
  have hpos : 0 < l.length := List.length_pos_iff.2 hne
  rw [h.head?_eq hne, Option.some.injEq] at hfirst
  rw [h.getLast?_eq hne, Option.some.injEq] at hlast
  have hlength : last + 1 - first = l.length := by omega
  rw [hlength, ← hfirst]
  exact ⟨by omega, h⟩

end ConsecutiveFrom

/-! ## Ranges -/

/-- The number is in the range, which includes both its ends. -/
def InRange (range : Nat × Nat) (n : Nat) : Prop := range.1 ≤ n ∧ n ≤ range.2

instance instDecidableInRange (range : Nat × Nat) (n : Nat) : Decidable (InRange range n) :=
  inferInstanceAs (Decidable (_ ∧ _))

/-- The ranges lead from `start` to the number before `stop`, each starting behind the last. -/
inductive Tiles : (start : Nat) → List (Nat × Nat) → (stop : Nat) → Prop
  | nil (start : Nat) : Tiles start [] start
  | cons {start last stop : Nat} {ranges : List (Nat × Nat)} (hle : start ≤ last)
      (hranges : Tiles (last + 1) ranges stop) : Tiles start ((start, last) :: ranges) stop

/-- A number between two ranges that is in none. -/
def LeavesGap (ranges : List (Nat × Nat)) : Prop :=
  ∃ n, (∀ range ∈ ranges, ¬ InRange range n) ∧ (∃ range ∈ ranges, range.2 < n) ∧
    ∃ range ∈ ranges, n < range.1

/-- A number that is in more than one range. -/
def Overlaps (ranges : List (Nat × Nat)) : Prop :=
  ∃ n, 1 < ranges.countP (fun range => InRange range n)

theorem LeavesGap.perm {ranges ranges' : List (Nat × Nat)} (hperm : ranges.Perm ranges')
    (h : LeavesGap ranges) : LeavesGap ranges' := by
  unfold LeavesGap at h ⊢
  simpa only [hperm.mem_iff] using h

theorem Overlaps.perm {ranges ranges' : List (Nat × Nat)} (hperm : ranges.Perm ranges')
    (h : Overlaps ranges) : Overlaps ranges' := by
  obtain ⟨n, hn⟩ := h
  rw [hperm.countP_eq] at hn
  exact ⟨n, hn⟩

namespace Tiles

variable {start stop : Nat} {ranges : List (Nat × Nat)}

theorem start_le_stop (h : Tiles start ranges stop) : start ≤ stop := by
  induction h with
  | nil start => exact le_rfl
  | cons hle _ ih => omega

/-- The ranges contain the numbers from `start` on, up to `stop`, once each. -/
theorem countP_inRange (h : Tiles start ranges stop) (n : Nat) :
    ranges.countP (fun range => InRange range n) = if start ≤ n ∧ n < stop then 1 else 0 := by
  induction h with
  | nil start =>
    -- no ranges: the half-open interval from `start` to `start` is empty
    rw [List.countP_nil, if_neg]
    omega
  | @cons start last stop ranges hle hranges ih =>
    -- `n` is in the first range or between its end and `stop`, never in both
    have hstop := hranges.start_le_stop
    have hhead : InRange (start, last) n ↔ start ≤ n ∧ n ≤ last := Iff.rfl
    rw [List.countP_cons, ih]
    simp only [decide_eq_true_eq, hhead]
    split_ifs <;> omega

/-- A range lies between the ends and is not empty. -/
theorem bounds_of_mem (h : Tiles start ranges stop) {range : Nat × Nat} (hmem : range ∈ ranges) :
    start ≤ range.1 ∧ range.1 ≤ range.2 ∧ range.2 < stop := by
  induction h with
  | nil start => cases hmem
  | cons hle hranges ih =>
    rcases List.mem_cons.1 hmem with rfl | hmem
    · exact ⟨le_rfl, hle, hranges.start_le_stop⟩
    · have := ih hmem
      omega

theorem not_overlaps (h : Tiles start ranges stop) : ¬ Overlaps ranges := by
  intro ⟨n, hn⟩
  rw [h.countP_inRange] at hn
  split_ifs at hn <;> omega

theorem not_leavesGap (h : Tiles start ranges stop) : ¬ LeavesGap ranges := by
  intro ⟨n, hnone, ⟨below, hbelow, hlt⟩, ⟨above, habove, hgt⟩⟩
  have hbelow' := h.bounds_of_mem hbelow
  have habove' := h.bounds_of_mem habove
  -- a number between two ranges is between the ends, so it is in one range
  have hcount := h.countP_inRange n
  rw [List.countP_eq_zero.2 (by simpa using hnone), if_pos (by omega)] at hcount
  omega

end Tiles

end HotIndex.Lib
