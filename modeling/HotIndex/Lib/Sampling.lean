import Mathlib.Algebra.Order.Floor.Div
import Mathlib.Data.List.Basic
import Mathlib.Tactic

/-!
# Samples and Chunks of Lists

A sample of a list takes the elements at the multiples of a stride; it can be kept up while the
list grows at its end. Chunks cut a list into parts of one length, the last of which may be
shorter.
-/

namespace HotIndex.Lib

variable {α : Type}

/-! ## Samples -/

/-- The sample consists of the elements at the places `0`, `stride`, `2 * stride` and so on. -/
def IsSample (stride : Nat) (l sample : List α) : Prop :=
  ∀ j : Nat, sample[j]? = l[j * stride]?

namespace IsSample

variable {stride : Nat} {l sample : List α}

theorem nil (stride : Nat) : IsSample stride ([] : List α) [] := fun j => by simp

/-- A sample has an element for each multiple of the stride below the length. -/
theorem lt_length_iff (h : IsSample stride l sample) (j : Nat) :
    j < sample.length ↔ j * stride < l.length := by
  rw [← not_le, ← not_le, ← List.getElem?_eq_none_iff, ← List.getElem?_eq_none_iff, h j]

/-- That many elements are enough for a list that so many strides cover. -/
theorem length_le_iff (h : IsSample stride l sample) (bound : Nat) :
    sample.length ≤ bound ↔ l.length ≤ bound * stride := by
  rw [← not_lt, ← not_lt, h.lt_length_iff]

/-- At a multiple of the stride, the sample grows with the list. -/
theorem push (h : IsSample stride l sample) (hstride : 0 < stride) (hdvd : stride ∣ l.length)
    (a : α) : IsSample stride (l ++ [a]) (sample ++ [a]) := by
  obtain ⟨count, hcount⟩ := hdvd
  have hlength : sample.length = count := by
    have hle := (h.length_le_iff count).2 (by rw [hcount, Nat.mul_comm])
    have hge := (h.length_le_iff sample.length).1 le_rfl
    rw [hcount, Nat.mul_comm] at hge
    exact hle.antisymm (Nat.le_of_mul_le_mul_right hge hstride)
  intro j
  -- the samples from before, the new one and what lies behind it
  rcases lt_trichotomy j count with hlt | rfl | hgt
  · have hinside : j * stride < l.length := (h.lt_length_iff j).1 (by omega)
    rw [List.getElem?_append_left (by omega), List.getElem?_append_left hinside, h j]
  · rw [← hlength, Nat.mul_comm, hlength, ← hcount]
    simp [← hlength]
  · have hbehind : l.length < j * stride := by
      rw [hcount, Nat.mul_comm]
      exact Nat.mul_lt_mul_of_pos_right hgt hstride
    rw [List.getElem?_eq_none (by simp; omega), List.getElem?_eq_none (by simp; omega)]

/-- Between the multiples, the list grows alone. -/
theorem skip (h : IsSample stride l sample) (hdvd : ¬ stride ∣ l.length) (a : α) :
    IsSample stride (l ++ [a]) sample := by
  intro j
  have hne : j * stride ≠ l.length := fun heq => hdvd ⟨j, by rw [← heq, Nat.mul_comm]⟩
  rw [h j, List.getElem?_append]
  split_ifs with hlt
  · rfl
  · rw [List.getElem?_eq_none (by omega), List.getElem?_eq_none (by simp; omega)]

end IsSample

/-! ## Chunks -/

/-- `slice::chunks` -/
def chunks (size : Nat) (hsize : 0 < size) (l : List α) : List (List α) :=
  if l.isEmpty then []
  else l.take size :: chunks size hsize (l.drop size)
termination_by l.length
decreasing_by
  rename_i hne
  have hpos : 0 < l.length := by simpa [List.length_pos_iff] using hne
  rw [List.length_drop]
  omega

variable {size : Nat} {hsize : 0 < size}

theorem flatten_chunks (l : List α) : (chunks size hsize l).flatten = l := by
  fun_induction chunks size hsize l with
  | case1 l hempty => simpa using hempty.symm
  | case2 l _ ih => rw [List.flatten_cons, ih, List.take_append_drop]

theorem chunks_bounds (l : List α) :
    ∀ chunk ∈ chunks size hsize l, chunk ≠ [] ∧ chunk.length ≤ size := by
  fun_induction chunks size hsize l with
  | case1 => simp
  | case2 l hne ih =>
    have hpos : 0 < l.length := by simpa [List.length_pos_iff] using hne
    refine List.forall_mem_cons.2 ⟨⟨?_, List.length_take_le _ _⟩, ih⟩
    rw [← List.length_pos_iff, List.length_take]
    omega

end HotIndex.Lib
