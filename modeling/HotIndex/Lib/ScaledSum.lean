import Mathlib.Algebra.Order.Field.Rat
import Mathlib.Algebra.Ring.Int.Defs
import Mathlib.Data.List.Perm.Basic
import Mathlib.Tactic

/-!
# Sums of Scaled Integers

A decimal fraction kept as a number of units of `10 ^ (-scale)`. To add two of them, the
coarser one is first brought to the scale of the finer one, so a running sum remembers
the largest scale it has met besides its value.

Both parts of a sum are independent of the order of the summands
(`addOption_rightComm`), which is all that a permutation of the summands needs. The sum of a
list has its largest scale and the units of all summands at that scale (`unitsAt_sum`), so it
denotes the sum of what they denote (`value_sum`).
-/

namespace HotIndex.Lib

/-- `units` units of `10 ^ (-scale)`. -/
@[ext] structure Scaled where
  units : Int
  scale : Nat
  deriving DecidableEq, Repr

namespace Scaled

/-- The number of units at a finer scale. -/
def unitsAt (a : Scaled) (scale : Nat) : Int := a.units * 10 ^ (scale - a.scale)

@[simp] theorem unitsAt_scale (a : Scaled) : a.unitsAt a.scale = a.units := by
  simp [unitsAt]

/-- The sum, at the larger scale of the two. -/
def add (a b : Scaled) : Scaled where
  units := a.unitsAt (max a.scale b.scale) + b.unitsAt (max a.scale b.scale)
  scale := max a.scale b.scale

@[simp] theorem scale_add (a b : Scaled) : (a.add b).scale = max a.scale b.scale := rfl

/-- Going to a finer scale in two steps is going there at once. -/
theorem unitsAt_mul {a : Scaled} {s t : Nat} (hs : a.scale ≤ s) (ht : s ≤ t) :
    a.unitsAt s * 10 ^ (t - s) = a.unitsAt t := by
  have hsplit : t - a.scale = (s - a.scale) + (t - s) := by omega
  unfold unitsAt
  rw [hsplit, pow_add, mul_assoc]

/-- At a scale that fits both summands, a sum has the units of both. -/
theorem unitsAt_add {a b : Scaled} {s : Nat} (ha : a.scale ≤ s) (hb : b.scale ≤ s) :
    (a.add b).unitsAt s = a.unitsAt s + b.unitsAt s := by
  have hmax : max a.scale b.scale ≤ s := max_le ha hb
  show (a.unitsAt _ + b.unitsAt _) * 10 ^ (s - max a.scale b.scale) = _
  rw [add_mul, unitsAt_mul (le_max_left _ _) hmax, unitsAt_mul (le_max_right _ _) hmax]

/-- Two summands may be added in either order. -/
theorem add_rightComm (a b c : Scaled) : (a.add b).add c = (a.add c).add b := by
  have hscale : ((a.add b).add c).scale = ((a.add c).add b).scale := by
    simp only [scale_add]
    omega
  apply Scaled.ext _ hscale
  -- compare the units at the common scale of all three
  rw [← unitsAt_scale ((a.add b).add c), hscale, ← unitsAt_scale ((a.add c).add b)]
  set s := ((a.add c).add b).scale with hs
  have ha : a.scale ≤ s := by simp only [hs, scale_add]; omega
  have hb : b.scale ≤ s := by simp only [hs, scale_add]; omega
  have hc : c.scale ≤ s := by simp only [hs, scale_add]; omega
  have hab : (a.add b).scale ≤ s := by rw [scale_add]; exact max_le ha hb
  have hac : (a.add c).scale ≤ s := by rw [scale_add]; exact max_le ha hc
  rw [unitsAt_add hab hc, unitsAt_add hac hb, unitsAt_add ha hb, unitsAt_add ha hc]
  ring

/-- Add a summand if there is one. -/
def addOption (a : Scaled) : Option Scaled → Scaled
  | some b => a.add b
  | none => a

theorem addOption_rightComm (a : Scaled) (b c : Option Scaled) :
    (a.addOption b).addOption c = (a.addOption c).addOption b := by
  cases b with
  | none => rfl
  | some b =>
    cases c with
    | none => rfl
    | some c => exact add_rightComm a b c

/-! ## Sums of lists -/

/-- The sum of a list, from left to right. -/
def sum (l : List Scaled) : Scaled := l.foldl add ⟨0, 0⟩

/-- The largest scale of a list. -/
def maxScale (l : List Scaled) : Nat := l.foldl (fun s a => max s a.scale) 0

/-- The units of a list at one scale. -/
def unitsSum (l : List Scaled) (s : Nat) : Int := (l.map (fun a => a.unitsAt s)).sum

@[simp] theorem sum_concat (l : List Scaled) (a : Scaled) : sum (l ++ [a]) = (sum l).add a := by
  simp [sum]

@[simp] theorem maxScale_concat (l : List Scaled) (a : Scaled) :
    maxScale (l ++ [a]) = max (maxScale l) a.scale := by
  simp [maxScale]

@[simp] theorem unitsSum_concat (l : List Scaled) (a : Scaled) (s : Nat) :
    unitsSum (l ++ [a]) s = unitsSum l s + a.unitsAt s := by
  simp [unitsSum]

theorem scale_sum (l : List Scaled) : (sum l).scale = maxScale l := by
  induction l using List.reverseRecOn with
  | nil => rfl
  | append_singleton l a ih => rw [sum_concat, scale_add, ih, maxScale_concat]

theorem maxScale_lt {l : List Scaled} {n : Nat} (hn : 0 < n) (h : ∀ a ∈ l, a.scale < n) :
    maxScale l < n := by
  induction l using List.reverseRecOn with
  | nil => exact hn
  | append_singleton l b ih =>
    rw [maxScale_concat]
    exact max_lt (ih fun a ha => h a (List.mem_append_left _ ha)) (h b (by simp))

/-- At a scale that fits all summands, the sum has the units of all. -/
theorem unitsAt_sum {l : List Scaled} {s : Nat} (h : maxScale l ≤ s) :
    (sum l).unitsAt s = unitsSum l s := by
  induction l using List.reverseRecOn with
  | nil => simp [sum, unitsSum, unitsAt]
  | append_singleton l a ih =>
    -- the scale fits the sum of the others and the last summand
    rw [maxScale_concat, max_le_iff] at h
    rw [sum_concat, unitsAt_add (by rw [scale_sum]; exact h.1) h.2, ih h.1, unitsSum_concat]

theorem units_sum (l : List Scaled) : (sum l).units = unitsSum l (maxScale l) := by
  rw [← unitsAt_sum le_rfl, ← scale_sum, unitsAt_scale]

/-- The number that `units` units of `10 ^ (-scale)` are. -/
def value (a : Scaled) : ℚ := a.units / 10 ^ a.scale

theorem value_eq_unitsAt {a : Scaled} {s : Nat} (h : a.scale ≤ s) :
    a.value = a.unitsAt s / 10 ^ s := by
  unfold value unitsAt
  rw [div_eq_div_iff (by positivity) (by positivity)]
  push_cast
  rw [mul_assoc, ← pow_add, Nat.sub_add_cancel h]

theorem value_add (a b : Scaled) : (a.add b).value = a.value + b.value := by
  -- both summands at the scale of the sum
  rw [value_eq_unitsAt (le_max_left a.scale b.scale),
    value_eq_unitsAt (le_max_right a.scale b.scale), ← add_div]
  unfold value add
  push_cast
  rfl

/-- A sum denotes the sum of what its summands denote. -/
theorem value_sum (l : List Scaled) : (sum l).value = (l.map value).sum := by
  induction l using List.reverseRecOn with
  | nil => simp [sum, value]
  | append_singleton l a ih => simp [value_add, ih]

/-! ## Bounds -/

/-- At most `s` places, and at most `bound` units of the last of them. -/
def Within (a : Scaled) (s bound : Nat) : Prop := a.scale ≤ s ∧ |a.unitsAt s| ≤ bound

instance (a : Scaled) (s bound : Nat) : Decidable (a.Within s bound) :=
  inferInstanceAs (Decidable (_ ∧ _))

/-- At a coarser scale there are fewer units. -/
theorem Within.units_le {a : Scaled} {s t bound : Nat} (h : a.Within s bound)
    (hscale : a.scale ≤ t) (ht : t ≤ s) : |a.unitsAt t| ≤ bound := by
  have hpow : (1 : Int) ≤ 10 ^ (s - t) := one_le_pow₀ (by decide)
  calc |a.unitsAt t| ≤ |a.unitsAt t| * 10 ^ (s - t) := le_mul_of_one_le_right (abs_nonneg _) hpow
    _ = |a.unitsAt t * 10 ^ (s - t)| := by
      rw [abs_mul, abs_of_pos (a := (10 : Int) ^ _) (by positivity)]
    _ = |a.unitsAt s| := by rw [unitsAt_mul hscale ht]
    _ ≤ bound := h.2

theorem Within.add {a b : Scaled} {s m n : Nat} (ha : a.Within s m) (hb : b.Within s n) :
    (a.add b).Within s (m + n) := by
  refine ⟨max_le ha.1 hb.1, ?_⟩
  rw [unitsAt_add ha.1 hb.1, Nat.cast_add]
  exact (abs_add_le _ _).trans (add_le_add ha.2 hb.2)

theorem Within.mono {a : Scaled} {s m n : Nat} (h : a.Within s m) (hle : m ≤ n) :
    a.Within s n := ⟨h.1, h.2.trans (by exact_mod_cast hle)⟩

end Scaled

end HotIndex.Lib
