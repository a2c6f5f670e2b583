import Mathlib.Data.List.Lex
import Mathlib.Order.Lex
import Mathlib.Data.Prod.Lex
import Mathlib.Tactic

/-!
# Byte Strings and Order-Preserving Segments

A sorted byte store compares keys as unsigned bytes, a proper prefix first. This
file collects what a composite key needs in that order:

- machine words as linear orders, and their fixed-width big-endian encoding;
- concatenation behind a segment of fixed length, and behind a segment that a
  separator smaller than each of its letters terminates.

Both kinds of concatenation compare like the pair of their parts, which is the
step from which the order of a whole key follows segment by segment.
-/

namespace HotIndex.Lib

/-! ## Machine words -/

instance uInt8LinearOrder : LinearOrder UInt8 where
  le_refl := UInt8.le_refl
  le_trans _ _ _ := UInt8.le_trans
  le_antisymm _ _ := UInt8.le_antisymm
  le_total := UInt8.le_total
  lt_iff_le_not_ge a b := by
    rw [UInt8.not_le]
    exact ⟨fun h => ⟨UInt8.le_of_lt h, h⟩, And.right⟩
  toDecidableLE := inferInstance
  toDecidableEq := inferInstance
  toDecidableLT := inferInstance

instance uInt32LinearOrder : LinearOrder UInt32 where
  le_refl := UInt32.le_refl
  le_trans _ _ _ := UInt32.le_trans
  le_antisymm _ _ := UInt32.le_antisymm
  le_total := UInt32.le_total
  lt_iff_le_not_ge a b := by
    rw [UInt32.not_le]
    exact ⟨fun h => ⟨UInt32.le_of_lt h, h⟩, And.right⟩
  toDecidableLE := inferInstance
  toDecidableEq := inferInstance
  toDecidableLT := inferInstance

instance uInt64LinearOrder : LinearOrder UInt64 where
  le_refl := UInt64.le_refl
  le_trans _ _ _ := UInt64.le_trans
  le_antisymm _ _ := UInt64.le_antisymm
  le_total := UInt64.le_total
  lt_iff_le_not_ge a b := by
    rw [UInt64.not_le]
    exact ⟨fun h => ⟨UInt64.le_of_lt h, h⟩, And.right⟩
  toDecidableLE := inferInstance
  toDecidableEq := inferInstance
  toDecidableLT := inferInstance

/-- A byte string; `<` is the unsigned lexicographic order, a proper prefix first. -/
abbrev Bytes := List UInt8

/-! ## Big-endian words -/

/-- The `width` low-order bytes of `n`, most significant first. -/
def beBytes : Nat → Nat → Bytes
  | 0, _ => []
  | width + 1, n => UInt8.ofNat (n / 256 ^ width) :: beBytes width (n % 256 ^ width)

@[simp] theorem length_beBytes (width n : Nat) : (beBytes width n).length = width := by
  induction width generalizing n with
  | zero => rfl
  | succ width ih => simp [beBytes, ih]

private theorem lt_iff_div_lt_or_mod_lt {b : Nat} (hb : 0 < b) (n m : Nat) :
    n < m ↔ n / b < m / b ∨ n / b = m / b ∧ n % b < m % b := by
  have hn := Nat.div_add_mod n b
  have hm := Nat.div_add_mod m b
  -- the quotients decide, unless they are equal
  rcases Nat.lt_trichotomy (n / b) (m / b) with h | h | h
  · have hlt : n < m := (Nat.div_lt_iff_lt_mul hb).1 h |>.trans_le (Nat.div_mul_le_self m b)
    simp [h, hlt]
  · rw [h] at hn
    have : n < m ↔ n % b < m % b := by omega
    simp [h, this]
  · have hlt : m < n := (Nat.div_lt_iff_lt_mul hb).1 h |>.trans_le (Nat.div_mul_le_self n b)
    simp only [h.not_gt, h.ne', false_and, or_false, iff_false, not_lt]
    exact hlt.le

/-- Big-endian bytes of equal width compare as the numbers they encode. -/
theorem beBytes_lt_iff {width n m : Nat} (hn : n < 256 ^ width) (hm : m < 256 ^ width) :
    beBytes width n < beBytes width m ↔ n < m := by
  induction width generalizing n m with
  | zero =>
    have hn0 : n = 0 := by simpa using hn
    have hm0 : m = 0 := by simpa using hm
    simp [beBytes, hn0, hm0]
  | succ width ih =>
    have hpos : 0 < 256 ^ width := Nat.pow_pos (by norm_num)
    -- the leading digits fit a byte, so they compare as bytes as they do as numbers
    have hdn : n / 256 ^ width < 256 :=
      (Nat.div_lt_iff_lt_mul hpos).2 (by rw [pow_succ'] at hn; exact hn)
    have hdm : m / 256 ^ width < 256 :=
      (Nat.div_lt_iff_lt_mul hpos).2 (by rw [pow_succ'] at hm; exact hm)
    rw [beBytes, beBytes, List.cons_lt_cons_iff, ih (Nat.mod_lt _ hpos) (Nat.mod_lt _ hpos),
      UInt8.lt_iff_toNat_lt, ← UInt8.toNat_inj, UInt8.toNat_ofNat_of_lt' hdn,
      UInt8.toNat_ofNat_of_lt' hdm]
    exact (lt_iff_div_lt_or_mod_lt hpos n m).symm

theorem beBytes_inj {width n m : Nat} (hn : n < 256 ^ width) (hm : m < 256 ^ width)
    (h : beBytes width n = beBytes width m) : n = m := by
  have h₁ := beBytes_lt_iff hn hm
  have h₂ := beBytes_lt_iff hm hn
  rw [h, lt_self_iff_false, false_iff] at h₁
  rw [h, lt_self_iff_false, false_iff] at h₂
  omega

/-! ## Segments -/

section Segments

variable {α : Type*} [LinearOrder α]

/-- Behind segments of equal length, concatenations compare as pairs. -/
theorem append_lt_append_iff_of_length_eq {a b x y : List α} (h : a.length = b.length) :
    a ++ x < b ++ y ↔ a < b ∨ a = b ∧ x < y := by
  induction a generalizing b with
  | nil =>
    have hb : b = [] := List.length_eq_zero_iff.1 h.symm
    simp [hb]
  | cons c a ih =>
    cases b with
    | nil => simp at h
    | cons d b =>
      have hlen : a.length = b.length := by simpa using h
      simp only [List.cons_append, List.cons_lt_cons_iff, ih hlen, List.cons.injEq]
      tauto

/-- Behind segments whose letters all exceed the separator that terminates them,
concatenations compare as pairs, also when one segment is a prefix of the other. -/
theorem append_sep_lt_append_sep_iff {sep : α} {a b x y : List α}
    (ha : ∀ c ∈ a, sep < c) (hb : ∀ c ∈ b, sep < c) :
    a ++ sep :: x < b ++ sep :: y ↔ a < b ∨ a = b ∧ x < y := by
  induction a generalizing b with
  | nil =>
    cases b with
    | nil => simp
    | cons d b =>
      -- the shorter segment ends first: its separator is below the next letter
      have hd : sep < d := hb d List.mem_cons_self
      simp [List.cons_lt_cons_iff, hd]
  | cons c a ih =>
    have hc : sep < c := ha c List.mem_cons_self
    cases b with
    | nil => simp [List.cons_lt_cons_iff, hc.not_gt, hc.ne']
    | cons d b =>
      have ih := ih (b := b) (fun e he => ha e (List.mem_cons_of_mem _ he))
        (fun e he => hb e (List.mem_cons_of_mem _ he))
      simp only [List.cons_append, List.cons_lt_cons_iff, ih, List.cons.injEq]
      tauto

end Segments

/-- A terminated segment is recovered from the concatenation behind it. -/
theorem append_sep_inj {α : Type*} {sep : α} {a b x y : List α}
    (ha : sep ∉ a) (hb : sep ∉ b) (h : a ++ sep :: x = b ++ sep :: y) : a = b ∧ x = y := by
  induction a generalizing b with
  | nil =>
    cases b with
    | nil => exact ⟨rfl, by simpa using h⟩
    | cons d b =>
      -- a separator cannot stand where the other segment has a letter
      obtain ⟨rfl, -⟩ : sep = d ∧ x = b ++ sep :: y := by simpa using h
      exact absurd List.mem_cons_self hb
  | cons c a ih =>
    cases b with
    | nil =>
      obtain ⟨rfl, -⟩ : c = sep ∧ a ++ sep :: x = y := by simpa using h
      exact absurd List.mem_cons_self ha
    | cons d b =>
      obtain ⟨rfl, htail⟩ : c = d ∧ a ++ sep :: x = b ++ sep :: y := by simpa using h
      obtain ⟨rfl, rfl⟩ := ih (fun hm => ha (List.mem_cons_of_mem _ hm))
        (fun hm => hb (List.mem_cons_of_mem _ hm)) htail
      exact ⟨rfl, rfl⟩

/-- A terminated segment is a prefix of exactly the concatenations behind it. -/
theorem append_sep_prefix_iff {α : Type*} {sep : α} {a b y : List α}
    (ha : sep ∉ a) (hb : sep ∉ b) :
    a ++ [sep] <+: b ++ sep :: y ↔ a = b := by
  constructor
  · rintro ⟨t, ht⟩
    exact (append_sep_inj (x := t) ha hb (by simpa using ht)).1
  · rintro rfl
    exact ⟨y, by simp⟩

end HotIndex.Lib
