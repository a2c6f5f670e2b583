import HotIndex.Lib.SortedMap

/-!
# Write Logs

A map that a sequence of writes is applied to. Every key ends up with its last write, or
with what it held before if the sequence does not write it. So writes that the sequence
repeats later leave no trace (`insertAll_absorb`): replaying a log that was
interrupted is the same as replaying it once.
-/

namespace HotIndex.Lib

namespace SortedMap

variable {κ ν : Type*} [LinearOrder κ]

/-- Apply a sequence of writes, oldest first. -/
def insertAll (m : SortedMap κ ν) (l : List (κ × ν)) : SortedMap κ ν :=
  l.foldl (fun m p => m.insert p.1 p.2) m

@[simp] theorem insertAll_nil (m : SortedMap κ ν) : m.insertAll [] = m := rfl

theorem insertAll_append (m : SortedMap κ ν) (l l' : List (κ × ν)) :
    m.insertAll (l ++ l') = (m.insertAll l).insertAll l' :=
  List.foldl_append

theorem insertAll_concat (m : SortedMap κ ν) (l : List (κ × ν)) (p : κ × ν) :
    m.insertAll (l ++ [p]) = (m.insertAll l).insert p.1 p.2 := by
  rw [insertAll_append]
  rfl

/-- Maps are determined by what their keys hold. -/
theorem ext_get? {m₁ m₂ : SortedMap κ ν} (h : ∀ k, m₁.get? k = m₂.get? k) : m₁ = m₂ := by
  apply ext_entries
  intro p
  rw [← get?_eq_some_iff_mem, ← get?_eq_some_iff_mem, h]

/-- A key holds its last write, or what it held before. -/
theorem get?_insertAll (m : SortedMap κ ν) (l : List (κ × ν)) (k : κ) :
    (m.insertAll l).get? k = (lastWrite k l).or (m.get? k) := by
  induction l using List.reverseRecOn with
  | nil => simp
  | append_singleton l p ih =>
    rw [insertAll_concat, lastWrite_concat]
    by_cases hp : p.1 = k
    · subst hp
      simp
    · rw [get?_insert_of_ne _ (Ne.symm hp), ih, if_neg hp]

/-- **Absorption.** Writes to keys that are all written again leave no trace. -/
theorem insertAll_absorb (m : SortedMap κ ν) {l l' : List (κ × ν)}
    (h : l.map Prod.fst ⊆ l'.map Prod.fst) :
    (m.insertAll l).insertAll l' = m.insertAll l' := by
  apply ext_get?
  intro k
  rw [get?_insertAll, get?_insertAll, get?_insertAll]
  cases hlast : lastWrite k l' with
  | some v => rfl
  | none =>
    -- a key that `l'` does not write is not written by `l` either
    have hfresh : lastWrite k l = none := by
      rw [← Option.not_isSome_iff_eq_none, lastWrite_isSome_iff]
      intro hmem
      have hwritten := (lastWrite_isSome_iff k l').2 (h hmem)
      simp [hlast] at hwritten
    rw [hfresh]
    rfl

theorem insertAll_absorb_of_isPrefix (m : SortedMap κ ν) {l l' : List (κ × ν)} (h : l <+: l') :
    (m.insertAll l).insertAll l' = m.insertAll l' :=
  m.insertAll_absorb (List.map_subset _ h.subset)

end SortedMap

end HotIndex.Lib
