import HotIndex.Lib.SortedMap

/-!
# Two Orders of the Same Rows

Rows sorted by a key, and how much of the sorted list two different keys have in common:

- sorting commutes with filtering, ignores the order of the input and keeps equal keys
  in the order of the input;
- the first `n` rows under two keys are the same list exactly when every pair of rows on
  which the keys disagree comes behind the first `n` (`take_sortOn_eq_iff`).
-/

namespace HotIndex.Lib

section Sorting

variable {α κ κ' : Type*} [LinearOrder κ] [LinearOrder κ'] {key : α → κ} {rows rows' : List α}

theorem mem_sortOn {a : α} : a ∈ sortOn key rows ↔ a ∈ rows := (sortOn_perm key rows).mem_iff

theorem length_sortOn : (sortOn key rows).length = rows.length := (sortOn_perm key rows).length_eq

/-- Rows with distinct keys ascend strictly once they are sorted. -/
theorem sortOn_pairwise_lt (h : (rows.map key).Nodup) :
    (sortOn key rows).Pairwise (fun a b => key a < key b) := by
  have hne : (sortOn key rows).Pairwise (fun a b => key a ≠ key b) :=
    List.pairwise_map.1 (((sortOn_perm key rows).map key).nodup_iff.2 h)
  exact (sortOn_pairwise key rows).imp₂ (fun _ _ hle hne => lt_of_le_of_ne hle hne) hne

theorem sortOn_congr_perm (hperm : rows.Perm rows') (h : (rows.map key).Nodup) :
    sortOn key rows = sortOn key rows' := by
  apply sortOn_eq_of_perm (hperm.trans (sortOn_perm key rows').symm)
  exact sortOn_pairwise_lt ((hperm.map key).nodup_iff.1 h)

/-- Keys that order the rows alike sort them alike. -/
theorem sortOn_congr_key {key' : α → κ'} (h : (rows.map key').Nodup)
    (hlt : ∀ a ∈ rows, ∀ b ∈ rows, key' a < key' b → key a < key b) :
    sortOn key rows = sortOn key' rows := by
  apply sortOn_eq_of_perm (sortOn_perm key' rows).symm
  exact (sortOn_pairwise_lt h).imp_of_mem
    (fun ha hb hab => hlt _ (mem_sortOn.1 ha) _ (mem_sortOn.1 hb) hab)

theorem filter_sortOn (h : (rows.map key).Nodup) (p : α → Bool) :
    (sortOn key rows).filter p = sortOn key (rows.filter p) := by
  symm
  apply sortOn_eq_of_perm ((sortOn_perm key rows).filter p).symm
  exact (sortOn_pairwise_lt h).filter p

/-! ## Stability -/

private theorem orderedInsert_pairwise {π : Type*} [LinearOrder π] {place : α → π} {a : α}
    {l : List α} (hl : l.Pairwise (fun a b => toLex (key a, place a) < toLex (key b, place b)))
    (ha : ∀ b ∈ l, place a < place b) :
    (l.orderedInsert (fun a b => key a ≤ key b) a).Pairwise
      (fun a b => toLex (key a, place a) < toLex (key b, place b)) := by
  induction l with
  | nil => simp
  | cons b l ih =>
    obtain ⟨hb, hl⟩ := List.pairwise_cons.1 hl
    have hal : ∀ c ∈ l, place a < place c := fun c hc => ha c (List.mem_cons_of_mem _ hc)
    by_cases hab : key a ≤ key b
    · -- `a` goes in front of `b`: by its key, or by its place if the keys are equal
      have hlt : toLex (key a, place a) < toLex (key b, place b) :=
        Prod.Lex.toLex_lt_toLex.2 ((lt_or_eq_of_le hab).imp id
          (fun he => ⟨he, ha b List.mem_cons_self⟩))
      rw [List.orderedInsert_cons, if_pos hab]
      apply List.Pairwise.cons _ (List.Pairwise.cons hb hl)
      intro c hc
      rcases List.mem_cons.1 hc with rfl | hc
      · exact hlt
      · exact hlt.trans (hb c hc)
    · rw [List.orderedInsert_cons, if_neg hab]
      apply List.Pairwise.cons _ (ih hl hal)
      intro c hc
      rcases List.mem_cons.1 ((List.perm_orderedInsert _ a l).mem_iff.1 hc) with rfl | hc
      · exact Prod.Lex.toLex_lt_toLex.2 (.inl (not_le.1 hab))
      · exact hb c hc

/-- **Stability.** Sorting by a key orders equal keys by their place in the input. -/
theorem sortOn_eq_sortOn_place {π : Type*} [LinearOrder π] {place : α → π}
    (h : rows.Pairwise (fun a b => place a < place b)) :
    sortOn key rows = sortOn (fun a => toLex (key a, place a)) rows := by
  symm
  apply sortOn_eq_of_perm (sortOn_perm key rows).symm
  induction rows with
  | nil => exact List.Pairwise.nil
  | cons a rows ih =>
    obtain ⟨ha, h⟩ := List.pairwise_cons.1 h
    exact orderedInsert_pairwise (ih h) (fun b hb => ha b (mem_sortOn.1 hb))

/-- Distinct rows stand in the order of their positions. -/
theorem pairwise_idxOf_lt [DecidableEq α] (h : rows.Nodup) :
    rows.Pairwise (fun a b => rows.idxOf a < rows.idxOf b) := by
  rw [List.pairwise_iff_getElem]
  intro i j hi hj hij
  rw [h.idxOf_getElem i hi, h.idxOf_getElem j hj]
  exact hij

/-! ## Ranks -/

/-- How many of the rows come before a row. -/
def rank (key : α → κ) (rows : List α) (a : α) : Nat :=
  (rows.filter (fun b => decide (key b < key a))).length

theorem rank_congr_perm (hperm : rows.Perm rows') (a : α) : rank key rows a = rank key rows' a :=
  (hperm.filter _).length_eq

theorem rank_cons (b a : α) (l : List α) :
    rank key (b :: l) a = (if key b < key a then 1 else 0) + rank key l a := by
  unfold rank
  by_cases h : key b < key a
  · simp [h, Nat.add_comm]
  · simp [h]

/-- A row stands in the sorted list where its rank says. -/
theorem getElem?_eq_some_iff_rank {l : List α} (hl : l.Pairwise (fun a b => key a < key b))
    (i : Nat) (a : α) : l[i]? = some a ↔ a ∈ l ∧ rank key l a = i := by
  induction l generalizing i with
  | nil => simp
  | cons b l ih =>
    obtain ⟨hb, hl⟩ := List.pairwise_cons.1 hl
    -- no row comes before the first
    have hfirst : rank key l b = 0 := by
      unfold rank
      rw [List.length_eq_zero_iff, List.filter_eq_nil_iff]
      intro c hc
      simpa using (hb c hc).le
    cases i with
    | zero =>
      rw [List.getElem?_cons_zero, Option.some.injEq, rank_cons]
      constructor
      · rintro rfl
        simp [hfirst]
      · rintro ⟨hmem, hrank⟩
        rcases List.mem_cons.1 hmem with rfl | hmem
        · rfl
        · simp [hb a hmem] at hrank
    | succ i =>
      rw [List.getElem?_cons_succ, ih hl, rank_cons]
      constructor
      · rintro ⟨hmem, hrank⟩
        exact ⟨List.mem_cons_of_mem _ hmem, by rw [if_pos (hb a hmem), hrank, Nat.add_comm]⟩
      · rintro ⟨hmem, hrank⟩
        rcases List.mem_cons.1 hmem with rfl | hmem
        · simp [hfirst] at hrank
        · rw [if_pos (hb a hmem)] at hrank
          exact ⟨hmem, by omega⟩

theorem getElem?_sortOn (h : (rows.map key).Nodup) (i : Nat) (a : α) :
    (sortOn key rows)[i]? = some a ↔ a ∈ rows ∧ rank key rows a = i := by
  rw [getElem?_eq_some_iff_rank (sortOn_pairwise_lt h), mem_sortOn,
    rank_congr_perm (sortOn_perm key rows)]

theorem rank_lt_rank {a b : α} (ha : a ∈ rows) (h : key a < key b) :
    rank key rows a < rank key rows b := by
  unfold rank
  -- what comes before `a` comes before `b`, and so does `a` itself
  have hsub : rows.filter (fun c => decide (key c < key a)) =
      (rows.filter (fun c => decide (key c < key b))).filter (fun c => decide (key c < key a)) := by
    rw [List.filter_filter]
    apply List.filter_congr
    intro c _
    have htrans : key c < key a → key c < key b := fun hc => hc.trans h
    grind
  rw [hsub]
  apply List.length_filter_lt_length_iff_exists.2
  exact ⟨a, List.mem_filter.2 ⟨ha, by simpa using h⟩, by simp⟩

theorem rank_lt_length {a : α} (ha : a ∈ rows) : rank key rows a < rows.length :=
  List.length_filter_lt_length_iff_exists.2 ⟨a, ha, by simp⟩

/-- Of rows that ascend by key, the first `n` are those with fewer than `n` rows before them. -/
theorem mem_take_iff_rank {l : List α} (hl : l.Pairwise (fun a b => key a < key b)) {n : Nat}
    {a : α} (ha : a ∈ l) : a ∈ l.take n ↔ rank key l a < n := by
  rw [List.mem_take_iff_getElem]
  constructor
  · rintro ⟨i, hi, hget⟩
    have hrank := ((getElem?_eq_some_iff_rank hl i a).1 (by
      rw [List.getElem?_eq_getElem (by omega), hget])).2
    omega
  · intro hrank
    have hget := (getElem?_eq_some_iff_rank hl (rank key l a) a).2 ⟨ha, rfl⟩
    rcases List.getElem?_eq_some_iff.1 hget with ⟨hi, hget⟩
    exact ⟨rank key l a, by omega, hget⟩

/-- **One prefix under two keys.** The first `n` rows are the same list under both keys exactly
when, of any two rows that the keys order differently, the one that comes first under
`key` has at least `n` rows before it. -/
theorem take_sortOn_eq_iff {key' : α → κ'} (h : (rows.map key).Nodup)
    (h' : (rows.map key').Nodup) (n : Nat) :
    (sortOn key rows).take n = (sortOn key' rows).take n ↔
      ∀ a ∈ rows, ∀ b ∈ rows, key a < key b → key' b < key' a → n ≤ rank key rows a := by
  have hinj : ∀ a ∈ rows, ∀ b ∈ rows, key a = key b → a = b := List.inj_on_of_nodup_map h
  have hinj' : ∀ a ∈ rows, ∀ b ∈ rows, key' a = key' b → a = b := List.inj_on_of_nodup_map h'
  constructor
  · intro htake a ha b hb hab hba
    by_contra hn
    -- within the first `n`, a row has one rank under both keys
    have hsame : ∀ i < n, (sortOn key rows)[i]? = (sortOn key' rows)[i]? := by
      intro i hi
      rw [← List.getElem?_take_of_lt hi, htake, List.getElem?_take_of_lt hi]
    have hrank : rank key' rows a = rank key rows a := by
      have hget := (getElem?_sortOn h (rank key rows a) a).2 ⟨ha, rfl⟩
      rw [hsame _ (by omega)] at hget
      exact ((getElem?_sortOn h' _ _).1 hget).2
    have hlt' := rank_lt_rank hb hba
    have hrank' : rank key rows b = rank key' rows b := by
      have hget := (getElem?_sortOn h' (rank key' rows b) b).2 ⟨hb, rfl⟩
      rw [← hsame _ (by omega)] at hget
      exact ((getElem?_sortOn h _ _).1 hget).2
    have hlt := rank_lt_rank ha hab
    omega
  · intro hbehind
    -- a row with fewer than `n` before it under `key` has the same rows before it under `key'`
    have hrank : ∀ a ∈ rows, rank key rows a < n → rank key' rows a = rank key rows a := by
      intro a ha hlt
      apply congrArg List.length
      apply List.filter_congr
      intro c hc
      apply decide_eq_decide.2
      constructor
      · intro hca
        by_contra hno
        have hne : key a ≠ key c := fun he => hca.ne (by rw [hinj a ha c hc he])
        have hfar := hbehind a ha c hc (lt_of_le_of_ne (not_lt.1 hno) hne) hca
        omega
      · intro hca
        by_contra hno
        have hne : key' a ≠ key' c := fun he => hca.ne (by rw [hinj' a ha c hc he])
        have hfar := hbehind c hc a ha hca (lt_of_le_of_ne (not_lt.1 hno) hne)
        have hcloser := rank_lt_rank hc hca
        omega
    apply List.ext_getElem?
    intro i
    by_cases hi : i < n
    · rw [List.getElem?_take_of_lt hi, List.getElem?_take_of_lt hi]
      -- the row at place `i` under `key` has rank `i`, and so the same rank under `key'`
      by_cases hlen : i < (sortOn key rows).length
      · have hget := List.getElem?_eq_getElem hlen
        obtain ⟨hmem, hplace⟩ := (getElem?_sortOn h i _).1 hget
        rw [hget, eq_comm, getElem?_sortOn h', hrank _ hmem (by omega)]
        exact ⟨hmem, hplace⟩
      · have hlen' : ¬ i < (sortOn key' rows).length := by
          rwa [length_sortOn, ← @length_sortOn _ _ _ key]
        rw [List.getElem?_eq_none (not_lt.1 hlen), List.getElem?_eq_none (not_lt.1 hlen')]
    · rw [List.getElem?_eq_none (by simp; omega), List.getElem?_eq_none (by simp; omega)]

end Sorting

/-- A map whose keys are written once holds the rows that were written. -/
theorem SortedMap.values_ofList_perm {κ ν : Type*} [LinearOrder κ] {l : List (κ × ν)}
    (h : (l.map Prod.fst).Nodup) : (ofList l).values.Perm (l.map Prod.snd) := by
  have hnodup : l.Nodup := List.Nodup.of_map _ h
  have hentries : (ofList l).entries.Nodup :=
    (ofList l).sorted.imp (fun hlt he => hlt.ne (congrArg Prod.fst he))
  have hperm : (ofList l).entries.Perm l :=
    (List.perm_ext_iff_of_nodup hentries hnodup).2 (mem_ofList_of_nodup h)
  exact hperm.map Prod.snd

end HotIndex.Lib
