import Mathlib.Data.List.Sort
import Mathlib.Data.List.TakeWhile
import Mathlib.Data.List.Lex
import Mathlib.Data.List.Nodup
import Mathlib.Order.Basic
import Mathlib.Tactic

/-!
# Sorted Maps

Finite maps kept as association lists that are strictly sorted by key: the common
model of an in-memory ordered map and of a sorted on-disk store.

The centre of the file is `SortedMap.ofList`, the map that a sequence of writes
leaves behind. Its entries are the *last writes* of the sequence, so two stores
that identify the same writes with each other hold the same rows, whatever keys
they file them under (`mem_ofList_map`), and enumerate them in the order of their
own keys (`sortOn_map_entries_ofList`, `entries_ofList_map_of_strictMono`).
-/

namespace HotIndex.Lib

/-- Stable sort of rows by a key. -/
def sortOn {α κ : Type*} [LinearOrder κ] (key : α → κ) (rows : List α) : List α :=
  rows.insertionSort (fun a b => key a ≤ key b)

theorem sortOn_perm {α κ : Type*} [LinearOrder κ] (key : α → κ) (rows : List α) :
    (sortOn key rows).Perm rows :=
  List.perm_insertionSort _ rows

/-- Rows that already ascend by key stay as they are. -/
theorem sortOn_eq_self {α κ : Type*} [LinearOrder κ] {key : α → κ} {rows : List α}
    (h : rows.Pairwise (fun a b => key a ≤ key b)) : sortOn key rows = rows :=
  h.insertionSort_eq

theorem sortOn_pairwise {α κ : Type*} [LinearOrder κ] (key : α → κ) (rows : List α) :
    (sortOn key rows).Pairwise (fun a b => key a ≤ key b) := by
  have : Std.Total (fun a b : α => key a ≤ key b) := ⟨fun a b => le_total (key a) (key b)⟩
  have : IsTrans α (fun a b => key a ≤ key b) := ⟨fun _ _ _ => le_trans⟩
  exact List.pairwise_insertionSort _ rows

/-- Sorting finds the arrangement of the rows with ascending keys. -/
theorem sortOn_eq_of_perm {α κ : Type*} [LinearOrder κ] {key : α → κ} {rows sorted : List α}
    (hperm : rows.Perm sorted) (h : sorted.Pairwise (fun a b => key a < key b)) :
    sortOn key rows = sorted := by
  have hinj : ∀ a ∈ sorted, ∀ b ∈ sorted, key a = key b → a = b :=
    List.inj_on_of_nodup_map (List.pairwise_map.2 (h.imp LT.lt.ne))
  have hperm' := (sortOn_perm key rows).trans hperm
  refine hperm'.eq_of_pairwise ?_ (sortOn_pairwise key rows) (h.imp LT.lt.le)
  intro a b ha hb hab hba
  exact hinj a (hperm'.mem_iff.1 ha) b hb (le_antisymm hab hba)

/-- A finite map: entries strictly ascending by key. -/
structure SortedMap (κ ν : Type*) [LinearOrder κ] where
  /-- The entries in key order -/
  entries : List (κ × ν)
  /-- Keys ascend strictly, hence are distinct -/
  sorted : entries.Pairwise (fun p q => p.1 < q.1)

namespace SortedMap

variable {κ κ' ν ν' : Type*} [LinearOrder κ] [LinearOrder κ']

/-! ## Insertion -/

/-- Insert into a sorted entry list, replacing the entry of an equal key. -/
def insertEntry (k : κ) (v : ν) : List (κ × ν) → List (κ × ν)
  | [] => [(k, v)]
  | (k', v') :: rest =>
    if k < k' then (k, v) :: (k', v') :: rest
    else if k = k' then (k, v) :: rest
    else (k', v') :: insertEntry k v rest

theorem mem_insertEntry {k : κ} {v : ν} {l : List (κ × ν)}
    (hl : l.Pairwise (fun p q => p.1 < q.1)) (p : κ × ν) :
    p ∈ insertEntry k v l ↔ p = (k, v) ∨ p ∈ l ∧ p.1 ≠ k := by
  induction l with
  | nil => simp [insertEntry]
  | cons hd rest ih =>
    obtain ⟨k', v'⟩ := hd
    obtain ⟨hhd, hrest⟩ := List.pairwise_cons.1 hl
    have hne : ∀ q ∈ rest, q.1 ≠ k' := fun q hq => (hhd q hq).ne'
    rw [insertEntry]
    split_ifs with h₁ h₂
    · -- `k` goes in front; no entry behind it can hold `k`
      have hgt : ∀ q ∈ rest, q.1 ≠ k := fun q hq => (h₁.trans (hhd q hq)).ne'
      grind
    · subst h₂
      grind
    · have := ih hrest
      grind

theorem insertEntry_sorted (k : κ) (v : ν) {l : List (κ × ν)}
    (hl : l.Pairwise (fun p q => p.1 < q.1)) :
    (insertEntry k v l).Pairwise (fun p q => p.1 < q.1) := by
  induction l with
  | nil => simp [insertEntry]
  | cons hd rest ih =>
    obtain ⟨k', v'⟩ := hd
    obtain ⟨hhd, hrest⟩ := List.pairwise_cons.1 hl
    rw [insertEntry]
    split_ifs with h₁ h₂
    · -- `k` is below the first key, hence below all
      exact List.pairwise_cons.2 ⟨fun q hq => (List.mem_cons.1 hq).elim
        (fun he => he ▸ h₁) (fun hm => h₁.trans (hhd q hm)), hl⟩
    · subst h₂
      exact List.pairwise_cons.2 ⟨hhd, hrest⟩
    · -- the first entry stays in front of the inserted one and of the others
      refine List.pairwise_cons.2 ⟨fun q hq => ?_, ih hrest⟩
      rcases (mem_insertEntry hrest q).1 hq with rfl | ⟨hm, -⟩
      · exact lt_of_le_of_ne (not_lt.1 h₁) (Ne.symm h₂)
      · exact hhd q hm

/-- The map without entries. -/
def empty : SortedMap κ ν := ⟨[], List.Pairwise.nil⟩

/-- Put `v` under `k`, replacing what `k` held. -/
def insert (m : SortedMap κ ν) (k : κ) (v : ν) : SortedMap κ ν :=
  ⟨insertEntry k v m.entries, insertEntry_sorted k v m.sorted⟩

/-- The value under a key. -/
def get? (m : SortedMap κ ν) (k : κ) : Option ν :=
  (m.entries.find? (fun p => p.1 = k)).map Prod.snd

/-- The values in key order. -/
def values (m : SortedMap κ ν) : List ν := m.entries.map Prod.snd

/-- The number of entries. -/
def size (m : SortedMap κ ν) : Nat := m.entries.length

@[simp] theorem entries_empty : (empty : SortedMap κ ν).entries = [] := rfl

theorem mem_entries_insert (m : SortedMap κ ν) (k : κ) (v : ν) (p : κ × ν) :
    p ∈ (m.insert k v).entries ↔ p = (k, v) ∨ p ∈ m.entries ∧ p.1 ≠ k :=
  mem_insertEntry m.sorted p

/-! ## Extensionality -/

/-- Lists that ascend strictly by key are determined by their members. -/
theorem eq_of_mem_iff {l₁ l₂ : List (κ × ν)}
    (h₁ : l₁.Pairwise (fun p q => p.1 < q.1)) (h₂ : l₂.Pairwise (fun p q => p.1 < q.1))
    (h : ∀ p, p ∈ l₁ ↔ p ∈ l₂) : l₁ = l₂ := by
  -- without repetitions, equal members make a permutation, and only one is sorted
  have hd₁ : l₁.Nodup := h₁.imp (fun hlt he => hlt.ne (congrArg Prod.fst he))
  have hd₂ : l₂.Nodup := h₂.imp (fun hlt he => hlt.ne (congrArg Prod.fst he))
  exact ((List.perm_ext_iff_of_nodup hd₁ hd₂).2 h).eq_of_pairwise
    (fun p q _ _ hpq hqp => absurd hpq hqp.not_gt) h₁ h₂

@[ext] theorem ext_entries {m₁ m₂ : SortedMap κ ν}
    (h : ∀ p, p ∈ m₁.entries ↔ p ∈ m₂.entries) : m₁ = m₂ := by
  cases m₁; cases m₂
  simp only [mk.injEq]
  exact eq_of_mem_iff (by assumption) (by assumption) h

/-! ## Lookup -/

private theorem find?_eq_some_iff_mem {l : List (κ × ν)}
    (hl : l.Pairwise (fun p q => p.1 < q.1)) (k : κ) (v : ν) :
    (l.find? (fun p => p.1 = k)).map Prod.snd = some v ↔ (k, v) ∈ l := by
  induction l with
  | nil => simp
  | cons hd rest ih =>
    obtain ⟨k', v'⟩ := hd
    obtain ⟨hhd, hrest⟩ := List.pairwise_cons.1 hl
    -- keys ascend strictly, so that the first match is the only one
    by_cases hk : k' = k
    · subst hk
      have hnot : (k', v) ∉ rest := fun hm => (hhd _ hm).ne rfl
      simp [hnot, eq_comm]
    · have hne : ¬ (k, v) = (k', v') := fun he => hk (congrArg Prod.fst he).symm
      simp [hk, hne, ih hrest]

theorem get?_eq_some_iff_mem (m : SortedMap κ ν) (k : κ) (v : ν) :
    m.get? k = some v ↔ (k, v) ∈ m.entries :=
  find?_eq_some_iff_mem m.sorted k v

@[simp] theorem get?_insert_self (m : SortedMap κ ν) (k : κ) (v : ν) :
    (m.insert k v).get? k = some v :=
  (get?_eq_some_iff_mem _ _ _).2 ((mem_entries_insert m k v _).2 (.inl rfl))

theorem get?_insert_of_ne (m : SortedMap κ ν) {k k' : κ} (h : k' ≠ k) (v : ν) :
    (m.insert k v).get? k' = m.get? k' := by
  refine Option.ext (fun w => ?_)
  rw [get?_eq_some_iff_mem, get?_eq_some_iff_mem, mem_entries_insert]
  simp [h]

/-- Of two writes under one key, the second counts. -/
theorem insert_insert (m : SortedMap κ ν) (k : κ) (v w : ν) :
    (m.insert k v).insert k w = m.insert k w := by
  ext p
  rw [mem_entries_insert, mem_entries_insert, mem_entries_insert]
  constructor
  · rintro (rfl | ⟨rfl | hp, hkey⟩)
    · exact .inl rfl
    · exact absurd rfl hkey
    · exact .inr hp
  · rintro (rfl | ⟨hp, hkey⟩)
    · exact .inl rfl
    · exact .inr ⟨.inr ⟨hp, hkey⟩, hkey⟩

/-- A write changes nothing exactly if it writes what is there. -/
theorem insert_eq_self_iff {m : SortedMap κ ν} {k : κ} {v : ν} :
    m.insert k v = m ↔ m.get? k = some v := by
  constructor
  · intro h
    rw [← h, get?_insert_self]
  · intro h
    have hmem := (get?_eq_some_iff_mem m k v).1 h
    ext p
    rw [mem_entries_insert]
    constructor
    · rintro (rfl | ⟨hp, _⟩)
      · exact hmem
      · exact hp
    · intro hp
      by_cases hkey : p.1 = k
      · -- the entry under `k` is the one that is written
        have hvalue := (get?_eq_some_iff_mem m k p.2).2 (hkey ▸ hp)
        rw [h, Option.some.injEq] at hvalue
        exact .inl (Prod.ext hkey hvalue.symm)
      · exact .inr ⟨hp, hkey⟩

/-- A write under a fresh key adds one entry. -/
theorem insert_perm_of_fresh {m : SortedMap κ ν} {k : κ} (h : m.get? k = none) (v : ν) :
    (m.insert k v).entries.Perm ((k, v) :: m.entries) := by
  -- nothing is replaced
  have hfresh : ∀ p ∈ m.entries, p.1 ≠ k := by
    intro p hp he
    have hget := (get?_eq_some_iff_mem m p.1 p.2).2 hp
    rw [he, h] at hget
    cases hget
  have hnodup : ∀ m : SortedMap κ ν, m.entries.Nodup :=
    fun m => m.sorted.imp (fun hlt he => hlt.ne (congrArg Prod.fst he))
  refine (List.perm_ext_iff_of_nodup (hnodup _) ?_).2 (fun p => ?_)
  · exact List.nodup_cons.2 ⟨fun hmem => hfresh _ hmem rfl, hnodup m⟩
  · rw [mem_entries_insert, List.mem_cons]
    exact or_congr Iff.rfl (and_iff_left_of_imp (hfresh p))

/-! ## Last writes -/

/-- The value of the last write to `k` in a sequence of writes. -/
def lastWrite (k : κ) (l : List (κ × ν)) : Option ν :=
  (l.reverse.find? (fun p => p.1 = k)).map Prod.snd

/-- The map that a sequence of writes leaves behind, started on an empty one. -/
def ofList (l : List (κ × ν)) : SortedMap κ ν :=
  l.foldl (fun m p => m.insert p.1 p.2) empty

@[simp] theorem ofList_nil : ofList ([] : List (κ × ν)) = empty := rfl

theorem ofList_concat (l : List (κ × ν)) (p : κ × ν) :
    ofList (l ++ [p]) = (ofList l).insert p.1 p.2 := by
  simp [ofList]

@[simp] theorem lastWrite_nil (k : κ) : lastWrite k ([] : List (κ × ν)) = none := rfl

theorem lastWrite_concat (k : κ) (l : List (κ × ν)) (p : κ × ν) :
    lastWrite k (l ++ [p]) = if p.1 = k then some p.2 else lastWrite k l := by
  by_cases h : p.1 = k <;> simp [lastWrite, h]

/-- The entries of `ofList` are the last writes. -/
theorem mem_ofList (l : List (κ × ν)) (p : κ × ν) :
    p ∈ (ofList l).entries ↔ lastWrite p.1 l = some p.2 := by
  induction l using List.reverseRecOn with
  | nil => simp
  | append_singleton l q ih =>
    rw [ofList_concat, mem_entries_insert, lastWrite_concat, ih]
    -- on the last pair: it decides about its own key and no other
    by_cases hq : q.1 = p.1
    · have : p = (q.1, q.2) ↔ q.2 = p.2 :=
        ⟨fun he => by rw [he], fun he => Prod.ext hq.symm he.symm⟩
      simp [hq.symm, this]
    · have : ¬ p = (q.1, q.2) := fun he => hq (congrArg Prod.fst he).symm
      simp [hq, Ne.symm hq, this]

theorem get?_ofList (l : List (κ × ν)) (k : κ) : (ofList l).get? k = lastWrite k l :=
  Option.ext (fun v => (get?_eq_some_iff_mem _ k v).trans (mem_ofList l (k, v)))

/-- A last write is a write that no later write to its key follows. -/
theorem lastWrite_eq_some_iff (k : κ) (v : ν) (l : List (κ × ν)) :
    lastWrite k l = some v ↔
      ∃ before after, l = before ++ (k, v) :: after ∧ ∀ q ∈ after, q.1 ≠ k := by
  induction l using List.reverseRecOn with
  | nil => simp
  | append_singleton l q ih =>
    rw [lastWrite_concat]
    constructor
    · intro h
      split_ifs at h with hq
      · refine ⟨l, [], ?_, by simp⟩
        rw [← hq, ← Option.some.inj h]
      · -- the appended write goes to another key, so the last one to `k` is in `l`
        obtain ⟨before, after, rfl, hafter⟩ := ih.1 h
        refine ⟨before, after ++ [q], by simp, fun r hr => ?_⟩
        rcases List.mem_append.1 hr with hr | hr
        · exact hafter r hr
        · exact List.mem_singleton.1 hr ▸ hq
    · rintro ⟨before, after, hl, hafter⟩
      -- the appended write is the one to `k`, or the end of those behind it
      rcases List.eq_nil_or_concat after with rfl | ⟨after', r, rfl⟩
      · obtain ⟨-, hq⟩ := List.append_inj' hl rfl
        rw [List.singleton_inj.1 hq, if_pos rfl]
      · have hl' : l ++ [q] = (before ++ (k, v) :: after') ++ [r] := by rw [hl]; simp
        obtain ⟨hleft, hq⟩ := List.append_inj' hl' rfl
        rw [List.singleton_inj.1 hq, if_neg (hafter r (by simp)), ih]
        exact ⟨before, after', hleft, fun s hs => hafter s (by simp [hs])⟩

/-- Under writes in ascending order of some measure, the last write to a key is the greatest
of the writes to it. -/
theorem lastWrite_eq_some_iff_greatest {π : Type*} [LinearOrder π] (place : ν → π)
    {l : List (κ × ν)} (h : l.Pairwise (fun p q => place p.2 < place q.2)) (k : κ) (v : ν) :
    lastWrite k l = some v ↔ (k, v) ∈ l ∧ ∀ p ∈ l, p.1 = k → place p.2 ≤ place v := by
  constructor
  · intro hlast
    obtain ⟨before, after, rfl, hafter⟩ := (lastWrite_eq_some_iff k v l).1 hlast
    refine ⟨by simp, fun p hp hk => ?_⟩
    rcases List.mem_append.1 hp with hp | hp
    · -- an earlier write is smaller by the order of the writes
      exact ((List.pairwise_append.1 h).2.2 p hp (k, v) List.mem_cons_self).le
    · rcases List.mem_cons.1 hp with rfl | hp
      · exact le_refl _
      · exact absurd hk (hafter p hp)
  · intro ⟨hmem, hgreatest⟩
    obtain ⟨before, after, rfl⟩ := List.append_of_mem hmem
    refine (lastWrite_eq_some_iff k v _).2 ⟨before, after, rfl, fun q hq hk => ?_⟩
    -- a later write to `k` would be greater than the greatest
    have hlt : place v < place q.2 :=
      (List.pairwise_cons.1 (List.pairwise_append.1 h).2.1).1 q hq
    exact absurd (hgreatest q (by simp [hq]) hk) (not_le.2 hlt)

theorem mem_of_mem_ofList {l : List (κ × ν)} {p : κ × ν} (h : p ∈ (ofList l).entries) :
    p ∈ l := by
  obtain ⟨before, after, rfl, -⟩ := (lastWrite_eq_some_iff _ _ _).1 ((mem_ofList l p).1 h)
  simp

/-- Where no key is written twice, every write is a last write. -/
theorem mem_ofList_of_nodup {l : List (κ × ν)} (h : (l.map Prod.fst).Nodup) (p : κ × ν) :
    p ∈ (ofList l).entries ↔ p ∈ l := by
  refine ⟨mem_of_mem_ofList, fun hp => (mem_ofList l p).2 ?_⟩
  obtain ⟨before, after, rfl⟩ := List.append_of_mem hp
  refine (lastWrite_eq_some_iff _ _ _).2 ⟨before, after, rfl, fun q hq he => ?_⟩
  rw [List.map_append, List.map_cons, List.nodup_append] at h
  exact (List.nodup_cons.1 h.2.1).1 (he ▸ List.mem_map_of_mem hq)

/-- The keys that a sequence writes are those with a last write. -/
theorem lastWrite_isSome_iff (k : κ) (l : List (κ × ν)) :
    (lastWrite k l).isSome ↔ k ∈ l.map Prod.fst := by
  unfold lastWrite
  rw [Option.isSome_map, List.find?_isSome]
  simp

/-- `ofList` has an entry under every key that is written. -/
theorem mem_keys_ofList (l : List (κ × ν)) (k : κ) :
    k ∈ (ofList l).entries.map Prod.fst ↔ k ∈ l.map Prod.fst := by
  constructor
  · intro h
    obtain ⟨p, hp, rfl⟩ := List.mem_map.1 h
    exact List.mem_map_of_mem (mem_of_mem_ofList hp)
  · intro h
    obtain ⟨v, hv⟩ := Option.isSome_iff_exists.1 ((lastWrite_isSome_iff k l).2 h)
    exact List.mem_map.2 ⟨(k, v), (mem_ofList l (k, v)).2 hv, rfl⟩

/-- `ofList` has one entry for each key that is written. -/
theorem size_ofList (l : List (κ × ν)) : (ofList l).size = (l.map Prod.fst).dedup.length := by
  have hnodup : ((ofList l).entries.map Prod.fst).Nodup :=
    List.pairwise_map.2 ((ofList l).sorted.imp LT.lt.ne)
  have hperm : ((ofList l).entries.map Prod.fst).Perm (l.map Prod.fst).dedup :=
    (List.perm_ext_iff_of_nodup hnodup (List.nodup_dedup _)).2
      (fun k => (mem_keys_ofList l k).trans List.mem_dedup.symm)
  rw [size, ← List.length_map Prod.fst, hperm.length_eq]

theorem size_ofList_le (l : List (κ × ν)) : (ofList l).size ≤ l.length := by
  rw [size_ofList, ← @List.length_map _ _ l Prod.fst]
  exact (List.dedup_sublist _).length_le

/-- No write is lost exactly when no key is written twice. -/
theorem size_ofList_eq_length_iff (l : List (κ × ν)) :
    (ofList l).size = l.length ↔ (l.map Prod.fst).Nodup := by
  rw [size_ofList, ← List.dedup_eq_self, ← @List.length_map _ _ l Prod.fst]
  exact ⟨fun h => (List.dedup_sublist _).eq_of_length h, fun h => congrArg List.length h⟩

/-! ## Two stores of one sequence of writes -/

/-- A re-keyed store answers a lookup as the first store does, if its key there belongs to
the same writes. -/
theorem lastWrite_map {l : List (κ × ν)} {g : κ × ν → κ' × ν'} {k : κ} {k' : κ'}
    (hk : ∀ p ∈ l, (g p).1 = k' ↔ p.1 = k) :
    lastWrite k' (l.map g) = (lastWrite k l).map (fun v => (g (k, v)).2) := by
  induction l using List.reverseRecOn with
  | nil => rfl
  | append_singleton l q ih =>
    have hl : ∀ p ∈ l, (g p).1 = k' ↔ p.1 = k := fun p hp => hk p (by simp [hp])
    have hq : (g q).1 = k' ↔ q.1 = k := hk q (by simp)
    rw [List.map_append, List.map_singleton, lastWrite_concat, lastWrite_concat, ih hl]
    -- the last pair has the key on both sides or on neither
    by_cases h : q.1 = k
    · subst h
      simp [hq]
    · simp [hq, h]

/-- **Re-keying.** If `g` gives two writes one key exactly when they had one key,
the last writes of the re-keyed sequence are the re-keyed last writes. -/
theorem mem_ofList_map {l : List (κ × ν)} {g : κ × ν → κ' × ν'}
    (hg : ∀ p ∈ l, ∀ q ∈ l, (g p).1 = (g q).1 ↔ p.1 = q.1) (r : κ' × ν') :
    r ∈ (ofList (l.map g)).entries ↔ ∃ p ∈ (ofList l).entries, g p = r := by
  induction l using List.reverseRecOn generalizing r with
  | nil => simp
  | append_singleton l q ih =>
    have hl : ∀ p ∈ l, ∀ p' ∈ l, (g p).1 = (g p').1 ↔ p.1 = p'.1 :=
      fun p hp p' hp' => hg p (by simp [hp]) p' (by simp [hp'])
    -- the last write replaces on both sides the entries of the same earlier writes
    have hq : ∀ p ∈ (ofList l).entries, (g p).1 = (g q).1 ↔ p.1 = q.1 :=
      fun p hp => hg p (by simp [mem_of_mem_ofList hp]) q (by simp)
    rw [List.map_append, List.map_singleton, ofList_concat, ofList_concat, mem_entries_insert,
      ih hl]
    simp only [mem_entries_insert, Prod.mk.eta]
    constructor
    · rintro (rfl | ⟨⟨p, hp, rfl⟩, hne⟩)
      · exact ⟨q, Or.inl rfl, rfl⟩
      · exact ⟨p, Or.inr ⟨hp, fun he => hne ((hq p hp).2 he)⟩, rfl⟩
    · rintro ⟨p, rfl | ⟨hp, hne⟩, rfl⟩
      · exact Or.inl rfl
      · exact Or.inr ⟨⟨p, hp, rfl⟩, fun he => hne ((hq p hp).1 he)⟩

/-- A list with distinct keys sorts to the one strictly ascending list of its members. -/
theorem sortOn_fst_eq_of_mem_iff {l : List (κ × ν)} {m : SortedMap κ ν}
    (hd : (l.map Prod.fst).Nodup) (h : ∀ p, p ∈ l ↔ p ∈ m.entries) :
    sortOn Prod.fst l = m.entries := by
  have hperm := sortOn_perm Prod.fst l
  have hsorted := sortOn_pairwise Prod.fst l
  refine eq_of_mem_iff ?_ m.sorted (fun p => hperm.mem_iff.trans (h p))
  have hne : (sortOn Prod.fst l).Pairwise (fun p q => p.1 ≠ q.1) :=
    List.pairwise_map.1 ((hperm.map Prod.fst).nodup_iff.2 hd)
  exact (hsorted.and hne).imp (fun h => lt_of_le_of_ne h.1 h.2)

/-- Two stores that identify the same writes with each other list the same rows, once the
rows of one are brought into the key order of the other. -/
theorem sortOn_map_entries_ofList {l : List (κ × ν)} {g : κ × ν → κ' × ν'}
    (hg : ∀ p ∈ l, ∀ q ∈ l, (g p).1 = (g q).1 ↔ p.1 = q.1) :
    sortOn Prod.fst ((ofList l).entries.map g) = (ofList (l.map g)).entries := by
  apply sortOn_fst_eq_of_mem_iff
  · rw [List.Nodup, List.pairwise_map, List.pairwise_map]
    exact (ofList l).sorted.imp_of_mem (fun hp hq h he =>
      h.ne ((hg _ (mem_of_mem_ofList hp) _ (mem_of_mem_ofList hq)).1 he))
  · intro r
    rw [mem_ofList_map hg, List.mem_map]

/-- A key function that preserves the order enumerates the rows in the old order. -/
theorem entries_ofList_map_of_strictMono {l : List (κ × ν)} {g : κ × ν → κ' × ν'}
    (hg : ∀ p ∈ l, ∀ q ∈ l, (g p).1 < (g q).1 ↔ p.1 < q.1) :
    (ofList (l.map g)).entries = (ofList l).entries.map g := by
  -- what keeps the order tells keys apart
  have hinj : ∀ p ∈ l, ∀ q ∈ l, (g p).1 = (g q).1 ↔ p.1 = q.1 := by
    intro p hp q hq
    have h₁ := hg p hp q hq
    have h₂ := hg q hq p hp
    rw [eq_iff_le_not_lt, eq_iff_le_not_lt, ← not_lt, ← not_lt, h₁, h₂]
  refine eq_of_mem_iff (ofList _).sorted ?_ (fun r => ?_)
  · rw [List.pairwise_map]
    exact (ofList l).sorted.imp_of_mem (fun hp hq h =>
      (hg _ (mem_of_mem_ofList hp) _ (mem_of_mem_ofList hq)).2 h)
  · rw [mem_ofList_map hinj, List.mem_map]

/-! ## Prefix ranges -/

/-- The entries from a start key on, in key order. -/
def rangeFrom (m : SortedMap κ ν) (start : κ) : List (κ × ν) :=
  m.entries.dropWhile (fun p => p.1 < start)

section Prefix

variable {α : Type*} [LinearOrder α]

private theorem prefix_of_le_of_lt {pre k t : List α} (hle : pre ≤ k) (hlt : k < pre ++ t) :
    pre <+: k := by
  induction pre generalizing k with
  | nil => exact List.nil_prefix
  | cons c pre ih =>
    cases k with
    | nil => exact absurd (List.nil_lt_cons c pre) hle.not_gt
    | cons d k =>
      rw [← not_lt, List.cons_lt_cons_iff, not_or, not_and, not_lt, not_lt] at hle
      rw [List.cons_append, List.cons_lt_cons_iff] at hlt
      -- a list between the prefix and one that extends it starts alike
      obtain hdc | ⟨rfl, hlt⟩ := hlt
      · exact absurd hdc hle.1.not_gt
      · exact List.cons_prefix_cons.2 ⟨rfl, ih (hle.2 rfl) hlt⟩

private theorem le_of_prefixed {pre k : List α} (h : pre <+: k) : pre ≤ k := by
  obtain ⟨t, rfl⟩ := h
  induction pre with
  | nil => exact not_lt.1 (List.not_lt_nil _)
  | cons c pre ih =>
    rw [← not_lt, List.cons_append, List.cons_lt_cons_iff, not_or]
    exact ⟨lt_irrefl c, fun h => ih.not_gt h.2⟩

/-- The keys with a given prefix stand together: reading from the prefix on until the first
key without it visits all of them. -/
theorem takeWhile_rangeFrom_prefix (m : SortedMap (List α) ν) (pre : List α) :
    (m.rangeFrom pre).takeWhile (fun p => decide (pre <+: p.1)) =
      m.entries.filter (fun p => decide (pre <+: p.1)) := by
  obtain ⟨l, hl⟩ := m
  simp only [rangeFrom]
  induction l with
  | nil => rfl
  | cons hd rest ih =>
    obtain ⟨hhd, hrest⟩ := List.pairwise_cons.1 hl
    by_cases hlt : hd.1 < pre
    · -- below the start, where no key has the prefix
      have hno : ¬ pre <+: hd.1 := fun hp => (le_of_prefixed hp).not_gt hlt
      simpa [hlt, hno] using ih hrest
    · rw [List.dropWhile_cons_of_neg (by simpa using hlt)]
      by_cases hp : pre <+: hd.1
      · have hle : ∀ q ∈ rest, ¬ q.1 < pre :=
          fun q hq => ((le_of_prefixed hp).trans (hhd q hq).le).not_gt
        -- from here on nothing is skipped, so the rest is read whole
        have ih := ih hrest
        rw [List.dropWhile_eq_self_iff.2
          (fun h => by simpa using hle _ (List.getElem_mem h))] at ih
        simp [hp, ih]
      · have hnone : ∀ q ∈ rest, ¬ pre <+: q.1 := by
          -- this key lies between the prefix and a later key, so it would have the prefix too
          rintro q hq ⟨t, ht⟩
          exact hp (prefix_of_le_of_lt (not_lt.1 hlt) (ht ▸ hhd q hq))
        rw [List.takeWhile_cons_of_neg (by simpa using hp),
          List.filter_cons_of_neg (by simpa using hp), List.filter_eq_nil_iff.2]
        simpa using hnone

end Prefix

end SortedMap

end HotIndex.Lib
