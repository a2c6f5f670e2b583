import HotIndex.Storage.RocksHistory
import HotIndex.Storage.ScanAgreement

/-!
# Failing Fills

`put_fill` makes three writes, to three column families. When the second or the third of them
fails, the ones before it stay: a fill is then listed by its market and not by its account, or
by both and not among the activities. The contents of the database are unchanged by a failing
`put_fill` exactly if what it wrote before it failed was there already
(`putFill_atomic_iff`).
-/

namespace HotIndex.RocksDb

open Lib

/-! ## Writes that change nothing -/

/-- The write would not change the database. -/
def Attempt.Stored (db : RocksDb) (attempt : Attempt) : Prop :=
  (db.cf attempt.family).get? (built attempt.key) = some attempt.value

instance (db : RocksDb) (attempt : Attempt) : Decidable (attempt.Stored db) :=
  inferInstanceAs (Decidable (_ = _))

theorem cf_store_eq_self_iff {db : RocksDb} {attempt : Attempt} :
    (db.store attempt.write).cf = db.cf ↔ attempt.Stored db := by
  unfold Attempt.Stored
  rw [← SortedMap.insert_eq_self_iff]
  show Function.update db.cf attempt.family _ = db.cf ↔ _
  exact Function.update_eq_self_iff

theorem cf_store_write_of_ne (db : RocksDb) {attempt : Attempt} {family : ColumnFamily}
    (h : family ≠ attempt.family) : (db.store attempt.write).cf family = db.cf family := by
  rw [cf_store]
  exact if_neg (Ne.symm h)

/-- Writes to different families leave the rows of each other alone. -/
theorem cf_storeAll_of_not_mem {db : RocksDb} {l : List Attempt} {family : ColumnFamily}
    (h : family ∉ l.map Attempt.family) : (db.storeAll l).cf family = db.cf family := by
  induction l generalizing db with
  | nil => rfl
  | cons attempt l ih =>
    simp only [List.map_cons, List.mem_cons, not_or] at h
    show ((db.store attempt.write).storeAll l).cf family = _
    rw [ih h.2, cf_store_write_of_ne db h.1]

/-- Writes to different families change nothing together only if none of them does alone. -/
theorem cf_storeAll_eq_self_iff {db : RocksDb} {l : List Attempt}
    (hfamilies : (l.map Attempt.family).Nodup) :
    (db.storeAll l).cf = db.cf ↔ ∀ attempt ∈ l, attempt.Stored db := by
  induction l generalizing db with
  | nil => simp [storeAll]
  | cons attempt l ih =>
    rw [List.map_cons, List.nodup_cons] at hfamilies
    show ((db.store attempt.write).storeAll l).cf = db.cf ↔ _
    rw [List.forall_mem_cons, ← cf_store_eq_self_iff]
    constructor
    · intro h
      -- the first family is not written again
      have hfirst : (db.store attempt.write).cf = db.cf := by
        funext family
        by_cases hfamily : family = attempt.family
        · subst hfamily
          rw [← @cf_storeAll_of_not_mem (db.store attempt.write) l _ hfamilies.1, h]
        · exact cf_store_write_of_ne db hfamily
      have hrest := (@ih (db.store attempt.write) hfamilies.2).1 (h.trans hfirst.symm)
      refine ⟨hfirst, fun other hother => ?_⟩
      have hstored := hrest other hother
      unfold Attempt.Stored at hstored ⊢
      rwa [hfirst] at hstored
    · rintro ⟨hfirst, hrest⟩
      refine ((@ih (db.store attempt.write) hfamilies.2).2 (fun other hother => ?_)).trans
        hfirst
      have hstored := hrest other hother
      unfold Attempt.Stored at hstored ⊢
      rwa [hfirst]

/-- No operation writes to one family twice. -/
theorem nodup_families_attempts (json : SerdeJson) (op : PutOp) :
    ((attempts json op).map Attempt.family).Nodup := by
  cases op <;> simp [attempts]

/-! ## A failing operation -/

/-- The operation leaves all column families as they were whenever it returns an error. -/
def AtomicPut (json : SerdeJson) (db : RocksDb) (op : PutOp) : Prop :=
  ∀ error db', exec (put json op) db = (.error (.error error), db') → db'.cf = db.cf

/-- No write that the database refuses comes behind one that changes the database. -/
def NoPartialWrite (json : SerdeJson) (db : RocksDb) (op : PutOp) : Prop :=
  ∀ done refused rest, attempts json op = done ++ refused :: rest →
    (∀ attempt ∈ done, attempt.fault? db.putError = none) →
    (∃ error, refused.fault? db.putError = some (.error error)) →
    ∀ attempt ∈ done, attempt.Stored db

theorem completed_append {putError : ColumnFamily → Option String} {done rest : List Attempt}
    {failed : Attempt} {fault : Fault} (hdone : ∀ attempt ∈ done, attempt.fault? putError = none)
    (hfailed : failed.fault? putError = some fault) :
    completed putError (done ++ failed :: rest) = done := by
  unfold completed
  rw [List.takeWhile_append_of_pos (by simpa using hdone),
    List.takeWhile_cons_of_neg (by simp [hfailed]), List.append_nil]

theorem put_atomic_iff (json : SerdeJson) (db : RocksDb) (op : PutOp) :
    AtomicPut json db op ↔ NoPartialWrite json db op := by
  have hfamilies : ∀ done rest, attempts json op = done ++ rest →
      (done.map Attempt.family).Nodup := by
    intro done rest hsplit
    have hnodup := nodup_families_attempts json op
    rw [hsplit, List.map_append, List.nodup_append] at hnodup
    exact hnodup.1
  constructor
  · -- what stands before the refused write is what the operation leaves behind
    rintro hatomic done refused rest hsplit hdone ⟨error, hrefused⟩
    have hexec : exec (put json op) db = (.error (.error error), db.storeAll done) := by
      have hfind : (attempts json op).findSome? (fun attempt => attempt.fault? db.putError) =
          some (.error error) :=
        List.findSome?_eq_some_iff.2 ⟨done, refused, rest, hsplit, hrefused, hdone⟩
      rw [exec_put_eq, hfind, hsplit, completed_append hdone hrefused]
    exact (cf_storeAll_eq_self_iff (hfamilies _ _ hsplit)).1 (hatomic _ _ hexec)
  · intro hkept error db' hexec
    rw [exec_put_eq, Prod.mk.injEq] at hexec
    rcases hexec with ⟨hresult, rfl⟩
    cases hfind : (attempts json op).findSome? (fun attempt => attempt.fault? db.putError) with
    | none =>
      -- no write failed, so the operation returned no error
      rw [hfind] at hresult
      cases hresult
    | some fault =>
      rw [hfind] at hresult
      cases hresult
      rcases List.findSome?_eq_some_iff.1 hfind with ⟨done, refused, rest, hsplit, hrefused, hdone⟩
      have hstored := hkept done refused rest hsplit hdone ⟨error, hrefused⟩
      have hsame := (cf_storeAll_eq_self_iff (hfamilies _ _ hsplit)).2 hstored
      rwa [hsplit, completed_append hdone hrefused]

/-- **A failing `put_fill`** leaves every column family as it was exactly if none of its writes
is refused behind one that changes the database. -/
theorem putFill_atomic_iff (json : SerdeJson) (db : RocksDb) (fill : FillRow) :
    AtomicPut json db (.putFill fill) ↔ NoPartialWrite json db (.putFill fill) :=
  put_atomic_iff json db (.putFill fill)

/-- An empty database on which the account index cannot be written. -/
def refusingAccounts : RocksDb :=
  { empty with putError := fun family =>
      if family = .fillsByAccountTime then some "IO error" else none }

/-- The account index refuses a fill that its market then lists. -/
theorem putFill_not_atomic_refusingAccounts :
    (exec (put (.ofOps numberedFills) (.putFill (sampleFill "9" "BTC" 0))) refusingAccounts).1 =
        .error (rocksError "IO error") ∧
      (exec (put (.ofOps numberedFills) (.putFill (sampleFill "9" "BTC" 0)))
        refusingAccounts).2.scanMarketFills (.ofOps numberedFills) "BTC" .max =
        .ok [sampleFill "9" "BTC" 0] ∧
      ¬ AtomicPut (.ofOps numberedFills) refusingAccounts (.putFill (sampleFill "9" "BTC" 0)) := by
  have hresult : (exec (put (.ofOps numberedFills) (.putFill (sampleFill "9" "BTC" 0)))
      refusingAccounts).1 = .error (rocksError "IO error") := by decide +kernel
  refine ⟨hresult, by decide +kernel, fun hatomic => ?_⟩
  have hcf := hatomic _ _ (Prod.ext hresult rfl)
  have hrows := congrArg (fun cf => ((cf .fillsByMarketTime).entries).length) hcf
  revert hrows
  decide +kernel

end HotIndex.RocksDb
