import HotIndex.Storage.ScanAgreement

/-!
# The Limit of a Scan

A scan of the RocksDB engine seeks its prefix and stops at the first key without it; since
the keys of a prefix lie side by side in byte order, no later row is missed. The limit is
tested behind the row that it was tested for, so a limit of zero still returns a row. That is
the one case in which `scan_prefix` returns other rows than the first `limit` of its prefix
(`scanPrefix_contract_iff`); the memory engine truncates and never does.
-/

namespace HotIndex

open Lib

/-- A result of `len` rows respects the limit. -/
def Limit.Admits (limit : Limit) (len : Nat) : Prop :=
  match limit with
  | .rows count => len ≤ count
  | .max => True

instance (limit : Limit) (len : Nat) : Decidable (limit.Admits len) :=
  match limit with
  | .rows count => inferInstanceAs (Decidable (len ≤ count))
  | .max => isTrue trivial

theorem Limit.admits_truncate {α : Type} (limit : Limit) (rows : List α) :
    limit.Admits (limit.truncate rows).length := by
  cases limit with
  | rows count => simp [Limit.Admits, Limit.truncate]
  | max => trivial

namespace RocksDb

/-- The stored rows whose key starts with the prefix, in key order. -/
def rowsUnder (db : RocksDb) (family : ColumnFamily) (keyPrefix : Bytes) :
    List (Bytes × Bytes) :=
  (db.cf family).entries.filter (fun row => decide (keyPrefix <+: row.1))

/-- A scan returns the first rows of its prefix, as many as the limit admits. -/
structure ScanContract {α : Type} (db : RocksDb) (codec : Codec α) (family : ColumnFamily)
    (keyPrefix : Bytes) (limit : Limit) : Prop where
  rows : db.scanPrefix codec family (.ok keyPrefix) limit =
    (limit.truncate (db.rowsUnder family keyPrefix)).mapM (fun row => codec.decode row.2)
  bounded : ∀ rows, db.scanPrefix codec family (.ok keyPrefix) limit = .ok rows →
    limit.Admits rows.length

variable {α : Type} (db : RocksDb) (codec : Codec α) (family : ColumnFamily)
  (keyPrefix : Bytes) (limit : Limit)

theorem scanContract_of_room {limit : Limit}
    (h : (scanRoom limit 0).truncate (db.rowsUnder family keyPrefix) =
      limit.truncate (db.rowsUnder family keyPrefix)) :
    ScanContract db codec family keyPrefix limit := by
  -- the scan decodes what its room admits
  have hrows : db.scanPrefix codec family (.ok keyPrefix) limit =
      (limit.truncate (db.rowsUnder family keyPrefix)).mapM
        (fun row => codec.decode row.2) := by
    rw [scanPrefix_ok]
    exact congrArg _ h
  refine ⟨hrows, ?_⟩
  intro rows hok
  rw [hrows] at hok
  rw [length_of_mapM_eq_ok hok]
  exact limit.admits_truncate _

/-- With a limit of zero, the first row of the prefix is decoded and returned. -/
theorem not_scanContract_zero (h : db.rowsUnder family keyPrefix ≠ []) :
    ¬ ScanContract db codec family keyPrefix (.rows 0) := by
  intro hcontract
  have hrows := hcontract.rows
  rcases List.exists_cons_of_ne_nil h with ⟨row, rest, hcons⟩
  rw [scanPrefix_ok, show (db.cf family).entries.filter _ = row :: rest from hcons, hcons]
    at hrows
  simp only [scanRoom, Limit.truncate, List.take_zero, List.mapM_nil, Nat.sub_self,
    Nat.max_eq_right (Nat.zero_le 1), List.take_succ_cons, List.mapM_cons] at hrows
  cases hdecode : codec.decode row.2 with
  | error fault =>
    -- the scan fails although no row was asked for
    rw [hdecode] at hrows
    cases hrows
  | ok value =>
    rw [hdecode] at hrows
    cases hrows

/-- **Scan contract.** For every contents, prefix and limit, a scan returns exactly the first
rows of its prefix, and no more than the limit, unless the limit is zero and there is one. -/
theorem scanPrefix_contract_iff :
    ScanContract db codec family keyPrefix limit ↔
      limit ≠ .rows 0 ∨ ∀ row ∈ (db.cf family).entries, ¬ keyPrefix <+: row.1 := by
  constructor
  · -- the one case in which a row is taken beyond the limit
    intro hcontract
    by_contra! hcond
    rcases hcond with ⟨rfl, row, hrow, hprefix⟩
    apply not_scanContract_zero db codec family keyPrefix _ hcontract
    exact List.ne_nil_of_mem (List.mem_filter.2 ⟨hrow, by simpa using hprefix⟩)
  · rintro (hlimit | hnone)
    · exact scanContract_of_room db codec family keyPrefix (by rw [scanRoom_eq hlimit])
    · -- no row can be returned, whatever the limit leaves room for
      have hempty : db.rowsUnder family keyPrefix = [] := by
        rw [rowsUnder, List.filter_eq_nil_iff]
        simpa using hnone
      apply scanContract_of_room
      rw [hempty]
      cases limit <;> simp [scanRoom, Limit.truncate]

end RocksDb

/-- The scans of the memory engine never return more rows than the limit. -/
structure MemoryEngine.ScansBounded (inner : MemoryEngine) (text : String) (limit : Limit) :
    Prop where
  marketFills : limit.Admits (inner.scanMarketFills text limit).length
  accountFills : limit.Admits (inner.scanAccountFills text limit).length
  builderCodeFills : limit.Admits (inner.scanBuilderCodeFills text limit).length
  marketActivity : limit.Admits (inner.scanMarketActivity text limit).length

theorem MemoryEngine.scansBounded (inner : MemoryEngine) (text : String) (limit : Limit) :
    inner.ScansBounded text limit :=
  ⟨limit.admits_truncate _, limit.admits_truncate _, limit.admits_truncate _,
    limit.admits_truncate _⟩

/-- **Limits of scans.** The memory engine respects every limit; a scan of the RocksDB engine
meets its contract exactly if the limit is not zero or no stored key has the prefix. -/
theorem scan_limits {α : Type} (db : RocksDb) (codec : Codec α) (family : ColumnFamily)
    (keyPrefix : Bytes) (inner : MemoryEngine) (text : String) (limit : Limit) :
    inner.ScansBounded text limit ∧
      (RocksDb.ScanContract db codec family keyPrefix limit ↔
        limit ≠ .rows 0 ∨ ∀ row ∈ (db.cf family).entries, ¬ keyPrefix <+: row.1) :=
  ⟨inner.scansBounded text limit,
    RocksDb.scanPrefix_contract_iff db codec family keyPrefix limit⟩

/-- One stored fill, and a scan of its market for no fills. -/
theorem scan_limits_zero :
    (RocksDb.afterRun (.ofOps numberedFills) numberedFills).scanMarketFills
        (.ofOps numberedFills) "BTC" (.rows 0) = .ok [sampleFill "10" "BTC" 1] ∧
      (MemoryEngine.empty.run numberedFills).scanMarketFills "BTC" (.rows 0) = [] ∧
      ¬ RocksDb.ScanContract (RocksDb.afterRun (.ofOps numberedFills) numberedFills)
        (SerdeJson.ofOps numberedFills).fill .fillsByMarketTime [66, 84, 67, 0] (.rows 0) := by
  refine ⟨by decide +kernel, by decide +kernel, ?_⟩
  apply RocksDb.not_scanContract_zero
  decide +kernel

end HotIndex
