import HotIndex.Storage.Reads
import HotIndex.Storage.VolumeAgreement

/-!
# Hits

Whoever asks an engine for a row that was put gets an answer: a row under its version, a
row of its market, of its account, of its builder, or a volume (`StorageReads.Hits`). The
row may be another one than was put. A later row under the same identity replaces it, but
that row has the texts that the scan looks for: where the identity determines them, as in
every key of the RocksDB engine and in the attributions of the memory engine, or where no
identity occurs twice, as in its fills.
-/

namespace HotIndex

open Lib

/-- The queries for what the operations put find something. -/
structure StorageReads.Hits (reads : StorageReads) (ops : List PutOp) : Prop where
  getTx : ∀ tx, .putTx tx ∈ ops → ∃ row, reads.getTx tx.version = .ok (some row)
  multiGetTxs : ∀ versions : List UInt64, (∀ version ∈ versions, ∃ tx, .putTx tx ∈ ops ∧
      tx.version = version) →
    ∃ rows : List TxRow, reads.multiGetTxs versions = .ok (rows.map some) ∧
      rows.length = versions.length
  scanMarketFills : ∀ fill, .putFill fill ∈ ops → ∀ limit ≠ .rows 0,
    ∃ rows, reads.scanMarketFills fill.marketId limit = .ok rows ∧ rows ≠ []
  scanAccountFills : ∀ fill, .putFill fill ∈ ops → ∀ limit ≠ .rows 0,
    ∃ rows, reads.scanAccountFills fill.account limit = .ok rows ∧ rows ≠ []
  scanBuilderCodeFills : ∀ row, .putBuilderAttribution row ∈ ops → ∀ limit ≠ .rows 0,
    ∃ rows, reads.scanBuilderCodeFills row.builderAddr limit = .ok rows ∧ rows ≠ []
  getBuilderCodeVolume : ∀ row, .putBuilderAttribution row ∈ ops → ∀ window,
    NoOverflow (reads.getBuilderCodeVolume row.builderAddr window) →
      ∃ volume, reads.getBuilderCodeVolume row.builderAddr window = .ok (some volume)

/-! ## Cutting and mapping non-empty lists -/

theorem Limit.truncate_ne_nil {α : Type} {limit : Limit} (hlimit : limit ≠ .rows 0)
    {rows : List α} (h : rows ≠ []) : limit.truncate rows ≠ [] := by
  cases limit with
  | rows count =>
    have hcount : count ≠ 0 := fun he => hlimit (congrArg Limit.rows he)
    show rows.take count ≠ []
    simp [hcount, h]
  | max => exact h

/-- Of rows among which one is selected, a sorted and cut selection keeps one. -/
theorem Limit.truncate_sortOn_filter_ne_nil {α κ : Type} [LinearOrder κ] {limit : Limit}
    (hlimit : limit ≠ .rows 0) {key : α → κ} {rows : List α} {selected : α → Bool} {row : α}
    (hrow : row ∈ rows) (hselected : selected row) :
    limit.truncate (sortOn key (rows.filter selected)) ≠ [] := by
  apply Limit.truncate_ne_nil hlimit
  apply List.ne_nil_of_mem
  exact mem_sortOn.2 (List.mem_filter.2 ⟨hrow, hselected⟩)

/-- The rows of one builder have a volume unless it overflows. -/
theorem volumeOfRows_hits {builderAddr : String} {window : TimeWindow}
    {rows : List BuilderAttributionRow} {checkpointTs : UInt64} (hrows : rows ≠ [])
    (h : NoOverflow (volumeOfRows builderAddr window rows checkpointTs)) :
    ∃ volume, volumeOfRows builderAddr window rows checkpointTs = .ok (some volume) := by
  have hempty : rows.isEmpty = false := by simpa using hrows
  unfold volumeOfRows at h ⊢
  rw [hempty] at h ⊢
  obtain ⟨volume, hvolume⟩ :=
    (failsByOverflow_builderVolumeRow builderAddr window rows checkpointTs).returns h.of_bind
  refine ⟨volume, ?_⟩
  show (builderVolumeRow builderAddr window rows checkpointTs >>= fun row => .ok (some row)) = _
  rw [hvolume]
  rfl

/-! ## The memory engine -/

section Engines

variable {ops : List PutOp} {json : SerdeJson} {sha256 : Bytes → Bytes}

namespace MemoryEngine

theorem getTx_hits {tx : TxRow} (h : .putTx tx ∈ ops) :
    ∃ row, (empty.run ops).getTx tx.version = some row := by
  rw [getTx, txByVersion_run, SortedMap.get?_ofList, ← Option.isSome_iff_exists,
    SortedMap.lastWrite_isSome_iff]
  exact List.mem_map.2 ⟨(tx.version, tx), List.mem_filterMap.2 ⟨_, h, rfl⟩, rfl⟩

theorem multiGetTxs_hits {versions : List UInt64}
    (h : ∀ version ∈ versions, ∃ tx, .putTx tx ∈ ops ∧ tx.version = version) :
    ∃ rows : List TxRow, (empty.run ops).multiGetTxs versions = rows.map some ∧
      rows.length = versions.length := by
  induction versions with
  | nil => exact ⟨[], rfl, rfl⟩
  | cons version rest ih =>
    obtain ⟨rows, hrows, hlength⟩ := ih (fun v hv => h v (List.mem_cons_of_mem _ hv))
    obtain ⟨tx, htx, rfl⟩ := h version List.mem_cons_self
    obtain ⟨row, hrow⟩ := getTx_hits htx
    refine ⟨row :: rows, ?_, by simp [hlength]⟩
    -- each version is looked up by itself
    show (empty.run ops).getTx tx.version :: (empty.run ops).multiGetTxs rest = _
    rw [hrow, hrows]
    rfl

/-- The attribution stored last for a builder and a fill is one of that builder. -/
theorem builderAttribution_hits {row : BuilderAttributionRow}
    (h : .putBuilderAttribution row ∈ ops) :
    ∃ stored ∈ (empty.run ops).builderAttributionsByFill.values,
      stored.builderAddr = row.builderAddr := by
  -- the identity names the builder, so whatever is stored under it is a row of the builder
  have hkey : toLex ((⟨row.builderAddr⟩ : Text), (⟨row.fillId⟩ : Text)) ∈
      (SortedMap.ofList (ops.filterMap builderEntry)).entries.map Prod.fst := by
    rw [SortedMap.mem_keys_ofList]
    exact List.mem_map.2 ⟨_, List.mem_filterMap.2 ⟨_, h, rfl⟩, rfl⟩
  obtain ⟨p, hp, hpkey⟩ := List.mem_map.1 hkey
  obtain ⟨stored, -, rfl⟩ := mem_builderEntries (SortedMap.mem_of_mem_ofList hp)
  rw [builderAttributionsByFill_run]
  refine ⟨stored, List.mem_map_of_mem hp, ?_⟩
  exact congrArg (fun key : Text ×ₗ Text => (ofLex key).1.str) hpkey

theorem reads_hits (hfills : ((ops.filterMap PutOp.fill?).map FillRow.fillId).Nodup) :
    ((empty.run ops).reads json sha256).Hits ops where
  getTx := by
    intro tx htx
    obtain ⟨row, hrow⟩ := getTx_hits htx
    exact ⟨row, congrArg Except.ok hrow⟩
  multiGetTxs := by
    intro versions hversions
    obtain ⟨rows, hrows, hlength⟩ := multiGetTxs_hits hversions
    exact ⟨rows, congrArg Except.ok hrows, hlength⟩
  scanMarketFills := by
    intro fill hfill limit hlimit
    refine ⟨_, rfl, ?_⟩
    unfold scanMarketFills
    rw [sortFills_selected hfills]
    -- the fill itself is selected, and a limit of at least one keeps a row
    exact Limit.truncate_sortOn_filter_ne_nil hlimit (mem_fills.2 hfill) (by simp)
  scanAccountFills := by
    intro fill hfill limit hlimit
    refine ⟨_, rfl, ?_⟩
    unfold scanAccountFills
    rw [sortFills_selected hfills]
    exact Limit.truncate_sortOn_filter_ne_nil hlimit (mem_fills.2 hfill) (by simp)
  scanBuilderCodeFills := by
    intro row hrow limit hlimit
    obtain ⟨stored, hstored, haddr⟩ := builderAttribution_hits hrow
    exact ⟨_, rfl, Limit.truncate_sortOn_filter_ne_nil hlimit hstored (by simp [haddr])⟩
  getBuilderCodeVolume := by
    intro row hrow window hfits
    obtain ⟨stored, hstored, haddr⟩ := builderAttribution_hits hrow
    refine volumeOfRows_hits ?_ hfits
    exact List.ne_nil_of_mem (List.mem_filter.2 ⟨hstored, by simp [haddr]⟩)

end MemoryEngine

/-! ## The RocksDB engine -/

namespace RocksDb

/-- A scan takes a row even if its limit is zero. -/
theorem scanRoom_truncate_ne_nil {α : Type} (limit : Limit) {rows : List α} (h : rows ≠ []) :
    (scanRoom limit 0).truncate rows ≠ [] := by
  apply Limit.truncate_ne_nil _ h
  cases limit with
  | rows count =>
    intro he
    have hroom : max (count - 0) 1 = 0 := Limit.rows.inj he
    omega
  | max => exact nofun

/-- A scan over the prefix of a key that was written finds a row: the value under the key may
have been replaced, but its key still has the prefix. -/
theorem scanPrefix_hits {α : Type} {db : RocksDb} {codec : Codec α} {family : ColumnFamily}
    {rows : List α} {key : α → Except Fault Bytes}
    (hcf : db.cf family = SortedMap.ofList
      (rows.map (fun row => (built (key row), codec.toVec row))))
    (hjson : ∀ row ∈ rows, codec.RoundTrips row) {row : α} (hrow : row ∈ rows)
    {keyPrefix : Except Fault Bytes}
    (hbegins : ∃ p, keyPrefix = .ok p ∧ p <+: built (key row)) (limit : Limit) :
    ∃ found, scanPrefix db codec family keyPrefix limit = .ok found ∧ found ≠ [] := by
  obtain ⟨p, rfl, hprefix⟩ := hbegins
  rw [scanPrefix_ok, hcf]
  set stored := (SortedMap.ofList
    (rows.map (fun row => (built (key row), codec.toVec row)))).entries with hstored
  -- every value that the scan reaches decodes, whichever row it is of
  have hdecode : ∀ entry ∈ (scanRoom limit 0).truncate
      (stored.filter (fun entry => decide (p <+: entry.1))),
      ∃ found, codec.decode entry.2 = .ok found := by
    intro entry hentry
    have hmem := (List.mem_filter.1 (Limit.mem_of_mem_truncate hentry)).1
    obtain ⟨found, hfound, rfl⟩ := List.mem_map.1 (SortedMap.mem_of_mem_ofList hmem)
    exact ⟨found, Codec.decode_toVec (hjson found hfound)⟩
  obtain ⟨found, hfound, hlength⟩ := exists_mapM_eq_ok hdecode
  refine ⟨found, hfound, ?_⟩
  -- the key of the row is still there, under a value that may be another's
  have hkey : built (key row) ∈ stored.map Prod.fst := by
    rw [hstored, SortedMap.mem_keys_ofList, List.map_map]
    exact List.mem_map_of_mem hrow
  obtain ⟨entry, hentry, hentryKey⟩ := List.mem_map.1 hkey
  have hselected : entry ∈ stored.filter (fun entry => decide (p <+: entry.1)) := by
    rw [List.mem_filter, hentryKey]
    exact ⟨hentry, by simpa using hprefix⟩
  have hne := scanRoom_truncate_ne_nil limit (List.ne_nil_of_mem hselected)
  rw [← List.length_pos_iff, hlength]
  exact List.length_pos_iff.2 hne

variable (hText : ∀ op ∈ ops, op.TextOk) (hjson : ∀ op ∈ ops, json.RoundTrips op)
include hText hjson

theorem scanBuilderCodeFills_hits {row : BuilderAttributionRow}
    (h : .putBuilderAttribution row ∈ ops) (limit : Limit) :
    ∃ rows, (afterRun json ops).scanBuilderCodeFills json row.builderAddr limit = .ok rows ∧
      rows ≠ [] := by
  apply scanPrefix_hits (afterRun_builderCodeFills json ops) _ (mem_builderRows.2 h)
    (builderPrefix_of_key (hText _ h))
  exact fun other hother => hjson _ (mem_builderRows.1 hother)

theorem reads_hits : ((afterRun json ops).reads json sha256).Hits ops where
  getTx := by
    intro tx htx
    obtain ⟨row, hrow⟩ := MemoryEngine.getTx_hits htx
    exact ⟨row, (getTx_agrees hjson tx.version).trans (congrArg Except.ok hrow)⟩
  multiGetTxs := by
    intro versions hversions
    obtain ⟨rows, hrows, hlength⟩ := MemoryEngine.multiGetTxs_hits hversions
    exact ⟨rows, (multiGetTxs_agrees hjson versions).trans (congrArg Except.ok hrows), hlength⟩
  scanMarketFills := by
    intro fill hfill limit _
    apply scanPrefix_hits (afterRun_fillsByMarketTime json ops) _ (mem_fills.2 hfill)
      (marketPrefix_of_key (hText _ hfill))
    exact fun other hother => hjson _ (mem_fills.1 hother)
  scanAccountFills := by
    intro fill hfill limit _
    apply scanPrefix_hits (afterRun_fillsByAccountTime json ops) _ (mem_fills.2 hfill)
      (accountPrefix_of_key (hText _ hfill))
    exact fun other hother => hjson _ (mem_fills.1 hother)
  scanBuilderCodeFills := fun row hrow limit _ => scanBuilderCodeFills_hits hText hjson hrow limit
  getBuilderCodeVolume := by
    intro row hrow window hfits
    obtain ⟨rows, hscan, hne⟩ := scanBuilderCodeFills_hits hText hjson hrow .max
    have hvolume : ((afterRun json ops).reads json sha256).getBuilderCodeVolume row.builderAddr
        window = _ := getBuilderCodeVolume_of_scan hText hjson hscan window
    rw [hvolume] at hfits ⊢
    exact volumeOfRows_hits hne hfits

end RocksDb

end Engines

end HotIndex
