import HotIndex.Storage.ScanSelection

/-!
# Builder Volumes of the Two Engines

The engines visit the attributions of a builder in different orders and look for the latest
checkpoint among rows that they file under different keys. Neither matters: the rows are a
permutation of each other, the checkpoints are the same, and the volume row depends on no
order as long as no sum overflows (`builderVolumeRow_perm`).
-/

namespace HotIndex

open Lib

open RocksDb (afterRun cf_afterRun filed)

variable {ops : List PutOp} {json : SerdeJson}

/-! ## The latest checkpoint -/

/-- Both engines find the same latest checkpoint. -/
theorem latestCheckpointTimestampUs_agrees (hText : ∀ op ∈ ops, op.TextOk)
    (hjson : ∀ op ∈ ops, json.RoundTrips op) :
    (afterRun json ops).latestCheckpointTimestampUs json = .ok (latestTimestamp
      ((MemoryEngine.empty.run ops).checkpoints.values.map
        IngestCheckpoint.lastProcessedTimestampUs)) := by
  set l := ops.filterMap MemoryEngine.checkpointEntry with hl
  set g := filed json.checkpoint (fun p : Text × IngestCheckpoint =>
    Key.ingestCheckpoint p.2.network p.2.packageAddress) with hg
  have hinj : ∀ p ∈ l, ∀ q ∈ l, (g p).1 = (g q).1 ↔ p.1 = q.1 := by
    intro p hp q hq
    obtain ⟨a, ha, rfl⟩ := MemoryEngine.mem_checkpointEntries hp
    obtain ⟨b, hb, rfl⟩ := MemoryEngine.mem_checkpointEntries hq
    exact (RocksDb.built_eq_iff (RocksDb.checkpoint_key_ok (hText _ ha))
      (RocksDb.checkpoint_key_ok (hText _ hb)) Key.ingestCheckpoint_inj).trans
      IngestCheckpoint.key_inj.symm
  -- the family lists the entries of the map in another order
  set sorted := sortOn (fun p => (g p).1) (SortedMap.ofList l).entries with hsorted
  have hentries : ((afterRun json ops).cf .ingestCheckpoint).entries = sorted.map g := by
    rw [cf_afterRun, RocksDb.familyWrites_ingestCheckpoint,
      ← SortedMap.sortOn_map_entries_ofList hinj]
    exact (List.map_insertionSort _ _ g _ (fun _ _ _ _ => Iff.rfl)).symm
  have hperm : sorted.Perm (SortedMap.ofList l).entries := sortOn_perm _ _
  have hdecode : ∀ p ∈ sorted, json.checkpoint.decode (g p).2 = .ok p.2 := by
    intro p hp
    have hmem := SortedMap.mem_of_mem_ofList (hperm.mem_iff.1 hp)
    obtain ⟨checkpoint, hop, rfl⟩ := MemoryEngine.mem_checkpointEntries hmem
    exact Codec.decode_toVec (hjson _ hop)
  have hstep : ∀ p ∈ sorted, ∀ maxTs : UInt64, (do
      let checkpoint ← json.checkpoint.decode (g p).2
      return max maxTs checkpoint.lastProcessedTimestampUs : Except Fault UInt64) =
        .ok (max maxTs p.2.lastProcessedTimestampUs) := by
    intro p hp maxTs
    rw [hdecode p hp]
    rfl
  have hmax : latestTimestamp (sorted.map (fun p => p.2.lastProcessedTimestampUs)) =
      latestTimestamp ((SortedMap.ofList l).values.map
        IngestCheckpoint.lastProcessedTimestampUs) := by
    rw [SortedMap.values, List.map_map]
    exact latestTimestamp_perm (hperm.map _)
  unfold RocksDb.latestCheckpointTimestampUs
  rw [hentries, List.foldlM_map, foldlM_eq_ok hstep, MemoryEngine.checkpoints_run, ← hmax,
    latestTimestamp, List.foldl_map]

/-! ## The volume -/

theorem NoOverflow.of_bind {α β : Type} {m : Except Fault α} {f : α → Except Fault β}
    (h : NoOverflow (m >>= f)) : NoOverflow m := by
  intro fault hfault
  apply h fault
  rw [hfault]
  rfl

/-- What both engines do once they hold the rows and the latest checkpoint. -/
def volumeOfRows (builderAddr : String) (window : TimeWindow) (rows : List BuilderAttributionRow)
    (checkpointTs : UInt64) : Except Fault (Option BuilderVolumeRow) := do
  if rows.isEmpty then return none
  return some (← builderVolumeRow builderAddr window rows checkpointTs)

theorem volumeOfRows_perm {builderAddr : String} {window : TimeWindow}
    {rows rows' : List BuilderAttributionRow} (hperm : rows.Perm rows') {checkpointTs : UInt64}
    (h : NoOverflow (volumeOfRows builderAddr window rows checkpointTs))
    (h' : NoOverflow (volumeOfRows builderAddr window rows' checkpointTs)) :
    ∃ volume, volumeOfRows builderAddr window rows checkpointTs = .ok volume ∧
      volumeOfRows builderAddr window rows' checkpointTs = .ok volume := by
  -- both return no row, or both visit their rows
  have hempty : rows'.isEmpty = rows.isEmpty := by
    rw [Bool.eq_iff_iff, List.isEmpty_iff, List.isEmpty_iff]
    exact ⟨fun he => (he ▸ hperm).eq_nil, fun he => (he ▸ hperm.symm).eq_nil⟩
  unfold volumeOfRows at h h' ⊢
  rw [hempty] at h' ⊢
  by_cases hrows : rows.isEmpty = true
  · simp only [if_pos hrows]
    exact ⟨none, rfl, rfl⟩
  · simp only [if_neg hrows] at h h' ⊢
    -- neither visit overflows, so both return, and they return the same row
    obtain ⟨row, hrow⟩ := FailsByOverflow.returns
      (failsByOverflow_builderVolumeRow builderAddr window rows checkpointTs) (.of_bind h)
    obtain ⟨row', hrow'⟩ := FailsByOverflow.returns
      (failsByOverflow_builderVolumeRow builderAddr window rows' checkpointTs) (.of_bind h')
    rw [hrow, hrow', ← builderVolumeRow_perm hperm hrow hrow']
    exact ⟨some row, rfl, rfl⟩

/-- The RocksDB engine's volume is that of the rows which the scan of the builder finds. -/
theorem RocksDb.getBuilderCodeVolume_of_scan (hText : ∀ op ∈ ops, op.TextOk)
    (hjson : ∀ op ∈ ops, json.RoundTrips op) {builderAddr : String}
    {rows : List BuilderAttributionRow}
    (hscan : (afterRun json ops).scanBuilderCodeFills json builderAddr .max = .ok rows)
    (window : TimeWindow) :
    (afterRun json ops).getBuilderCodeVolume json builderAddr window =
      volumeOfRows builderAddr window rows (latestTimestamp
        ((MemoryEngine.empty.run ops).checkpoints.values.map
          IngestCheckpoint.lastProcessedTimestampUs)) := by
  unfold RocksDb.getBuilderCodeVolume
  rw [hscan, latestCheckpointTimestampUs_agrees hText hjson]
  rfl

/-- The engines agree on the volume of one builder, where neither overflows. -/
theorem getBuilderCodeVolume_agrees (hText : ∀ op ∈ ops, op.TextOk)
    (hjson : ∀ op ∈ ops, json.RoundTrips op) (hdistinct : BuildersDistinct ops)
    {builderAddr : String} (hBuilder : Key.TextOk builderAddr) (window : TimeWindow)
    (hmemory : NoOverflow ((MemoryEngine.empty.run ops).getBuilderCodeVolume builderAddr window))
    (hrocks : NoOverflow ((afterRun json ops).getBuilderCodeVolume json builderAddr window)) :
    ∃ volume, (MemoryEngine.empty.run ops).getBuilderCodeVolume builderAddr window = .ok volume ∧
      (afterRun json ops).getBuilderCodeVolume json builderAddr window = .ok volume := by
  set memoryRows := (MemoryEngine.empty.run ops).builderAttributionsByFill.values.filter
    (fun row => row.builderAddr == builderAddr) with hmemoryRows
  set rocksRows := sortOn BuilderAttributionRow.scanKey (builderRows ops builderAddr)
    with hrocksRows
  set checkpointTs := latestTimestamp ((MemoryEngine.empty.run ops).checkpoints.values.map
    IngestCheckpoint.lastProcessedTimestampUs) with hcheckpointTs
  -- the engines hold the same attributions and list them in different orders
  have hperm : memoryRows.Perm rocksRows :=
    ((builderAttributions_values_perm hdistinct).filter _).trans (sortOn_perm _ _).symm
  have hm : (MemoryEngine.empty.run ops).getBuilderCodeVolume builderAddr window =
      volumeOfRows builderAddr window memoryRows checkpointTs := rfl
  have hr : (afterRun json ops).getBuilderCodeVolume json builderAddr window =
      volumeOfRows builderAddr window rocksRows checkpointTs :=
    RocksDb.getBuilderCodeVolume_of_scan hText hjson
      (RocksDb.scanBuilderCodeFills_eq hText hjson hdistinct hBuilder .max) window
  rw [hm] at hmemory ⊢
  rw [hr] at hrocks ⊢
  exact volumeOfRows_perm hperm hmemory hrocks

/-- The prefix of a builder that cannot be in a key is not built. -/
theorem RocksDb.getBuilderCodeVolume_panics (db : RocksDb) (json : SerdeJson)
    {builderAddr : String} (h : ¬ Key.TextOk builderAddr) (window : TimeWindow) :
    db.getBuilderCodeVolume json builderAddr window = .error Key.separatorPanic := by
  have hpanic := Key.assertTextSegments_panic (List.mem_singleton_self builderAddr) h
  simp [RocksDb.getBuilderCodeVolume, RocksDb.scanBuilderCodeFills, RocksDb.scanPrefix,
    Key.builderCodeFillsPrefix, hpanic, bind, Except.bind]

/-- No volume is looked up under a text that cannot be in a key: the RocksDB engine refuses to
build the prefix, and the memory engine holds no row of such a builder. -/
theorem getBuilderCodeVolume_of_not_textOk (hText : ∀ op ∈ ops, op.TextOk) {builderAddr : String}
    (h : ¬ Key.TextOk builderAddr) (window : TimeWindow) :
    (MemoryEngine.empty.run ops).getBuilderCodeVolume builderAddr window = .ok none ∧
      (afterRun json ops).getBuilderCodeVolume json builderAddr window =
        .error Key.separatorPanic := by
  refine ⟨?_, RocksDb.getBuilderCodeVolume_panics _ json h window⟩
  -- RocksDB never stored such a builder, so that no operation of the history has it
  have hnone : (MemoryEngine.empty.run ops).builderAttributionsByFill.values.filter
      (fun row => row.builderAddr == builderAddr) = [] := by
    rw [List.filter_eq_nil_iff, MemoryEngine.builderAttributionsByFill_run]
    intro row hrow he
    obtain ⟨p, hp, rfl⟩ := List.mem_map.1 hrow
    obtain ⟨row, hop, rfl⟩ :=
      MemoryEngine.mem_builderEntries (SortedMap.mem_of_mem_ofList hp)
    exact h (beq_iff_eq.1 he ▸ hText _ hop _ (by simp [PutOp.keyTexts]))
  unfold MemoryEngine.getBuilderCodeVolume
  rw [hnone]
  rfl

/-- **Volume agreement.** After any history of operations with admissible texts in which no two
attributions share their builder and fill, both engines return the same volume row for
every builder and window, unless an `i128` overflows in one of them. -/
theorem builderCodeVolume_agrees (hText : ∀ op ∈ ops, op.TextOk)
    (hjson : ∀ op ∈ ops, json.RoundTrips op) (hdistinct : BuildersDistinct ops) :
    ∃ db memory, RocksDb.exec (RocksDb.run json ops) .empty = (.ok (), db) ∧
      MemoryEngine.empty.run ops = memory ∧
      (∀ builderAddr window, Key.TextOk builderAddr →
        NoOverflow (memory.getBuilderCodeVolume builderAddr window) →
        NoOverflow (db.getBuilderCodeVolume json builderAddr window) →
        ∃ volume, memory.getBuilderCodeVolume builderAddr window = .ok volume ∧
          db.getBuilderCodeVolume json builderAddr window = .ok volume) ∧
      ∀ builderAddr window, ¬ Key.TextOk builderAddr →
        memory.getBuilderCodeVolume builderAddr window = .ok none ∧
          db.getBuilderCodeVolume json builderAddr window = .error Key.separatorPanic :=
  ⟨_, _, RocksDb.exec_run_empty json hText, rfl,
    fun _ window hBuilder => getBuilderCodeVolume_agrees hText hjson hdistinct hBuilder window,
    fun _ window h => getBuilderCodeVolume_of_not_textOk hText h window⟩

/-- Attributions of one builder in two markets, of different scales and signs. -/
def attributionOps : List PutOp :=
  let attribution (fillId marketId notional : String) (timestampUs : UInt64) :
      BuilderAttributionRow :=
    { builderAddr := "0xb", marketId := marketId, account := "0xa", version := 7,
      eventIdx := 0, fillId := fillId, notional := some notional, builderFeeBps := none,
      estimatedFeeAmount := none, timestampUs := timestampUs }
  [.putBuilderAttribution (attribution "1" "ETH" "10.50" 5),
    .putBuilderAttribution (attribution "2" "BTC" "-0.001" 5),
    .putIngestCheckpoint
      { network := .mainnet, packageAddress := "0x50", datasetId := none,
        lastProcessedVersion := 7, lastProcessedTimestampUs := 9, eventsIndexed := 2,
        fillsIndexed := 0, builderAttributionsIndexed := 3 },
    .putBuilderAttribution (attribution "3" "BTC" "4" 6)]

theorem builderCodeVolume_agrees_attributionOps :
    ∃ db memory,
      RocksDb.exec (RocksDb.run (.ofOps attributionOps) attributionOps) .empty = (.ok (), db) ∧
      MemoryEngine.empty.run attributionOps = memory ∧
      (∀ builderAddr window, Key.TextOk builderAddr →
        NoOverflow (memory.getBuilderCodeVolume builderAddr window) →
        NoOverflow (db.getBuilderCodeVolume (.ofOps attributionOps) builderAddr window) →
        ∃ volume, memory.getBuilderCodeVolume builderAddr window = .ok volume ∧
          db.getBuilderCodeVolume (.ofOps attributionOps) builderAddr window = .ok volume) ∧
      ∀ builderAddr window, ¬ Key.TextOk builderAddr →
        memory.getBuilderCodeVolume builderAddr window = .ok none ∧
          db.getBuilderCodeVolume (.ofOps attributionOps) builderAddr window =
            .error Key.separatorPanic :=
  @builderCodeVolume_agrees attributionOps (.ofOps attributionOps) (by decide +kernel)
    (by decide +kernel) (by decide)

end HotIndex
