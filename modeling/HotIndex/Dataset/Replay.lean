import HotIndex.Dataset.Manifest
import HotIndex.Ingest.TakenEvents
import HotIndex.Storage.MemoryEngine

/-!
# Replay

`replay_into_engine` puts the rows of a dataset artifact by artifact and ends with an
ingest checkpoint. The memory engine keeps fills by id alone, so a replay loses a fill
exactly when two rows share an id (`replay_keeps_fills_iff`).
-/

namespace HotIndex

open Lib

/-- `dataset_last_processed_timestamp_us` -/
def datasetLastProcessedTimestampUs (rows : ParserOutput) : UInt64 :=
  let maxTs : UInt64 → List UInt64 → UInt64 := List.foldl max
  let ts := maxTs 0 (rows.txs.map TxRow.blockTimestampUs)
  let ts := maxTs ts (rows.events.map NormalizedEvent.blockTimestampUs)
  let ts := maxTs ts (rows.fills.map FillRow.timestampUs)
  let ts := maxTs ts (rows.orders.map OrderRow.timestampUs)
  let ts := maxTs ts (rows.positions.map PositionRow.timestampUs)
  let ts := maxTs ts (rows.builderRows.map BuilderAttributionRow.timestampUs)
  maxTs ts (rows.activityRows.map ActivityRow.timestampUs)

namespace NormalizedDataset

/-- The checkpoint that replay ends with. -/
def checkpoint (dataset : NormalizedDataset) : IngestCheckpoint where
  network := dataset.manifest.network
  packageAddress := dataset.manifest.packageAddress
  datasetId := some dataset.manifest.datasetId
  lastProcessedVersion := dataset.manifest.endVersion.getD dataset.manifest.startVersion
  lastProcessedTimestampUs := datasetLastProcessedTimestampUs dataset.rows
  eventsIndexed := dataset.manifest.decibelEventCount
  fillsIndexed := dataset.manifest.fillCount
  builderAttributionsIndexed := dataset.manifest.builderCodeRowCount

/-- The operations of `replay_into_engine` on a dataset that passes its manifest checks. -/
def replayOps (dataset : NormalizedDataset) : List PutOp :=
  dataset.rows.txs.map .putTx ++ dataset.rows.events.map .putEvent ++
    dataset.rows.fills.map .putFill ++ dataset.rows.orders.map .putOrder ++
    dataset.rows.positions.map .putPosition ++
    dataset.rows.builderRows.map .putBuilderAttribution ++
    dataset.rows.activityRows.map .putActivity ++ [.putIngestCheckpoint dataset.checkpoint]

/-- `replay_into_memory` -/
def replayIntoMemory (dataset : NormalizedDataset) : MemoryEngine :=
  MemoryEngine.empty.run dataset.replayOps

/-! ## What replay puts where -/

section Maps

variable (dataset : NormalizedDataset)

theorem txEntries_replayOps :
    dataset.replayOps.filterMap MemoryEngine.txEntry =
      dataset.rows.txs.map (fun tx => (tx.version, tx)) := by
  simp [replayOps, List.filterMap_append, List.filterMap_map, Function.comp_def,
    MemoryEngine.txEntry]

theorem eventEntries_replayOps :
    dataset.replayOps.filterMap MemoryEngine.eventEntry =
      dataset.rows.events.map (fun event => (toLex (event.version, event.eventIdx), event)) := by
  simp [replayOps, List.filterMap_append, List.filterMap_map, Function.comp_def,
    MemoryEngine.eventEntry]

theorem orderEntries_replayOps :
    dataset.replayOps.filterMap MemoryEngine.orderEntry =
      dataset.rows.orders.map (fun order => ((⟨order.orderId⟩ : Text), order)) := by
  simp [replayOps, List.filterMap_append, List.filterMap_map, Function.comp_def,
    MemoryEngine.orderEntry]

theorem positionEntries_replayOps :
    dataset.replayOps.filterMap MemoryEngine.positionEntry =
      dataset.rows.positions.map (fun position => (position.key, position)) := by
  simp [replayOps, List.filterMap_append, List.filterMap_map, Function.comp_def,
    MemoryEngine.positionEntry]

theorem fillEntries_replayOps :
    dataset.replayOps.filterMap MemoryEngine.fillEntry =
      dataset.rows.fills.map (fun fill => ((⟨fill.fillId⟩ : Text), fill)) := by
  simp [replayOps, List.filterMap_append, List.filterMap_map, Function.comp_def,
    MemoryEngine.fillEntry, PutOp.fill?]

end Maps

/-- Events at distinct places are all counted. -/
theorem eventCount_replay_of_nodup {dataset : NormalizedDataset}
    (h : (dataset.rows.events.map (fun event => toLex (event.version, event.eventIdx))).Nodup) :
    dataset.replayIntoMemory.stats.eventCount = dataset.manifest.decibelEventCount := by
  unfold replayIntoMemory MemoryEngine.stats
  rw [MemoryEngine.eventsByVersionIdx_run, eventEntries_replayOps, dataset.decibelEventCount_eq]
  simp only
  rw [(SortedMap.size_ofList_eq_length_iff _).2, List.length_map]
  rw [List.map_map]
  exact h

/-! ## Fills under the memory engine -/

theorem mem_scanAccountFills_max (engine : MemoryEngine) (account : String) (fill : FillRow) :
    fill ∈ engine.scanAccountFills account .max ↔
      fill ∈ engine.fillsById.values ∧ fill.account = account := by
  unfold MemoryEngine.scanAccountFills MemoryEngine.sortFillsRecentFirst
  show fill ∈ sortOn _ _ ↔ _
  rw [(sortOn_perm _ _).mem_iff, List.mem_filter, beq_iff_eq]

theorem mem_scanMarketFills_max (engine : MemoryEngine) (marketId : String) (fill : FillRow) :
    fill ∈ engine.scanMarketFills marketId .max ↔
      fill ∈ engine.fillsById.values ∧ fill.marketId = marketId := by
  unfold MemoryEngine.scanMarketFills MemoryEngine.sortFillsRecentFirst
  show fill ∈ sortOn _ _ ↔ _
  rw [(sortOn_perm _ _).mem_iff, List.mem_filter, beq_iff_eq]

theorem fillsById_replay (dataset : NormalizedDataset) :
    dataset.replayIntoMemory.fillsById = SortedMap.ofList
      (dataset.rows.fills.map (fun fill => ((⟨fill.fillId⟩ : Text), fill))) := by
  unfold replayIntoMemory
  rw [MemoryEngine.fillsById_run, fillEntries_replayOps]

/-- **No fill is lost** in a replay into the memory engine, exactly when the fills of the
dataset have distinct ids. -/
theorem replay_keeps_fills_iff (dataset : NormalizedDataset)
    (hlen : dataset.rows.fills.length < UInt64.size) :
    ((∀ fill ∈ dataset.rows.fills,
        fill ∈ dataset.replayIntoMemory.scanAccountFills fill.account .max ∧
        fill ∈ dataset.replayIntoMemory.scanMarketFills fill.marketId .max) ∧
      dataset.replayIntoMemory.stats.fillCount = dataset.manifest.fillCount) ↔
    (dataset.rows.fills.map FillRow.fillId).Nodup := by
  set rows := dataset.rows.fills with hrows
  set l := rows.map (fun fill => ((⟨fill.fillId⟩ : Text), fill)) with hl
  have hmap : dataset.replayIntoMemory.fillsById = SortedMap.ofList l := fillsById_replay dataset
  have hkeys : (l.map Prod.fst).Nodup ↔ (rows.map FillRow.fillId).Nodup := by
    rw [hl, List.map_map, List.Nodup, List.Nodup, List.pairwise_map, List.pairwise_map]
    simp
  have hlength : l.length = rows.length := by simp [hl]
  have hsize : (SortedMap.ofList l).size ≤ rows.length :=
    hlength ▸ SortedMap.size_ofList_le l
  -- the counts agree exactly when the map has one entry for each fill, that is, no id repeats
  have hcount : dataset.replayIntoMemory.stats.fillCount = dataset.manifest.fillCount ↔
      (SortedMap.ofList l).size = l.length := by
    rw [dataset.fillCount_eq, MemoryEngine.stats, hmap, hlength]
    exact ofNat_eq_ofNat_iff (hsize.trans_lt hlen) hlen
  rw [hcount, SortedMap.size_ofList_eq_length_iff, hkeys, and_iff_right_iff_imp]
  intro hnodup fill hfill
  have hmem : fill ∈ dataset.replayIntoMemory.fillsById.values := by
    rw [hmap]
    refine List.mem_map.2 ⟨(⟨fill.fillId⟩, fill), ?_, rfl⟩
    exact (SortedMap.mem_ofList_of_nodup (hkeys.2 hnodup) _).2 (List.mem_map_of_mem hfill)
  exact ⟨(mem_scanAccountFills_max _ _ _).2 ⟨hmem, rfl⟩,
    (mem_scanMarketFills_max _ _ _).2 ⟨hmem, rfl⟩⟩

/-! ## Two sides of one trade -/

/-- A local parser run: both addresses are zero, so every event is a Decibel event. -/
def localOptions : ParserOptions where
  network := .localnet
  datasetId := ⟨"local"⟩
  packageAddress := zeroAddress
  orderbookAddress := zeroAddress

/-- A transaction with the trade events of both accounts of trade `t1`. -/
def tradeLine : JsonValue :=
  let tradeEvent (account : String) : JsonValue := .object [
    ("data", .object [("account", .string account), ("market", .string "BTC"),
      ("trade_id", .string "t1")]),
    ("type", .string "TradeEvent")]
  .object [("events", .array [tradeEvent "0xa", tradeEvent "0xb"]),
    ("version", .number (.posInt 7))]

/-- The fill of one side of the trade. -/
def tradeFill (account : String) (eventIdx : UInt32) : FillRow where
  version := 7
  eventIdx := eventIdx
  fillId := "t1"
  marketId := "BTC"
  account := account
  subaccount := none
  orderId := none
  side := none
  price := "0"
  size := "0"
  notional := none
  builderAddr := none
  builderFeeBps := none
  timestampUs := 0
  rawEventType := "TradeEvent"

/-- A dataset with just the two fills. -/
def tradeDataset : NormalizedDataset :=
  fixtureDataset localOptions { fills := [tradeFill "0xa" 0, tradeFill "0xb" 1] } .empty

theorem replay_keeps_fills_iff_tradeDataset :
    ((∀ fill ∈ tradeDataset.rows.fills,
        fill ∈ tradeDataset.replayIntoMemory.scanAccountFills fill.account .max ∧
        fill ∈ tradeDataset.replayIntoMemory.scanMarketFills fill.marketId .max) ∧
      tradeDataset.replayIntoMemory.stats.fillCount = tradeDataset.manifest.fillCount) ↔
    (tradeDataset.rows.fills.map FillRow.fillId).Nodup :=
  replay_keeps_fills_iff tradeDataset (by decide)

/-- The parser makes two fills of the trade, and the replay keeps the second. -/
theorem replay_loses_fill_tradeLine :
    ∃ rows fill,
      parseFixtureJsonlStr (.ofTexts [(tradeLine.text, tradeLine)]) localOptions
        tradeLine.text = .ok rows ∧
      fill ∈ rows.fills ∧
      fill ∉ (fixtureDataset localOptions rows .empty).replayIntoMemory.scanAccountFills
        fill.account .max := by
  obtain ⟨hlines, htrim⟩ := @splitLines_text tradeLine (by decide +kernel) (by decide +kernel)
  have hvalue : (JsonText.ofTexts [(tradeLine.text, tradeLine)]).fromStr tradeLine.text =
      .ok tradeLine := by
    simp [JsonText.ofTexts]
  -- the zero address is long; a short one that matches the same events evaluates
  have hsame : localOptions.SameEvents localOptions.shortZeros :=
    ParserOptions.sameEvents_shortZeros rfl rfl
  have hparse : (parseFixtureJsonlStr (.ofTexts [(tradeLine.text, tradeLine)]) localOptions
      tradeLine.text).map ParserOutput.fills = .ok [tradeFill "0xa" 0, tradeFill "0xb" 1] := by
    rw [parseFixtureJsonlStr_line _ _ hlines htrim hvalue, hsame.parseFixtureLine_eq]
    decide +kernel
  cases hrows : parseFixtureJsonlStr (.ofTexts [(tradeLine.text, tradeLine)]) localOptions
      tradeLine.text with
  | error error =>
    rw [hrows] at hparse
    cases hparse
  | ok rows =>
    rw [hrows] at hparse
    -- both sides of the trade have one fill id, and the map keeps the later one
    have hfills : rows.fills = [tradeFill "0xa" 0, tradeFill "0xb" 1] := Except.ok.inj hparse
    refine ⟨rows, tradeFill "0xa" 0, rfl, by simp [hfills], ?_⟩
    rw [mem_scanAccountFills_max, fillsById_replay]
    show ¬ (_ ∈ (SortedMap.ofList (rows.fills.map _)).values ∧ _)
    rw [hfills]
    decide +kernel

end NormalizedDataset

end HotIndex
