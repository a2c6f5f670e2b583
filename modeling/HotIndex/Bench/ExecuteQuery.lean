import HotIndex.Bench.WarmUp
import HotIndex.Dataset.QueryCorpus
import HotIndex.Storage.Hits

/-!
# Executing the Query Corpus

`execute_query` of the benchmark fails on a query that finds nothing. The corpus of a dataset
asks only for what the dataset holds (`CorpusRecord`): each step of `build_query_corpus`
keeps this of the records it has and of the versions it has seen. An engine that finds what
was put (`StorageReads.Hits`) therefore executes every record, as long as no volume overflows
(`queryCorpus_hits`).
-/

namespace HotIndex

open Lib

/-! ## Executing a query -/

def configError (message : String) : Fault := .error (.config message)

/-- `required` -/
def required (value : Option String) (name : String) : Except Fault String :=
  match value with
  | some value => .ok value
  | none => .error (configError s!"missing query field: {name}")

/-- `positive_limit` -/
def positiveLimit (record : QueryCorpusRecord) : Except Fault Limit :=
  let limit := record.limit.getD 100
  if limit = 0 then .error (configError "query corpus record limit must be greater than zero")
  else .ok (.rows limit)

/-- A scan that must find a row. -/
def expectRows {α : Type} (rows : List α) (message : String) : Except Fault Unit :=
  if rows.isEmpty then .error (configError message) else .ok ()

/-- A lookup that must find a row. -/
def expectRow {α : Type} (row : Option α) (message : String) : Except Fault Unit :=
  match row with
  | some _ => .ok ()
  | none => .error (configError message)

/-- The first five versions without a row. -/
def missingVersions (versions : List UInt64) (rows : List (Option TxRow)) : List String :=
  ((versions.zip rows).filterMap (fun (version, row) =>
    if row.isNone then some (toString version) else none)).take 5

/-- `execute_query` -/
def executeQuery (engine : StorageReads) (record : QueryCorpusRecord) : Except Fault Unit :=
  match record.queryKind with
  | .getTxByVersion =>
    match record.txVersion with
    | none => .error (configError "get_tx_by_version missing tx_version")
    | some version => do
      expectRow (← engine.getTx version)
        s!"get_tx_by_version returned no row for version {version}"
  | .multiGetTxVersions =>
    if record.txVersions.isEmpty then
      .error (configError "multi_get_tx_versions missing tx_versions")
    else do
      let rows ← engine.multiGetTxs record.txVersions
      let missing := missingVersions record.txVersions rows
      if missing ≠ [] ∨ rows.length ≠ record.txVersions.length then
        .error (configError ("multi_get_tx_versions returned missing rows for versions " ++
          String.intercalate "," missing))
      else .ok ()
  | .marketFillScan => do
    let marketId ← required record.marketId "market_id"
    let rows ← engine.scanMarketFills marketId (← positiveLimit record)
    expectRows rows s!"scan_market_fills returned no rows for market_id {marketId}"
  | .accountFillScan => do
    let account ← required record.account "account"
    let rows ← engine.scanAccountFills account (← positiveLimit record)
    expectRows rows s!"scan_account_fills returned no rows for account {account}"
  | .builderCodeFillScan => do
    let builderAddr ← required record.builderAddr "builder_addr"
    let rows ← engine.scanBuilderCodeFills builderAddr (← positiveLimit record)
    expectRows rows s!"scan_builder_code_fills returned no rows for builder_addr {builderAddr}"
  | .builderCodeVolume => do
    let builderAddr ← required record.builderAddr "builder_addr"
    expectRow (← engine.getBuilderCodeVolume builderAddr .h24)
      s!"get_builder_code_volume returned no row for builder_addr {builderAddr}"
  | .mixedDashboard =>
    .error (configError ("mixed_dashboard query_kind is not directly executable; expand it " ++
      "into concrete query records"))

/-! ## What the corpus asks for -/

/-- The queries of a corpus: they name a version, a market, an account or a builder of the
rows, and carry the fields that their kind requires. -/
inductive CorpusRecord (rows : QueryCorpusRows) : QueryCorpusRecord → Prop
  | point (tx : TxRow) (htx : tx ∈ rows.txs) :
      CorpusRecord rows { queryKind := .getTxByVersion, txVersion := some tx.version }
  | multi (versions : List UInt64) (hne : versions ≠ [])
      (hversions : ∀ version ∈ versions, ∃ tx ∈ rows.txs, tx.version = version) :
      CorpusRecord rows { queryKind := .multiGetTxVersions, txVersions := versions }
  | market (fill : FillRow) (hfill : fill ∈ rows.fills) :
      CorpusRecord rows
        { queryKind := .marketFillScan, marketId := some fill.marketId, limit := some 100 }
  | account (fill : FillRow) (hfill : fill ∈ rows.fills) :
      CorpusRecord rows
        { queryKind := .accountFillScan, account := some fill.account, limit := some 100 }
  | builderScan (row : BuilderAttributionRow) (hrow : row ∈ rows.builderRows) :
      CorpusRecord rows { queryKind := .builderCodeFillScan,
                          builderAddr := some row.builderAddr, limit := some 100 }
  | builderVolume (row : BuilderAttributionRow) (hrow : row ∈ rows.builderRows) :
      CorpusRecord rows { queryKind := .builderCodeVolume, builderAddr := some row.builderAddr }

/-- What every step of `build_query_corpus` keeps. -/
structure CorpusState.Asks (rows : QueryCorpusRows) (st : CorpusState) : Prop where
  corpus : ∀ record ∈ st.corpus, CorpusRecord rows record
  seenVersions : ∀ version ∈ st.seenVersions, ∃ tx ∈ rows.txs, tx.version = version

namespace CorpusState.Asks

variable {rows : QueryCorpusRows} {st : CorpusState}

theorem pushVersion (h : st.Asks rows) {tx : TxRow} (htx : tx ∈ rows.txs) :
    (st.pushVersion tx.version).Asks rows := by
  unfold CorpusState.pushVersion
  split_ifs
  · exact h
  · refine ⟨List.forall_mem_append.2 ⟨h.corpus, ?_⟩, List.forall_mem_cons.2 ⟨?_, h.seenVersions⟩⟩
    · rw [List.forall_mem_singleton]
      exact .point tx htx
    · exact ⟨tx, htx, rfl⟩

theorem pushMarket (h : st.Asks rows) {fill : FillRow} (hfill : fill ∈ rows.fills) :
    (st.pushMarket fill.marketId).Asks rows := by
  unfold CorpusState.pushMarket
  split_ifs
  · exact h
  · refine ⟨List.forall_mem_append.2 ⟨h.corpus, ?_⟩, h.seenVersions⟩
    rw [List.forall_mem_singleton]
    exact .market fill hfill

theorem pushAccount (h : st.Asks rows) {fill : FillRow} (hfill : fill ∈ rows.fills) :
    (st.pushAccount fill.account).Asks rows := by
  unfold CorpusState.pushAccount
  split_ifs
  · exact h
  · refine ⟨List.forall_mem_append.2 ⟨h.corpus, ?_⟩, h.seenVersions⟩
    rw [List.forall_mem_singleton]
    exact .account fill hfill

theorem pushBuilder (h : st.Asks rows) {row : BuilderAttributionRow}
    (hrow : row ∈ rows.builderRows) : (st.pushBuilder row.builderAddr).Asks rows := by
  unfold CorpusState.pushBuilder
  split_ifs
  · exact h
  · refine ⟨List.forall_mem_append.2 ⟨h.corpus, ?_⟩, h.seenVersions⟩
    rw [List.forall_mem_cons, List.forall_mem_singleton]
    exact ⟨.builderScan row hrow, .builderVolume row hrow⟩

theorem pushVersions (h : st.Asks rows) : ∀ record ∈ st.pushVersions, CorpusRecord rows record := by
  unfold CorpusState.pushVersions
  dsimp only
  split_ifs with hempty
  · exact h.corpus
  · rw [List.forall_mem_append, List.forall_mem_singleton]
    refine ⟨h.corpus, ?_⟩
    -- the versions asked for together are among those seen one by one
    refine .multi _ (by simpa using hempty) (fun version hversion => ?_)
    exact h.seenVersions version (mem_sortOn.1 (List.mem_of_mem_take hversion))

end CorpusState.Asks

/-- The corpus asks for what the rows hold, where events come with transactions. -/
theorem corpusRecord_of_mem {rows : QueryCorpusRows}
    (hevents : rows.events ≠ [] → rows.txs ≠ []) {record : QueryCorpusRecord}
    (h : record ∈ buildQueryCorpus rows) : CorpusRecord rows record := by
  have htxs : (rows.txs.foldl (fun st tx => st.pushVersion tx.version)
      ({} : CorpusState)).Asks rows := by
    apply List.foldlRecOn (motive := fun st : CorpusState => st.Asks rows)
    · exact ⟨by simp, by simp⟩
    · exact fun st hst tx htx => hst.pushVersion htx
  unfold buildQueryCorpus at h
  dsimp only at h
  -- versions of events are only asked for when no transaction is there
  have hnone : (if rows.txs.isEmpty then
      rows.events.foldl (fun st event => st.pushVersion event.version)
        (rows.txs.foldl (fun st tx => st.pushVersion tx.version) ({} : CorpusState))
    else rows.txs.foldl (fun st tx => st.pushVersion tx.version) ({} : CorpusState)) =
      rows.txs.foldl (fun st tx => st.pushVersion tx.version) ({} : CorpusState) := by
    split_ifs with hempty
    · -- without transactions there are no events either
      have hnil : rows.events = [] := by
        by_contra hne
        exact hevents hne (List.isEmpty_iff.1 hempty)
      rw [hnil, List.foldl_nil]
    · rfl
  rw [hnone] at h
  refine CorpusState.Asks.pushVersions ?_ record h
  apply List.foldlRecOn (motive := fun st : CorpusState => st.Asks rows)
  · apply List.foldlRecOn (motive := fun st : CorpusState => st.Asks rows)
    · exact htxs
    · exact fun st hst fill hfill => (hst.pushMarket hfill).pushAccount hfill
  · exact fun st hst row hrow => hst.pushBuilder hrow

/-! ## Hits -/

/-- The operations put the rows that the corpus is built from. -/
structure QueryCorpusRows.PutBy (rows : QueryCorpusRows) (ops : List PutOp) : Prop where
  txs : ∀ tx ∈ rows.txs, .putTx tx ∈ ops
  fills : ∀ fill ∈ rows.fills, .putFill fill ∈ ops
  builderRows : ∀ row ∈ rows.builderRows, .putBuilderAttribution row ∈ ops

/-- No builder's volume overflows. -/
def VolumesFit (engine : StorageReads) (rows : List BuilderAttributionRow) : Prop :=
  ∀ row ∈ rows, NoOverflow (engine.getBuilderCodeVolume row.builderAddr .h24)

theorem missingVersions_of_found {versions : List UInt64} (rows : List TxRow) :
    missingVersions versions (rows.map some) = [] := by
  unfold missingVersions
  rw [List.filterMap_eq_nil_iff.2, List.take_nil]
  intro pair hpair
  obtain ⟨row, -, hrow⟩ := List.mem_map.1 (List.of_mem_zip hpair).2
  simp [← hrow]

theorem expectRows_ok {α : Type} {rows : List α} (h : rows ≠ []) (message : String) :
    expectRows rows message = .ok () := by
  simp [expectRows, h]

theorem positiveLimit_hundred {record : QueryCorpusRecord} (h : record.limit = some 100) :
    positiveLimit record = .ok (.rows 100) := by
  simp [positiveLimit, h]

/-- An engine with the rows of the corpus executes each of its records. -/
theorem executeQuery_ok {engine : StorageReads} {ops : List PutOp} {rows : QueryCorpusRows}
    (hhits : engine.Hits ops) (hput : rows.PutBy ops) (hfit : VolumesFit engine rows.builderRows)
    {record : QueryCorpusRecord} (h : CorpusRecord rows record) :
    executeQuery engine record = .ok () := by
  have hlimit : Limit.rows 100 ≠ .rows 0 := by decide
  cases h with
  | point tx htx =>
    obtain ⟨row, hrow⟩ := hhits.getTx tx (hput.txs tx htx)
    exact bind_eq_ok_iff.2 ⟨_, hrow, rfl⟩
  | multi versions hne hversions =>
    obtain ⟨found, hfound, hlength⟩ := hhits.multiGetTxs versions (fun version hversion => by
      obtain ⟨tx, htx, hversion⟩ := hversions version hversion
      exact ⟨tx, hput.txs tx htx, hversion⟩)
    -- every version has its row, so none is missing
    have hempty : versions.isEmpty = false := by simpa using hne
    simp only [executeQuery, hempty]
    refine bind_eq_ok_iff.2 ⟨_, hfound, ?_⟩
    rw [missingVersions_of_found, List.length_map, hlength]
    simp
  | market fill hfill =>
    obtain ⟨found, hfound, hne⟩ := hhits.scanMarketFills fill (hput.fills fill hfill) _ hlimit
    exact bind_eq_ok_iff.2 ⟨_, rfl, bind_eq_ok_iff.2 ⟨_, positiveLimit_hundred rfl,
      bind_eq_ok_iff.2 ⟨_, hfound, expectRows_ok hne _⟩⟩⟩
  | account fill hfill =>
    obtain ⟨found, hfound, hne⟩ := hhits.scanAccountFills fill (hput.fills fill hfill) _ hlimit
    exact bind_eq_ok_iff.2 ⟨_, rfl, bind_eq_ok_iff.2 ⟨_, positiveLimit_hundred rfl,
      bind_eq_ok_iff.2 ⟨_, hfound, expectRows_ok hne _⟩⟩⟩
  | builderScan row hrow =>
    obtain ⟨found, hfound, hne⟩ :=
      hhits.scanBuilderCodeFills row (hput.builderRows row hrow) _ hlimit
    exact bind_eq_ok_iff.2 ⟨_, rfl, bind_eq_ok_iff.2 ⟨_, positiveLimit_hundred rfl,
      bind_eq_ok_iff.2 ⟨_, hfound, expectRows_ok hne _⟩⟩⟩
  | builderVolume row hrow =>
    obtain ⟨volume, hvolume⟩ :=
      hhits.getBuilderCodeVolume row (hput.builderRows row hrow) .h24 (hfit row hrow)
    exact bind_eq_ok_iff.2 ⟨_, rfl, bind_eq_ok_iff.2 ⟨_, hvolume, rfl⟩⟩

/-! ## The corpus of a dataset -/

/-- The rows that `build_query_corpus` is given. -/
def IngestRows.queryRows (rows : IngestRows) : QueryCorpusRows where
  txs := rows.txs
  events := rows.events
  fills := rows.fills
  builderRows := rows.builderRows

namespace IngestDataset

variable (dataset : IngestDataset)

theorem fills_replayOps : dataset.replayOps.filterMap PutOp.fill? = dataset.rows.fills := by
  simp [replayOps, IngestRows.ops, List.filterMap_append, List.filterMap_map, Function.comp_def,
    PutOp.fill?]

theorem queryRows_putBy : dataset.rows.queryRows.PutBy dataset.replayOps where
  txs := by
    intro tx htx
    simp only [replayOps, IngestRows.ops, List.mem_append, List.mem_map]
    exact .inl (.inl ⟨tx, htx, rfl⟩)
  fills := by
    intro fill hfill
    -- fills are known by what the history puts, not by their place in it
    apply mem_fills.1
    rw [fills_replayOps]
    exact hfill
  builderRows := by
    intro row hrow
    have hmem : PutOp.putBuilderAttribution row ∈
        dataset.rows.builderRows.map .putBuilderAttribution := List.mem_map_of_mem hrow
    simp [replayOps, IngestRows.ops, hmem]

end IngestDataset

/-- **Hit-capable corpus.** Replay a dataset whose key texts hold no `0x00`, whose fills have
distinct ids, and whose events come with transactions. Then either engine executes every
record of the dataset's corpus, unless the volume of one of its builders overflows. -/
theorem queryCorpus_hits (json : SerdeJson) (sha256 : Bytes → Bytes) {dataset : IngestDataset}
    (hText : ∀ op ∈ dataset.replayOps, op.TextOk)
    (hjson : ∀ op ∈ dataset.replayOps, json.RoundTrips op)
    (hfills : (dataset.rows.fills.map FillRow.fillId).Nodup)
    (hevents : dataset.rows.events ≠ [] → dataset.rows.txs ≠ []) :
    (∃ memory, (replayIntoEngine MemoryEngine.putM dataset).run.run .empty = (.ok (), memory) ∧
      (VolumesFit (memory.reads json sha256) dataset.rows.builderRows →
        ∀ record ∈ buildQueryCorpus dataset.rows.queryRows,
          executeQuery (memory.reads json sha256) record = .ok ())) ∧
    ∃ db, RocksDb.exec (replayIntoEngine (RocksDb.put json) dataset) .empty = (.ok (), db) ∧
      (VolumesFit (db.reads json sha256) dataset.rows.builderRows →
        ∀ record ∈ buildQueryCorpus dataset.rows.queryRows,
          executeQuery (db.reads json sha256) record = .ok ()) := by
  have hput := dataset.queryRows_putBy
  constructor
  · -- fills with one id would replace each other
    refine ⟨_, MemoryEngine.run_replayIntoEngine dataset .empty, fun hfit record hrecord => ?_⟩
    have hhits : ((MemoryEngine.empty.run dataset.replayOps).reads json sha256).Hits
        dataset.replayOps := by
      apply MemoryEngine.reads_hits
      rw [dataset.fills_replayOps]
      exact hfills
    exact executeQuery_ok hhits hput hfit (corpusRecord_of_mem hevents hrecord)
  · -- RocksDB keeps each under keys of its own
    refine ⟨RocksDb.afterRun json dataset.replayOps, ?_, fun hfit record hrecord => ?_⟩
    · rw [replayIntoEngine_eq]
      exact RocksDb.exec_run_empty json hText
    · have hhits : ((RocksDb.afterRun json dataset.replayOps).reads json sha256).Hits
          dataset.replayOps := RocksDb.reads_hits hText hjson
      exact executeQuery_ok hhits hput hfit (corpusRecord_of_mem hevents hrecord)

/-- A transaction, a fill and two attributions, of which the second replaces the first. -/
def rewrittenDataset : IngestDataset :=
  let attribution (notional : String) : BuilderAttributionRow :=
    { builderAddr := "0xb", marketId := "BTC", account := "0xa", version := 7, eventIdx := 0,
      fillId := "1", notional := some notional, builderFeeBps := none, estimatedFeeAmount := none,
      timestampUs := 5 }
  { MemoryEngine.oneFillDataset with
    rows := { MemoryEngine.oneFillDataset.rows with
      txs := [{ network := .mainnet, version := 7, txHash := "0x1", blockTimestampUs := 5,
                eventCount := 1, datasetId := none, rawSummary := none }]
      builderRows := [attribution "10.50", attribution "-2"] } }

theorem queryCorpus_hits_rewrittenDataset :
    ∃ memory db,
      (replayIntoEngine MemoryEngine.putM rewrittenDataset).run.run .empty = (.ok (), memory) ∧
      RocksDb.exec (replayIntoEngine (RocksDb.put (.ofOps rewrittenDataset.replayOps))
        rewrittenDataset) .empty = (.ok (), db) ∧
      ∀ record ∈ buildQueryCorpus rewrittenDataset.rows.queryRows,
        executeQuery (memory.reads (.ofOps rewrittenDataset.replayOps) Sha256.digest) record =
            .ok () ∧
          executeQuery (db.reads (.ofOps rewrittenDataset.replayOps) Sha256.digest) record =
            .ok () := by
  -- that a volume is computed can be decided
  have hfit : ∀ {engine : StorageReads} {rows : List BuilderAttributionRow},
      (∀ row ∈ rows, (engine.getBuilderCodeVolume row.builderAddr .h24).isOk) →
        VolumesFit engine rows := by
    intro engine rows hok row hrow fault hfault
    have := hok row hrow
    rw [hfault] at this
    cases this
  obtain ⟨⟨memory, hmemory, hmemoryHits⟩, db, hdb, hdbHits⟩ :=
    @queryCorpus_hits (.ofOps rewrittenDataset.replayOps) Sha256.digest rewrittenDataset
      (by decide +kernel) (by decide +kernel) (by decide) (by decide)
  refine ⟨memory, db, hmemory, hdb, fun record hrecord => ⟨?_, ?_⟩⟩
  · obtain rfl := congrArg Prod.snd hmemory
    exact hmemoryHits (hfit (by decide +kernel)) record hrecord
  · obtain rfl := congrArg Prod.snd hdb
    exact hdbHits (hfit (by decide +kernel)) record hrecord

end HotIndex
