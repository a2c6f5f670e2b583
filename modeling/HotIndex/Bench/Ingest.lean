import HotIndex.Dataset.Replay
import HotIndex.Storage.Reads

/-!
# Ingest Benchmark

The ingest side of `decibel-hotindex-bench`: the rows of a dataset, their replay up to a
limit, the warm-up, the measured replay that counts the operations that fail, and the
closing checkpoint. A replay up to a limit is the replay of that many operations
(`replayEach_eq`).

Latencies are not modelled.
-/

namespace HotIndex

/-- `IngestRows`: the normalized rows of a dataset. -/
structure IngestRows where
  txs : List TxRow
  events : List NormalizedEvent
  fills : List FillRow
  orders : List OrderRow
  positions : List PositionRow
  builderRows : List BuilderAttributionRow
  activityRows : List ActivityRow
  deriving DecidableEq, Repr

namespace IngestRows

/-- `total_rows` -/
def totalRows (rows : IngestRows) : Nat :=
  rows.txs.length + rows.events.length + rows.fills.length + rows.orders.length +
    rows.positions.length + rows.builderRows.length + rows.activityRows.length

/-- The files that `load` reads, as the rows a normalizer wrote to them. -/
def output (rows : IngestRows) : ParserOutput where
  txs := rows.txs
  events := rows.events
  fills := rows.fills
  orders := rows.orders
  positions := rows.positions
  builderRows := rows.builderRows
  activityRows := rows.activityRows

/-! ## Replay up to a limit -/

section ReplayEach

variable {m : Type → Type} [Monad m]

/-- `replay_rows!`: put rows until `limit` rows were seen. It returns the new count, or
nothing where the macro returns from `replay_each`. -/
def replayRows {α : Type} (limit : Nat) (observe : PutOp → m Unit) (op : α → PutOp) :
    List α → Nat → m (Option Nat)
  | [], seen => pure (some seen)
  | row :: rest, seen =>
    -- the limit is tested before a row, so a limit of zero puts nothing
    if limit ≤ seen then pure none
    else do
      observe (op row)
      replayRows limit observe op rest (seen + 1)

/-- `replay_each`: hand `observe` the operation of each row. -/
def replayEach (rows : IngestRows) (limit : Nat) (observe : PutOp → m Unit) : m Unit := do
  let some seen ← replayRows limit observe .putTx rows.txs 0 | return
  let some seen ← replayRows limit observe .putEvent rows.events seen | return
  let some seen ← replayRows limit observe .putFill rows.fills seen | return
  let some seen ← replayRows limit observe .putOrder rows.orders seen | return
  let some seen ← replayRows limit observe .putPosition rows.positions seen | return
  let some seen ← replayRows limit observe .putBuilderAttribution rows.builderRows seen | return
  let some _ ← replayRows limit observe .putActivity rows.activityRows seen | return

/-- The operations of all rows, in the order of `replay_each`. -/
def ops (rows : IngestRows) : List PutOp :=
  rows.txs.map .putTx ++ (rows.events.map .putEvent ++ (rows.fills.map .putFill ++
    (rows.orders.map .putOrder ++ (rows.positions.map .putPosition ++
      (rows.builderRows.map .putBuilderAttribution ++ rows.activityRows.map .putActivity)))))

theorem length_ops (rows : IngestRows) : rows.ops.length = rows.totalRows := by
  simp only [ops, totalRows, List.length_append, List.length_map]
  omega

variable [LawfulMonad m]

/-- The rows of one artifact and what is done behind them: together they put as many
operations as the limit still allows. -/
private theorem replayRows_bind {α : Type} (limit : Nat) (observe : PutOp → m Unit)
    (op : α → PutOp) (rest : List PutOp) {next : Option Nat → m Unit}
    (hstop : next none = pure ())
    (hnext : ∀ seen, next (some seen) = (rest.take (limit - seen)).forM observe)
    (rows : List α) (seen : Nat) :
    (replayRows limit observe op rows seen >>= next) =
      ((rows.map op ++ rest).take (limit - seen)).forM observe := by
  -- the counter of rows seen runs through all families
  induction rows generalizing seen with
  | nil =>
    rw [replayRows, pure_bind, hnext]
    rfl
  | cons row rows ih =>
    rw [replayRows]
    split_ifs with hlimit
    · rw [pure_bind, hstop, Nat.sub_eq_zero_of_le hlimit, List.take_zero]
      rfl
    · have hroom : limit - seen = limit - (seen + 1) + 1 := by omega
      rw [bind_assoc, hroom, List.map_cons, List.cons_append, List.take_succ_cons]
      simp only [ih]
      rfl

/-- **Replay.** `replay_each` observes the first `limit` operations, in order. -/
theorem replayEach_eq (rows : IngestRows) (limit : Nat) (observe : PutOp → m Unit) :
    rows.replayEach limit observe = (rows.ops.take limit).forM observe := by
  unfold replayEach ops
  -- one family after the other, the rest of the operations behind it
  apply replayRows_bind limit observe .putTx _ rfl
  intro seen
  apply replayRows_bind limit observe .putEvent _ rfl
  intro seen
  apply replayRows_bind limit observe .putFill _ rfl
  intro seen
  apply replayRows_bind limit observe .putOrder _ rfl
  intro seen
  apply replayRows_bind limit observe .putPosition _ rfl
  intro seen
  apply replayRows_bind limit observe .putBuilderAttribution _ rfl
  intro seen
  rw [← List.append_nil (rows.activityRows.map PutOp.putActivity)]
  apply replayRows_bind limit observe .putActivity _ rfl
  intro seen
  rw [List.take_nil]
  rfl

end ReplayEach

end IngestRows

/-! ## The benchmark -/

/-- A dataset directory as the benchmark reads it. -/
structure IngestDataset where
  manifest : DatasetManifest
  rows : IngestRows

/-- The checkpoint of `put_checkpoint_from_manifest`. -/
def IngestDataset.checkpoint (dataset : IngestDataset) : IngestCheckpoint where
  network := dataset.manifest.network
  packageAddress := dataset.manifest.packageAddress
  datasetId := some dataset.manifest.datasetId
  lastProcessedVersion := dataset.manifest.endVersion.getD dataset.manifest.startVersion
  lastProcessedTimestampUs := datasetLastProcessedTimestampUs dataset.rows.output
  eventsIndexed := dataset.manifest.decibelEventCount
  fillsIndexed := dataset.manifest.fillCount
  builderAttributionsIndexed := dataset.manifest.builderCodeRowCount

/-- The operations of `replay_into_engine`. -/
def IngestDataset.replayOps (dataset : IngestDataset) : List PutOp :=
  dataset.rows.ops ++ [.putIngestCheckpoint dataset.checkpoint]

/-- The counts of a `BenchResult`. -/
structure BenchResult where
  operations : UInt64
  errors : UInt64
  deriving DecidableEq, Repr

/-- `Result::is_err`. A panic is no result. -/
def resultIsErr : Except Fault Unit → Except Fault Bool
  | .ok () => .ok false
  | .error (.error _) => .ok true
  | .error (.panic message) => .error (.panic message)

/-- `op(engine).is_err()` -/
def isErr {σ : Type} (op : EngineM σ Unit) : EngineM σ Bool :=
  ExceptT.mk (resultIsErr <$> op.run)

section Engine

variable {σ : Type} (put : PutOp → EngineM σ Unit)

/-- `replay_limit`: stop at the first operation that fails. -/
def replayLimit (rows : IngestRows) (limit : Nat) : EngineM σ Unit :=
  rows.replayEach limit put

/-- `warmup_ingest` -/
def warmupIngest (rows : IngestRows) (warmup : Nat) : EngineM σ Unit :=
  replayLimit put rows (min warmup rows.totalRows)

/-- The closure of `measure_ingest`: count an operation that fails and go on. -/
def observeErrors (op : PutOp) : StateT UInt64 (EngineM σ) Unit := do
  if ← isErr (put op) then modify (· + 1)

/-- `measure_ingest` -/
def measureIngest (rows : IngestRows) (requestedIterations : Nat) : EngineM σ BenchResult := do
  let limit := min requestedIterations rows.totalRows
  let ((), errors) ← (rows.replayEach limit (observeErrors put)).run 0
  return { operations := UInt64.ofNat limit, errors := errors }

def putCheckpointFromManifest (dataset : IngestDataset) : EngineM σ Unit :=
  put (.putIngestCheckpoint dataset.checkpoint)

def replayIntoEngine (dataset : IngestDataset) : EngineM σ Unit := do
  replayLimit put dataset.rows dataset.rows.totalRows
  putCheckpointFromManifest put dataset

/-- What `run_ingest_bench` does to an engine behind its warm-up. -/
def measuredIngest (dataset : IngestDataset) (iterations : Nat) : EngineM σ BenchResult := do
  let result ← measureIngest put dataset.rows iterations
  putCheckpointFromManifest put dataset
  return result

/-- What `run_ingest_bench` does to a fresh engine. -/
def runIngestBench (dataset : IngestDataset) (warmup iterations : Nat) :
    EngineM σ BenchResult := do
  warmupIngest put dataset.rows warmup
  measuredIngest put dataset iterations

end Engine

/-- A limit past the rows is no limit. -/
theorem IngestRows.take_ops_min (rows : IngestRows) (limit : Nat) :
    rows.ops.take (min limit rows.totalRows) = rows.ops.take limit := by
  rw [← rows.length_ops, List.take_eq_take_iff]
  omega

theorem replayLimit_eq {σ : Type} (put : PutOp → EngineM σ Unit) (rows : IngestRows)
    (limit : Nat) : replayLimit put rows limit = (rows.ops.take limit).forM put :=
  rows.replayEach_eq limit put

theorem warmupIngest_eq {σ : Type} (put : PutOp → EngineM σ Unit) (rows : IngestRows)
    (warmup : Nat) : warmupIngest put rows warmup = (rows.ops.take warmup).forM put := by
  rw [warmupIngest, replayLimit_eq, rows.take_ops_min]

theorem measureIngest_eq {σ : Type} (put : PutOp → EngineM σ Unit) (rows : IngestRows)
    (iterations : Nat) :
    measureIngest put rows iterations = (do
      let ((), errors) ← ((rows.ops.take iterations).forM (observeErrors put)).run 0
      return { operations := UInt64.ofNat (min iterations rows.totalRows), errors := errors }) := by
  rw [measureIngest, rows.replayEach_eq, rows.take_ops_min]

theorem replayIntoEngine_eq {σ : Type} (put : PutOp → EngineM σ Unit) (dataset : IngestDataset) :
    replayIntoEngine put dataset = dataset.replayOps.forM put := by
  rw [replayIntoEngine, replayLimit_eq, ← dataset.rows.length_ops, List.take_length,
    IngestDataset.replayOps, List.forM_eq_forM, List.forM_append]
  simp [putCheckpointFromManifest]

end HotIndex
