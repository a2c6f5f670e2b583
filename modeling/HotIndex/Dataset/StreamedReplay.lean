import HotIndex.Bench.Ingest
import HotIndex.Dataset.DatasetCrash
import HotIndex.Dataset.NdjsonFiles

/-!
# Streamed Replay

The dataset tool replays a dataset line by line: it puts a row before it reads the next line, so
a bad line stops it with the rows before it in the engine. The benchmark reads all files first
and replays the rows then. Either is a stream of operations (`PutStream`), and where the manifest
passes, the two succeed on the same datasets and leave the same engine behind
(`streamedReplay_agrees`).
-/

namespace HotIndex

open Lib RustText

/-! ## Streams of operations -/

/-- What a replay does to an engine: the operations it puts, and the error that stops it behind
them. -/
structure PutStream where
  ops : List PutOp
  error : Option HotIndexError

/-- A result that no engine has a part in. -/
def ofResult {σ α : Type} (result : Except HotIndexError α) : EngineM σ α :=
  match result with
  | .ok a => pure a
  | .error error => throw (.error error)

namespace PutStream

/-- Nothing but an error, or else another stream. -/
def ofExcept {α : Type} (result : Except HotIndexError α) (next : α → PutStream) : PutStream :=
  match result with
  | .ok a => next a
  | .error error => ⟨[], some error⟩

/-- Another stream, unless the first one stops. -/
def andThen (first second : PutStream) : PutStream :=
  match first.error with
  | some _ => first
  | none => ⟨first.ops ++ second.ops, second.error⟩

section Run

variable {σ : Type} (put : PutOp → EngineM σ Unit)

/-- Put the operations, then stop with the error. -/
def run (stream : PutStream) : EngineM σ Unit := do
  stream.ops.forM put
  match stream.error with
  | none => pure ()
  | some error => throw (.error error)

theorem run_ofExcept {α : Type} (result : Except HotIndexError α) (next : α → PutStream) :
    (ofExcept result next).run put = ofResult result >>= fun a => (next a).run put := by
  cases result with
  | ok a =>
    show _ = (pure a : EngineM σ α) >>= _
    rw [pure_bind]
    rfl
  | error error => rfl

theorem run_andThen (first second : PutStream) :
    (first.andThen second).run put = first.run put >>= fun _ => second.run put := by
  obtain ⟨ops, error⟩ := first
  cases error with
  | some error =>
    show (ops.forM put >>= fun _ => throw _) = (ops.forM put >>= fun _ => throw _) >>= _
    rw [bind_assoc]
    rfl
  | none =>
    show ((ops ++ second.ops).forM put >>= _) = (ops.forM put >>= fun _ => pure ()) >>= _
    rw [List.forM_eq_forM, List.forM_append, bind_assoc, bind_assoc]
    simp only [pure_bind]
    rfl

theorem run_putFirst (op : PutOp) (rest : PutStream) :
    (andThen ⟨[op], none⟩ rest).run put = put op >>= fun _ => rest.run put := by
  show ((op :: rest.ops).forM put >>= _) = _
  rw [List.forM_eq_forM, List.forM_cons, bind_assoc]
  rfl

/-- A run that ends well put all operations. -/
theorem run_eq_ok_iff {stream : PutStream} {state state' : σ} :
    (stream.run put).run.run state = (.ok (), state') ↔
      stream.error = none ∧ (stream.ops.forM put).run.run state = (.ok (), state') := by
  obtain ⟨ops, error⟩ := stream
  -- first the operations, then the error that stopped the stream
  have hrun : ((PutStream.mk ops error).run put).run.run state =
      match (ops.forM put).run.run state with
      | (.ok (), next) => match error with
        | none => (.ok (), next)
        | some error => (.error (.error error), next)
      | (.error fault, next) => (.error fault, next) := by
    unfold run
    rw [ExceptT.run_bind, StateT.run_bind]
    rcases hops : (ops.forM put).run.run state with ⟨result, next⟩
    cases result with
    | error fault => rfl
    | ok done => cases error <;> rfl
  rw [hrun]
  rcases (ops.forM put).run.run state with ⟨result, next⟩
  cases result with
  | error fault => exact ⟨nofun, nofun⟩
  | ok done =>
    cases error with
    | none => exact ⟨fun h => ⟨rfl, h⟩, And.right⟩
    | some error => exact ⟨nofun, nofun⟩

end Run

@[simp] theorem andThen_error_eq_none {first second : PutStream} :
    (first.andThen second).error = none ↔ first.error = none ∧ second.error = none := by
  obtain ⟨ops, error⟩ := first
  cases error <;> simp [andThen]

end PutStream

/-! ## The dataset tool -/

section Streaming

variable {σ α : Type} (put : PutOp → EngineM σ Unit) (codec : Codec α) (op : α → PutOp)

/-- The loop of `replay_ndjson_rows`; lines are numbered from one. -/
def replayNdjsonLines (display : String) : (lines : List Bytes) → (lineNo : Nat) → EngineM σ Unit
  | [], _ => pure ()
  | bytes :: rest, lineNo => do
    let line ← ofResult (readText bytes)
    if (trim line).isEmpty then replayNdjsonLines display rest (lineNo + 1)
    else
      let row ← ofResult (parseRow codec display lineNo line)
      -- the row is in the engine before the next line is read
      put (op row)
      replayNdjsonLines display rest (lineNo + 1)

/-- `replay_ndjson_rows` -/
def replayNdjsonRows (env : DatasetEnv) (dir : DatasetDir) (place : FilePlace) :
    EngineM σ Unit := do
  let content ← ofResult (dir.openFile env place)
  replayNdjsonLines put codec op (dir.displayOf place) (byteLines [] content) 1

end Streaming

section Directory

variable (env : DatasetEnv) (dir : DatasetDir)

/-- `read_json` of the manifest -/
def DatasetDir.readManifest : Except HotIndexError DatasetManifest :=
  match dir.manifest with
  | none => .error (.config "No such file or directory (os error 2)")
  | some manifest => .ok manifest

/-- `IngestRows::load` -/
def IngestRows.load : Except HotIndexError IngestRows := do
  let txs ← readNdjson env env.serde.tx dir (.dataset "normalized/txs.ndjson")
  let events ← readNdjson env env.serde.event dir (.dataset "normalized/events.ndjson")
  let fills ← readNdjson env env.serde.fill dir (.dataset "normalized/fills.ndjson")
  let orders ← readNdjson env env.serde.order dir (.dataset "normalized/orders.ndjson")
  let positions ← readNdjson env env.serde.position dir (.dataset "normalized/positions.ndjson")
  let builderRows ← readNdjson env env.serde.builder dir
    (.dataset "normalized/builder_code_rows.ndjson")
  let activityRows ← readNdjson env env.serde.activity dir
    (.dataset "normalized/activity_rows.ndjson")
  return { txs, events, fills, orders, positions, builderRows, activityRows }

/-- `dataset_last_processed_timestamp_us` of a root: it reads the files in the order of
`IngestRows::load`. -/
def lastProcessedTimestampUs : Except HotIndexError UInt64 := do
  let rows ← IngestRows.load env dir
  return datasetLastProcessedTimestampUs rows.output

/-- The checkpoint that either tool puts last. -/
def DatasetManifest.checkpoint (manifest : DatasetManifest) (timestampUs : UInt64) :
    IngestCheckpoint where
  network := manifest.network
  packageAddress := manifest.packageAddress
  datasetId := some manifest.datasetId
  lastProcessedVersion := manifest.endVersion.getD manifest.startVersion
  lastProcessedTimestampUs := timestampUs
  eventsIndexed := manifest.decibelEventCount
  fillsIndexed := manifest.fillCount
  builderAttributionsIndexed := manifest.builderCodeRowCount

variable {σ : Type} (put : PutOp → EngineM σ Unit)

/-- `replay_into_engine` of `decibel-dataset` -/
def DatasetTool.replayIntoEngine : EngineM σ Unit := do
  let manifest ← ofResult (acceptManifest env dir)
  replayNdjsonRows put env.serde.tx .putTx env dir (.dataset "normalized/txs.ndjson")
  replayNdjsonRows put env.serde.event .putEvent env dir (.dataset "normalized/events.ndjson")
  replayNdjsonRows put env.serde.fill .putFill env dir (.dataset "normalized/fills.ndjson")
  replayNdjsonRows put env.serde.order .putOrder env dir (.dataset "normalized/orders.ndjson")
  replayNdjsonRows put env.serde.position .putPosition env dir
    (.dataset "normalized/positions.ndjson")
  replayNdjsonRows put env.serde.builder .putBuilderAttribution env dir
    (.dataset "normalized/builder_code_rows.ndjson")
  replayNdjsonRows put env.serde.activity .putActivity env dir
    (.dataset "normalized/activity_rows.ndjson")
  let timestampUs ← ofResult (lastProcessedTimestampUs env dir)
  put (.putIngestCheckpoint (manifest.checkpoint timestampUs))

/-- `put_checkpoint_from_manifest` of `decibel-hotindex-bench`, from the files of a root -/
def BenchTool.putCheckpointFromManifest : EngineM σ Unit := do
  let manifest ← ofResult dir.readManifest
  let timestampUs ← ofResult (lastProcessedTimestampUs env dir)
  put (.putIngestCheckpoint (manifest.checkpoint timestampUs))

/-- `replay_into_engine` of `decibel-hotindex-bench`, from the files of a root -/
def BenchTool.replayIntoEngine : EngineM σ Unit := do
  let rows ← ofResult (IngestRows.load env dir)
  replayLimit put rows rows.totalRows
  BenchTool.putCheckpointFromManifest env dir put

end Directory

/-! ## The stream of a replay -/

section Stream

variable {σ α : Type} (put : PutOp → EngineM σ Unit) (codec : Codec α) (op : α → PutOp)

/-- What the lines of a file put. -/
def lineStream (display : String) : (lines : List Bytes) → (lineNo : Nat) → PutStream
  | [], _ => ⟨[], none⟩
  | bytes :: rest, lineNo =>
    .ofExcept (readText bytes) fun line =>
      if (trim line).isEmpty then lineStream display rest (lineNo + 1)
      else
        .ofExcept (parseRow codec display lineNo line) fun row =>
          .andThen ⟨[op row], none⟩ (lineStream display rest (lineNo + 1))

/-- What a file puts. -/
def fileStream (env : DatasetEnv) (dir : DatasetDir) (place : FilePlace) : PutStream :=
  .ofExcept (dir.openFile env place) fun content =>
    lineStream codec op (dir.displayOf place) (byteLines [] content) 1

theorem replayNdjsonLines_eq_run (display : String) (lines : List Bytes) (lineNo : Nat) :
    replayNdjsonLines put codec op display lines lineNo =
      (lineStream codec op display lines lineNo).run put := by
  induction lines generalizing lineNo with
  | nil => rfl
  | cons bytes rest ih =>
    rw [replayNdjsonLines, lineStream, PutStream.run_ofExcept]
    congr 1
    funext line
    split_ifs with hblank
    · exact ih _
    · -- a row is put before the next line is read, on both sides
      rw [PutStream.run_ofExcept]
      congr 1
      funext row
      rw [PutStream.run_putFirst, ih]

theorem replayNdjsonRows_eq_run (env : DatasetEnv) (dir : DatasetDir) (place : FilePlace) :
    replayNdjsonRows put codec op env dir place =
      (fileStream codec op env dir place).run put := by
  unfold replayNdjsonRows fileStream
  rw [PutStream.run_ofExcept]
  congr 1
  funext content
  exact replayNdjsonLines_eq_run put codec op _ _ 1

variable {codec op}

/-- Lines that can be read as rows put these rows. -/
theorem lineStream_of_rows {display : String} {lines : List Bytes} {lineNo : Nat}
    {rows : List α} (h : readNdjsonLines codec display lines lineNo = .ok rows) :
    lineStream codec op display lines lineNo = ⟨rows.map op, none⟩ := by
  induction lines generalizing lineNo rows with
  | nil =>
    cases h
    rfl
  | cons bytes rest ih =>
    obtain ⟨line, hline, h⟩ := bind_eq_ok_iff.1 h
    rw [lineStream, hline]
    simp only [PutStream.ofExcept]
    split_ifs at h ⊢ with hblank
    · -- a blank line is skipped by the reader and by the stream
      exact ih h
    · obtain ⟨row, hrow, h⟩ := bind_eq_ok_iff.1 h
      obtain ⟨others, hothers, hrows⟩ := bind_eq_ok_iff.1 h
      cases hrows
      rw [hrow, ih hothers]
      rfl

/-- Lines whose stream does not stop can be read as rows. -/
theorem exists_rows_of_lineStream {display : String} {lines : List Bytes} {lineNo : Nat}
    (h : (lineStream codec op display lines lineNo).error = none) :
    ∃ rows, readNdjsonLines codec display lines lineNo = .ok rows := by
  induction lines generalizing lineNo with
  | nil => exact ⟨[], rfl⟩
  | cons bytes rest ih =>
    rw [lineStream] at h
    rw [readNdjsonLines]
    -- an error of this line would be the error of the stream
    cases hline : readText bytes with
    | error error =>
      rw [hline] at h
      cases h
    | ok line =>
      rw [hline] at h
      simp only [PutStream.ofExcept] at h
      show ∃ rows, (if (trim line).isEmpty then _ else _) = _
      split_ifs at h ⊢ with hblank
      · exact ih h
      · cases hrow : parseRow codec display lineNo line with
        | error error =>
          rw [hrow] at h
          cases h
        | ok row =>
          rw [hrow] at h
          obtain ⟨rows, hrows⟩ := ih (PutStream.andThen_error_eq_none.1 h).2
          exact ⟨row :: rows, bind_eq_ok_iff.2 ⟨row, rfl, bind_eq_ok_iff.2 ⟨rows, hrows, rfl⟩⟩⟩

variable {env : DatasetEnv} {dir : DatasetDir} {place : FilePlace}

theorem fileStream_of_rows {rows : List α} (h : readNdjson env codec dir place = .ok rows) :
    fileStream codec op env dir place = ⟨rows.map op, none⟩ := by
  obtain ⟨content, hcontent, hrows⟩ := bind_eq_ok_iff.1 h
  unfold fileStream
  rw [hcontent]
  exact lineStream_of_rows hrows

theorem exists_rows_of_fileStream (h : (fileStream codec op env dir place).error = none) :
    ∃ rows, readNdjson env codec dir place = .ok rows := by
  unfold fileStream at h
  unfold readNdjson
  cases hcontent : dir.openFile env place with
  | error error =>
    rw [hcontent] at h
    cases h
  | ok content =>
    rw [hcontent] at h
    exact exists_rows_of_lineStream h

end Stream

section Replay

variable (env : DatasetEnv) (dir : DatasetDir)

/-- What `replay_into_engine` of the dataset tool puts. -/
def replayStream : PutStream :=
  .ofExcept (acceptManifest env dir) fun manifest =>
    (fileStream env.serde.tx .putTx env dir (.dataset "normalized/txs.ndjson")).andThen <|
    (fileStream env.serde.event .putEvent env dir (.dataset "normalized/events.ndjson")).andThen <|
    (fileStream env.serde.fill .putFill env dir (.dataset "normalized/fills.ndjson")).andThen <|
    (fileStream env.serde.order .putOrder env dir (.dataset "normalized/orders.ndjson")).andThen <|
    (fileStream env.serde.position .putPosition env dir
      (.dataset "normalized/positions.ndjson")).andThen <|
    (fileStream env.serde.builder .putBuilderAttribution env dir
      (.dataset "normalized/builder_code_rows.ndjson")).andThen <|
    (fileStream env.serde.activity .putActivity env dir
      (.dataset "normalized/activity_rows.ndjson")).andThen <|
    .ofExcept (lastProcessedTimestampUs env dir) fun timestampUs =>
      ⟨[.putIngestCheckpoint (manifest.checkpoint timestampUs)], none⟩

theorem DatasetTool.replayIntoEngine_eq_run {σ : Type} (put : PutOp → EngineM σ Unit) :
    DatasetTool.replayIntoEngine env dir put = (replayStream env dir).run put := by
  have hcheckpoint : ∀ op : PutOp, (PutStream.mk [op] none).run put = put op := by
    intro op
    show ((put op >>= fun _ => pure ()) >>= fun _ => pure ()) = _
    simp
  unfold DatasetTool.replayIntoEngine replayStream
  simp only [PutStream.run_ofExcept, PutStream.run_andThen, replayNdjsonRows_eq_run, hcheckpoint]

variable {env dir} {manifest : DatasetManifest} {rows : IngestRows}

/-- The seven files of the rows, if all can be read. -/
theorem load_eq_ok_iff : IngestRows.load env dir = .ok rows ↔
    readNdjson env env.serde.tx dir (.dataset "normalized/txs.ndjson") = .ok rows.txs ∧
    readNdjson env env.serde.event dir (.dataset "normalized/events.ndjson") = .ok rows.events ∧
    readNdjson env env.serde.fill dir (.dataset "normalized/fills.ndjson") = .ok rows.fills ∧
    readNdjson env env.serde.order dir (.dataset "normalized/orders.ndjson") = .ok rows.orders ∧
    readNdjson env env.serde.position dir (.dataset "normalized/positions.ndjson") =
      .ok rows.positions ∧
    readNdjson env env.serde.builder dir (.dataset "normalized/builder_code_rows.ndjson") =
      .ok rows.builderRows ∧
    readNdjson env env.serde.activity dir (.dataset "normalized/activity_rows.ndjson") =
      .ok rows.activityRows := by
  unfold IngestRows.load
  simp only [bind_eq_ok_iff]
  -- the seven files are read one after the other, each independently of the rest
  constructor
  · rintro ⟨txs, h1, events, h2, fills, h3, orders, h4, positions, h5, builderRows, h6,
      activityRows, h7, hrows⟩
    cases hrows
    exact ⟨h1, h2, h3, h4, h5, h6, h7⟩
  · rintro ⟨h1, h2, h3, h4, h5, h6, h7⟩
    exact ⟨_, h1, _, h2, _, h3, _, h4, _, h5, _, h6, _, h7, rfl⟩

theorem lastProcessedTimestampUs_of_load (hrows : IngestRows.load env dir = .ok rows) :
    lastProcessedTimestampUs env dir = .ok (datasetLastProcessedTimestampUs rows.output) := by
  unfold lastProcessedTimestampUs
  rw [hrows]
  rfl

/-- Of a dataset that can be loaded, everything is put. -/
theorem replayStream_of_load (hmanifest : acceptManifest env dir = .ok manifest)
    (hrows : IngestRows.load env dir = .ok rows) :
    replayStream env dir = ⟨(IngestDataset.mk manifest rows).replayOps, none⟩ := by
  obtain ⟨h1, h2, h3, h4, h5, h6, h7⟩ := load_eq_ok_iff.1 hrows
  unfold replayStream
  rw [hmanifest, lastProcessedTimestampUs_of_load hrows, fileStream_of_rows h1,
    fileStream_of_rows h2, fileStream_of_rows h3, fileStream_of_rows h4, fileStream_of_rows h5,
    fileStream_of_rows h6, fileStream_of_rows h7]
  simp only [PutStream.ofExcept, PutStream.andThen, IngestDataset.replayOps, IngestRows.ops,
    List.append_assoc]
  rfl

/-- A stream that does not stop is that of a dataset that can be loaded. -/
theorem load_of_replayStream (h : (replayStream env dir).error = none) :
    ∃ manifest rows, acceptManifest env dir = .ok manifest ∧
      IngestRows.load env dir = .ok rows := by
  unfold replayStream at h
  cases hmanifest : acceptManifest env dir with
  | error error =>
    rw [hmanifest] at h
    cases h
  | ok manifest =>
    rw [hmanifest] at h
    simp only [PutStream.ofExcept, PutStream.andThen_error_eq_none] at h
    -- a stream without an error has no error in any of its files
    obtain ⟨h1, h2, h3, h4, h5, h6, h7, -⟩ := h
    obtain ⟨txs, h1⟩ := exists_rows_of_fileStream h1
    obtain ⟨events, h2⟩ := exists_rows_of_fileStream h2
    obtain ⟨fills, h3⟩ := exists_rows_of_fileStream h3
    obtain ⟨orders, h4⟩ := exists_rows_of_fileStream h4
    obtain ⟨positions, h5⟩ := exists_rows_of_fileStream h5
    obtain ⟨builderRows, h6⟩ := exists_rows_of_fileStream h6
    obtain ⟨activityRows, h7⟩ := exists_rows_of_fileStream h7
    exact ⟨manifest, { txs, events, fills, orders, positions, builderRows, activityRows }, rfl,
      load_eq_ok_iff.2 ⟨h1, h2, h3, h4, h5, h6, h7⟩⟩

end Replay

/-! ## The two tools agree -/

section Agreement

variable {σ : Type} (put : PutOp → EngineM σ Unit) (env : DatasetEnv) (dir : DatasetDir)

/-- The benchmark puts the operations of the dataset that it loads. -/
theorem BenchTool.replayIntoEngine_of_load {manifest : DatasetManifest} {rows : IngestRows}
    (hmanifest : dir.manifest = some manifest) (hrows : IngestRows.load env dir = .ok rows) :
    BenchTool.replayIntoEngine env dir put =
      (IngestDataset.mk manifest rows).replayOps.forM put := by
  unfold BenchTool.replayIntoEngine BenchTool.putCheckpointFromManifest
  rw [hrows, lastProcessedTimestampUs_of_load hrows, DatasetDir.readManifest, hmanifest]
  simp only [ofResult, pure_bind]
  rw [← replayIntoEngine_eq]
  rfl

/-- A replay of the benchmark that ends well has loaded the dataset. -/
theorem BenchTool.load_of_replayIntoEngine {state state' : σ}
    (h : (BenchTool.replayIntoEngine env dir put).run.run state = (.ok (), state')) :
    ∃ rows, IngestRows.load env dir = .ok rows := by
  unfold BenchTool.replayIntoEngine at h
  cases hrows : IngestRows.load env dir with
  | error error =>
    rw [hrows] at h
    cases h
  | ok rows => exact ⟨rows, rfl⟩

/-- **The replays agree.** On every dataset root, every engine and every state of it: the
streamed replay ends well in a state exactly if the manifest passes its checks and the replay of
loaded rows ends well in that state. -/
theorem streamedReplay_agrees (state state' : σ) :
    (DatasetTool.replayIntoEngine env dir put).run.run state = (.ok (), state') ↔
      (∃ manifest, acceptManifest env dir = .ok manifest) ∧
        (BenchTool.replayIntoEngine env dir put).run.run state = (.ok (), state') := by
  rw [DatasetTool.replayIntoEngine_eq_run, PutStream.run_eq_ok_iff]
  constructor
  · -- the streamed operations are those of the rows that loading gives
    rintro ⟨herror, hops⟩
    obtain ⟨manifest, rows, hmanifest, hrows⟩ := load_of_replayStream herror
    rw [replayStream_of_load hmanifest hrows] at hops
    refine ⟨⟨manifest, hmanifest⟩, ?_⟩
    rw [BenchTool.replayIntoEngine_of_load put env dir (acceptManifest_eq_ok_iff.1 hmanifest).1
      hrows]
    exact hops
  · -- a loaded replay has read every row, so that the stream has no error left
    rintro ⟨⟨manifest, hmanifest⟩, hbench⟩
    obtain ⟨rows, hrows⟩ := BenchTool.load_of_replayIntoEngine put env dir hbench
    rw [BenchTool.replayIntoEngine_of_load put env dir (acceptManifest_eq_ok_iff.1 hmanifest).1
      hrows] at hbench
    rw [replayStream_of_load hmanifest hrows]
    exact ⟨rfl, hbench⟩

end Agreement

end HotIndex
