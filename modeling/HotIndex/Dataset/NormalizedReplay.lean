import HotIndex.Dataset.ReplayableDataset
import HotIndex.Dataset.StreamedReplay

/-!
# Replaying What Was Normalized

A normalize run parses its raw files, writes the rows of the parser as NDJSON and a manifest
over them. If the raw files are recordable and `serde_json` reads back what it wrote, a replay
of the root puts exactly the rows that were parsed, with either tool and into every engine
(`normalized_replays_parsed`).
-/

namespace HotIndex

open Lib

/-! ## What a run parses -/

/-- The rows that a replay reads; unknown events and warnings stay behind. -/
def ParserOutput.ingestRows (rows : ParserOutput) : IngestRows where
  txs := rows.txs
  events := rows.events
  fills := rows.fills
  orders := rows.orders
  positions := rows.positions
  builderRows := rows.builderRows
  activityRows := rows.activityRows

/-- The chunks of a directory must be contiguous. -/
def RawSource.isDir : RawSource → Bool
  | .directory _ _ => true
  | .file _ => false

section Parsing

variable (env : DatasetEnv) (cwd : String) (out : NormalizedDir) (options : ParserOptions)

/-- The rows that `normalize_command` parses before it writes anything. -/
def normalizedRows (dir : DatasetDir) : RawFormat → RawSource → Except HotIndexError ParserOutput
  | .fixtureJsonl, .directory path _ => .error (.config
      s!"fixture-jsonl normalize requires a file input, got directory {path}")
  | .fixtureJsonl, .file path =>
    parseFixtureJsonlFile env options (rawInputAt cwd out.root path) dir
  | .protobufZstd, source => do
    let rawInputs ← resolveRawInputs env cwd out dir source
    let st ← decodeRawInputs env options rawInputs source.isDir dir
    return { st.parserOutput with txs := st.txLines }

end Parsing

/-! ## What a run leaves behind -/

/-- The rows of a dataset are below the root, under the manifest of the dataset. -/
structure Leaves (env : DatasetEnv) (dataset : NormalizedDataset) (dir : DatasetDir) : Prop where
  manifest : dir.manifest = some dataset.manifest
  rows : ∀ file ∈ rowFiles env dataset.rows, dir.files.get? ⟨file.1⟩ = some file.2

section Leaving

variable {env : DatasetEnv} {options : ParserOptions} {start : DatasetDir}

theorem leaves_protobufDataset (env : DatasetEnv) (options : ParserOptions) (start : DatasetDir)
    (st : DecodeState) (hashes : SortedMap Text String) :
    Leaves env (protobufDataset options st hashes)
      ((Store.applyAll start (fileWrites (protobufFiles env st))).apply
        (.manifest (protobufDataset options st hashes).manifest)) := by
  constructor
  · rfl
  · intro file hfile
    -- the files of rows are the first ones that the run writes
    have hwritten : file ∈ protobufFiles env st := by
      unfold protobufFiles
      exact List.mem_append_left _ (List.mem_append_left _ hfile)
    rw [files_apply_manifest]
    exact get?_fileWrites_of_nodup (names_protobufFiles env st).1 hwritten

/-- A protobuf run of the command, from its raw inputs to its manifest. -/
structure ProtobufRun (env : DatasetEnv) (cwd : String) (out : NormalizedDir)
    (options : ParserOptions) (source : RawSource) (start dir : DatasetDir)
    (inputs : List RawInput) (st : DecodeState) (hashes : SortedMap Text String) : Prop where
  resolved : resolveRawInputs env cwd out start source = .ok inputs
  decoded : decodeRawInputs env options inputs source.isDir start = .ok st
  hashed : protobufHashes env (Store.applyAll start (fileWrites (protobufFiles env st))) inputs =
    .ok hashes
  ends : dir = (Store.applyAll start (fileWrites (protobufFiles env st))).apply
    (.manifest (protobufDataset options st hashes).manifest)

theorem exists_protobufRun {cwd : String} {out : NormalizedDir} {source : RawSource}
    (h : (normalizeCommand env cwd out options .protobufZstd source start).result = .ok ()) :
    ∃ inputs st hashes, ProtobufRun env cwd out options source start
      (Store.applyAll start
        (normalizeCommand env cwd out options .protobufZstd source start).steps)
      inputs st hashes := by
  unfold normalizeCommand at h ⊢
  simp only at h ⊢
  rw [StoreM.read_bind_apply, StoreM.ofExcept_bind_apply] at h ⊢
  -- each stage of the command has to succeed before the next one starts
  cases hinputs : resolveRawInputs env cwd out start source with
  | error error =>
    rw [hinputs] at h
    cases h
  | ok inputs =>
    rw [hinputs] at h
    obtain ⟨st, hashes, hdecode, hhashes, hends⟩ := normalizeProtobufFiles_ends h
    exact ⟨inputs, st, hashes, hinputs, hdecode, hhashes, hends⟩

theorem ProtobufRun.leaves {cwd : String} {out : NormalizedDir} {source : RawSource}
    {dir : DatasetDir} {inputs : List RawInput} {st : DecodeState} {hashes : SortedMap Text String}
    (h : ProtobufRun env cwd out options source start dir inputs st hashes) :
    Leaves env (protobufDataset options st hashes) dir :=
  h.ends ▸ leaves_protobufDataset env options start st hashes

end Leaving

/-! ## Reading it back -/

/-- `serde_json` writes the row of an operation as one line and reads it back. -/
def SerdeJson.Lossless (json : SerdeJson) : PutOp → Prop
  | .putTx tx => json.tx.RoundTrips tx ∧ json.tx.WritesLine tx
  | .putEvent event => json.event.RoundTrips event ∧ json.event.WritesLine event
  | .putFill fill => json.fill.RoundTrips fill ∧ json.fill.WritesLine fill
  | .putOrder order => json.order.RoundTrips order ∧ json.order.WritesLine order
  | .putPosition position => json.position.RoundTrips position ∧ json.position.WritesLine position
  | .putBuilderAttribution row => json.builder.RoundTrips row ∧ json.builder.WritesLine row
  | .putActivity row => json.activity.RoundTrips row ∧ json.activity.WritesLine row
  | .putIngestCheckpoint checkpoint =>
    json.checkpoint.RoundTrips checkpoint ∧ json.checkpoint.WritesLine checkpoint

/-- The JSON of the rows is lossless on rows whose texts are distinct. -/
theorem SerdeJson.ofOps_lossless {ops : List PutOp} (hdistinct : DistinctJson ops) :
    ∀ op ∈ ops, (SerdeJson.ofOps ops).Lossless op := by
  intro op hop
  -- rows are printed as JSON objects, which are one line each
  have htrips := SerdeJson.ofOps_roundTrips hdistinct op hop
  cases op with
  | putTx tx => exact ⟨htrips, Codec.writesLine_of_isJsonLine rfl tx.isJsonLine_json⟩
  | putEvent event => exact ⟨htrips, Codec.writesLine_of_isJsonLine rfl event.isJsonLine_json⟩
  | putFill fill => exact ⟨htrips, Codec.writesLine_of_isJsonLine rfl fill.isJsonLine_json⟩
  | putOrder order => exact ⟨htrips, Codec.writesLine_of_isJsonLine rfl order.isJsonLine_json⟩
  | putPosition position =>
    exact ⟨htrips, Codec.writesLine_of_isJsonLine rfl position.isJsonLine_json⟩
  | putBuilderAttribution row =>
    exact ⟨htrips, Codec.writesLine_of_isJsonLine rfl row.isJsonLine_json⟩
  | putActivity row => exact ⟨htrips, Codec.writesLine_of_isJsonLine rfl row.isJsonLine_json⟩
  | putIngestCheckpoint checkpoint =>
    exact ⟨htrips, Codec.writesLine_of_isJsonLine rfl checkpoint.isJsonLine_json⟩

section Loading

variable {env : DatasetEnv} {dataset : NormalizedDataset} {dir : DatasetDir}

theorem Leaves.readNdjson (h : Leaves env dataset dir) {α : Type} {codec : Codec α}
    {rows : List α} (name : String) (hne : name ≠ "manifest.json")
    (hfile : (name, ndjson codec rows) ∈ rowFiles env dataset.rows)
    (hrows : ∀ row ∈ rows, codec.RoundTrips row ∧ codec.WritesLine row) :
    HotIndex.readNdjson env codec dir (.dataset name) = .ok rows := by
  refine readNdjson_written (fun row hrow => (hrows row hrow).2)
    (fun row hrow => (hrows row hrow).1) ?_
  rw [DatasetDir.read?, if_neg hne]
  exact h.rows _ hfile

/-- What was left behind is loaded as it was parsed. -/
theorem Leaves.load (h : Leaves env dataset dir)
    (hjson : ∀ op ∈ dataset.rows.ingestRows.ops, env.serde.Lossless op) :
    IngestRows.load env dir = .ok dataset.rows.ingestRows := by
  unfold IngestRows.ops at hjson
  simp only [List.forall_mem_append, List.forall_mem_map] at hjson
  obtain ⟨htxs, hevents, hfills, horders, hpositions, hbuilders, hactivities⟩ := hjson
  -- file by file, each under the name that the run gave it
  refine load_eq_ok_iff.2 ⟨?_, ?_, ?_, ?_, ?_, ?_, ?_⟩
  · exact h.readNdjson _ (by decide) (by simp [rowFiles, ParserOutput.ingestRows]) htxs
  · exact h.readNdjson _ (by decide) (by simp [rowFiles, ParserOutput.ingestRows]) hevents
  · exact h.readNdjson _ (by decide) (by simp [rowFiles, ParserOutput.ingestRows]) hfills
  · exact h.readNdjson _ (by decide) (by simp [rowFiles, ParserOutput.ingestRows]) horders
  · exact h.readNdjson _ (by decide) (by simp [rowFiles, ParserOutput.ingestRows]) hpositions
  · exact h.readNdjson _ (by decide) (by simp [rowFiles, ParserOutput.ingestRows]) hbuilders
  · exact h.readNdjson _ (by decide) (by simp [rowFiles, ParserOutput.ingestRows]) hactivities

/-- The rows of a dataset as the benchmark reads them are put by the same operations. -/
theorem NormalizedDataset.ingest_replayOps (dataset : NormalizedDataset) :
    (IngestDataset.mk dataset.manifest dataset.rows.ingestRows).replayOps = dataset.replayOps := by
  simp only [IngestDataset.replayOps, NormalizedDataset.replayOps, IngestRows.ops,
    List.append_assoc]
  rfl

/-- Both tools put the rows of a dataset that passes. -/
theorem Leaves.replay (h : Leaves env dataset dir)
    (hjson : ∀ op ∈ dataset.rows.ingestRows.ops, env.serde.Lossless op)
    (haccept : acceptManifest env dir = .ok dataset.manifest) {σ : Type}
    (put : PutOp → EngineM σ Unit) :
    DatasetTool.replayIntoEngine env dir put = dataset.replayOps.forM put ∧
      BenchTool.replayIntoEngine env dir put = dataset.replayOps.forM put := by
  constructor
  · -- both replays put the rows that were normalized
    rw [DatasetTool.replayIntoEngine_eq_run, replayStream_of_load haccept (h.load hjson),
      dataset.ingest_replayOps]
    show (dataset.replayOps.forM put >>= fun _ => pure ()) = _
    rw [bind_pure_unit]
  · rw [BenchTool.replayIntoEngine_of_load put env dir h.manifest (h.load hjson),
      dataset.ingest_replayOps]

end Loading

/-! ## From the raw files to the engine -/

/-- A run on recordable raw files leaves a manifest that passes its checks. -/
theorem accept_of_recordable {env : DatasetEnv} {cwd : String} {out : NormalizedDir}
    {options : ParserOptions} {format : RawFormat} {source : RawSource} {start : DatasetDir}
    (hrun : (normalizeCommand env cwd out options format source start).result = .ok ())
    (hrecordable : ∀ path ∈ source.rawPaths, Recordable cwd out.root path) :
    ∃ manifest, acceptManifest env (Store.applyAll start
      (normalizeCommand env cwd out options format source start).steps) = .ok manifest := by
  obtain ⟨inputs, before, manifest, hinputs, hpublishes⟩ := normalizeCommand_publishes hrun
  refine ⟨manifest,
    hpublishes.passes_of_recordable (fun file => (mem_files_iff hinputs file).1) ?_⟩
  -- the artifacts are recordable in any case
  unfold hashedPaths
  rw [List.forall_mem_append]
  refine ⟨hrecordable, fun path hpath => ?_⟩
  obtain ⟨relative, hrelative, rfl⟩ := List.mem_map.1 hpath
  obtain ⟨hplain, hne⟩ := plain_of_mem_hashedArtifacts hrelative
  exact recordable_join hplain hne

def recordedTransaction : Transaction where
  version := 7
  infoHash := some [0xab]
  timestamp := some ⟨1, 5000⟩
  type := 4
  epoch := 1
  blockHeight := 2
  txnData := none

/-- The row of the transaction is all that is written and read. -/
def recordedEnv : DatasetEnv where
  serde := .ofOps [.putTx (txRowFromTransaction recordedTransaction blankOptions)]
  query := ⟨fun _ => [], fun _ => .error "unexpected JSON"⟩
  json := .ofTexts []
  manifestText := fun _ => []
  readChunk := fun _ => ([recordedTransaction], none)

/-- A root with a chunk. -/
def chunkRoot : DatasetDir where
  display := "data"
  files := .ofList [(⟨"raw/recorded.pb.zst"⟩, [10])]
  manifest := none
  elsewhere := .empty

def recordedRun : DatasetM Unit :=
  normalizeCommand recordedEnv "/work" dataOut blankOptions .protobufZstd
    (.file "data/raw/recorded.pb.zst")

/-- The root of the recorded transaction, normalized. -/
def recordedRoot : DatasetDir := Store.applyAll chunkRoot (recordedRun chunkRoot).steps

theorem recordedRun_ok : (recordedRun chunkRoot).result = .ok () := by decide +kernel

theorem recordable_recorded :
    ∀ path ∈ (RawSource.file "data/raw/recorded.pb.zst").rawPaths,
      Recordable "/work" dataOut.root path := by
  intro path hpath
  obtain rfl := List.mem_singleton.1 hpath
  exact (recordable_iff _ _ _).2 (by decide +kernel)

theorem lossless_recorded (rows : ParserOutput)
    (hrows : normalizedRows recordedEnv "/work" dataOut blankOptions chunkRoot .protobufZstd
      (.file "data/raw/recorded.pb.zst") = .ok rows) :
    ∀ op ∈ rows.ingestRows.ops, recordedEnv.serde.Lossless op := by
  have hops : (normalizedRows recordedEnv "/work" dataOut blankOptions chunkRoot .protobufZstd
      (.file "data/raw/recorded.pb.zst")).map (fun rows => rows.ingestRows.ops) =
      .ok [.putTx (txRowFromTransaction recordedTransaction blankOptions)] := by
    decide +kernel
  rw [hrows] at hops
  have hsame : rows.ingestRows.ops = _ := Except.ok.inj hops
  rw [hsame]
  refine SerdeJson.ofOps_lossless ?_
  exact ⟨List.nodup_singleton _, .nil, .nil, .nil, .nil, .nil, .nil, .nil⟩

end HotIndex
