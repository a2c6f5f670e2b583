import HotIndex.Bench.MeasureQueries
import HotIndex.Dataset.CorpusRebuild
import HotIndex.Storage.ReplayConvergence
import HotIndex.Storage.RocksHistory

/-!
# Serving Benchmark

`run_command` of `decibel-hotindex-bench` for the serving class, from the files of a dataset
root to the counts of its result: the checks of the dataset, the query corpus of a workload,
and the queries, measured on a memory engine that replays the dataset or on a RocksDB database
that it was materialized to.

What a protobuf run leaves is accepted exactly if a raw file is recorded below `raw` and the
versions are not all of `u64` (`benchmark_accepts_iff`). Then every workload that the manifest
has rows for runs on either backend, and none of its queries fails (`servingBench_clean`).

The report is not modelled beyond the counts.
-/

namespace HotIndex

open Lib

/-! ## Checking the dataset -/

inductive DatasetEncoding where
  | synthetic
  | ndjson
  | ndjsonZstd
  | protobufZstd
  | aptosTransactionProtobufLenDelimitedZstd
  | binaryZstd
  deriving DecidableEq, Repr

/-- The `raw_encoding` of the manifest that a normalize run writes. -/
def RawFormat.rawEncoding : RawFormat → DatasetEncoding
  | .fixtureJsonl => .ndjson
  | .protobufZstd => .aptosTransactionProtobufLenDelimitedZstd

/-- `REQUIRED_NORMALIZED_ARTIFACTS` -/
def requiredNormalizedArtifacts : List String :=
  ["normalized/txs.ndjson", "normalized/events.ndjson", "normalized/fills.ndjson",
    "normalized/orders.ndjson", "normalized/positions.ndjson",
    "normalized/builder_code_rows.ndjson", "normalized/activity_rows.ndjson",
    "normalized/unknown_events.ndjson", "normalized/parse_warnings.log"]

/-- The key is that of a file below `raw`. -/
def isRawKey (key : String) : Bool := "raw/".toList.isPrefixOf key.toList

/-- The body of the loop of `validate_required_manifest_artifacts`. -/
def requireArtifact (manifest : DatasetManifest) (relative : String) : Except HotIndexError Unit :=
  if (manifest.hashes.get? ⟨relative⟩).isSome then .ok ()
  else .error (.config s!"dataset manifest is missing sha256 for required artifact {relative}")

/-- `validate_required_manifest_artifacts` -/
def validateRequiredManifestArtifacts (rawEncoding : DatasetEncoding)
    (manifest : DatasetManifest) : Except HotIndexError Unit :=
  if manifest.hashes.entries.isEmpty then
    .error (.config "dataset manifest has no sha256 artifact map")
  else do
    requiredNormalizedArtifacts.forM (requireArtifact manifest)
    -- a synthetic dataset has no raw files
    if rawEncoding ≠ .synthetic ∧
        ¬ manifest.hashes.entries.any (fun entry => isRawKey entry.1.str) then
      .error (.config "dataset manifest is missing sha256 for raw artifacts")
    else .ok ()

/-- `validate_benchmark_dataset` -/
def validateBenchmarkDataset (env : DatasetEnv) (dir : DatasetDir) (rawEncoding : DatasetEncoding)
    (manifest : DatasetManifest) : Except HotIndexError Unit := do
  validateManifestSchemaVersion manifest
  validateManifestRange manifest
  validateRequiredManifestArtifacts rawEncoding manifest
  validateManifestHashes env dir manifest

/-! ## Workloads -/

/-- `requires_decibel_events` -/
def requiresDecibelEvents (workload : String) : Bool :=
  ¬ (workload = "get_tx_by_version" ∨ workload = "multi_get_tx_versions_100")

/-- `requires_fills` -/
def requiresFills (workload : String) : Bool :=
  workload = "scan_market_recent_fills_100" ∨ workload = "scan_account_recent_fills_100" ∨
    workload = "mixed_market_dashboard" ∨ workload = "mixed_dashboard"

/-- `requires_builder_rows` -/
def requiresBuilderRows (workload : String) : Bool :=
  workload = "scan_builder_code_fills_100" ∨ workload = "get_builder_code_volume_24h" ∨
    workload = "mixed_market_dashboard" ∨ workload = "mixed_dashboard"

/-- `empty_corpus_error` -/
def emptyCorpusError (manifest : DatasetManifest) (workload : String) : HotIndexError :=
  if manifest.decibelEventCount = 0 ∧ requiresDecibelEvents workload then
    .config (s!"workload {workload} requires Decibel events, but this dataset has " ++
      "decibel_event_count=0; choose a Decibel-active range or run tx point/multi-get workloads")
  else .config s!"query corpus for workload {workload} is empty"

/-- `ensure_serving_workload_supported` -/
def ensureServingWorkloadSupported (manifest : DatasetManifest) (workload : String) :
    Except HotIndexError Unit :=
  if manifest.decibelEventCount = 0 ∧ requiresDecibelEvents workload then
    .error (emptyCorpusError manifest workload)
  else if requiresFills workload ∧ manifest.fillCount = 0 then
    .error (.config (s!"workload {workload} requires normalized fills, but this dataset has " ++
      "fill_count=0; choose a Decibel-active range with TradeEvent/Fill rows"))
  else if requiresBuilderRows workload ∧ manifest.builderCodeRowCount = 0 then
    .error (.config (s!"workload {workload} requires builder-code attribution rows, but this " ++
      "dataset has builder_code_row_count=0; choose a range with builder attribution data or " ++
      "run a narrower workload"))
  else .ok ()

/-- The files below `queries` that `query_corpus_report` knows, by workload. -/
def workloadFiles : List (String × String) :=
  [("get_tx_by_version", "point_tx_versions.ndjson"),
    ("multi_get_tx_versions_100", "multi_get_tx_versions.ndjson"),
    ("scan_market_recent_fills_100", "market_fill_scans.ndjson"),
    ("scan_account_recent_fills_100", "account_fill_scans.ndjson"),
    ("scan_builder_code_fills_100", "builder_code_scans.ndjson"),
    ("get_builder_code_volume_24h", "builder_code_volumes.ndjson"),
    ("mixed_market_dashboard", "mixed_dashboard.ndjson"),
    ("mixed_dashboard", "mixed_dashboard.ndjson")]

structure QueryCorpusReport where
  workload : String
  relativePath : String
  sha256 : String

/-- `query_corpus_report` -/
def queryCorpusReport (env : DatasetEnv) (dir : DatasetDir) (workload : String) :
    Except HotIndexError QueryCorpusReport :=
  match workloadFiles.lookup workload with
  | none => .error (.config s!"unsupported workload: {workload}")
  | some file => do
    let sha256 ← sha256File env dir (.dataset ("queries/" ++ file))
    return { workload, relativePath := "queries/" ++ file, sha256 }

/-- `validate_query_corpus_hash` -/
def validateQueryCorpusHash (manifest : DatasetManifest) (queryCorpus : QueryCorpusReport) :
    Except HotIndexError Unit :=
  match manifest.hashes.get? ⟨queryCorpus.relativePath⟩ with
  | some expected =>
    if expected = queryCorpus.sha256 then .ok ()
    else .error (.config (s!"query corpus sha256 mismatch for {queryCorpus.relativePath}: " ++
      s!"manifest expected {expected}, got {queryCorpus.sha256}"))
  | none => .error (.config
      s!"dataset manifest is missing sha256 for query corpus {queryCorpus.relativePath}")

/-! ## The run -/

section Run

variable (curve : UInt64 → Nat → Nat) (env : DatasetEnv) (dir : DatasetDir)

/-- The engine that a backend serves from: one that replays the dataset, or the database at
`--db-path`. -/
def servingEngine (backend : String) (db : RocksDb) : Except Fault StorageReads :=
  if backend = "memory" then
    let replayed := (BenchTool.replayIntoEngine env dir MemoryEngine.putM).run.run .empty
    replayed.1.map fun _ => replayed.2.reads env.serde Sha256.digest
  else if backend = "rocksdb" then .ok (db.reads env.serde Sha256.digest)
  else .error (configError s!"unsupported serving backend: {backend}")

/-- `run_serving_bench` -/
def runServingBench (manifest : DatasetManifest) (backend workload : String) (db : RocksDb)
    (config : QueryMeasureConfig) : Except Fault BenchResult := do
  (ensureServingWorkloadSupported manifest workload).mapError .error
  let queryCorpus ← (queryCorpusReport env dir workload).mapError .error
  (validateQueryCorpusHash manifest queryCorpus).mapError .error
  let corpus ← (readNdjson env env.query dir (.dataset queryCorpus.relativePath)).mapError .error
  if corpus.isEmpty then
    .error (.error (emptyCorpusError manifest workload))
  else do
    let engine ← servingEngine env dir backend db
    measureQueries curve engine corpus config

/-- `run_command` with `--class serving`. The raw encoding is that of the manifest. -/
def runServingCommand (rawEncoding : DatasetEncoding) (backend workload : String) (db : RocksDb)
    (config : QueryMeasureConfig) : Except Fault BenchResult :=
  if config.concurrency = 0 then
    .error (configError "--concurrency must be greater than zero")
  else do
    let manifest ← dir.readManifest.mapError .error
    (validateBenchmarkDataset env dir rawEncoding manifest).mapError .error
    runServingBench curve env dir manifest backend workload db config

end Run

/-! ## Which datasets are accepted -/

section Accepting

variable {env : DatasetEnv} {cwd : String} {out : NormalizedDir} {options : ParserOptions}
  {source : RawSource} {start dir : DatasetDir} {inputs : List RawInput} {st : DecodeState}
  {hashes : SortedMap Text String}

/-- The inputs of a run hold consecutive versions altogether. -/
theorem ProtobufRun.consecutive (h : ProtobufRun env cwd out options source start dir inputs st
    hashes) :
    ∃ first, ConsecutiveFrom first ((st.txLines.map TxRow.version).map UInt64.toNat) := by
  have hdecode := h.decoded
  unfold decodeRawInputs at hdecode
  simp only at hdecode
  split_ifs at hdecode
  · cases hdecode
  -- the declared ranges were checked before the chunks were decoded
  obtain ⟨⟨⟩, hvalid, hdecode⟩ := bind_eq_ok_iff.1 hdecode
  obtain ⟨-, hdecoded, hlines⟩ := decodeChunks_ok hdecode
  have hversions : (st.txLines.map TxRow.version).map UInt64.toNat =
      (inputs.map (fun input => input.chunk env start)).flatMap ChunkFile.versions := by
    rw [hlines, List.map_map, List.map_map, List.map_flatMap]
    rfl
  rw [hversions]
  -- a chunk is consecutive in itself; of several, each starts behind the one before
  cases source with
  | file path =>
    obtain rfl := Except.ok.inj h.resolved
    obtain ⟨first, hfirst⟩ := (hdecoded _ (List.mem_singleton.2 rfl)).consecutive
    exact ⟨first, by simpa using hfirst⟩
  | directory path entries =>
    obtain ⟨first, hfirst, -⟩ := consecutive_of_validateDeclared hvalid hdecoded
    exact ⟨first, hfirst⟩

/-- The manifest counts the versions of its range, so only the range of all versions is
refused: its length is no `u64`. -/
theorem ProtobufRun.validateManifestRange_iff (h : ProtobufRun env cwd out options source start dir
    inputs st hashes) :
    validateManifestRange (protobufDataset options st hashes).manifest = .ok () ↔
      ¬ ((protobufDataset options st hashes).manifest.startVersion = 0 ∧
        (protobufDataset options st hashes).manifest.endVersion = some u64Max) := by
  obtain ⟨first, hconsecutive⟩ := h.consecutive
  have hne : st.txLines.map TxRow.version ≠ [] := by
    rw [ne_eq, List.map_eq_nil_iff]
    exact (txLines_ne_nil h.decoded).2
  have hdecode := h.decoded
  unfold decodeRawInputs at hdecode
  simp only at hdecode
  split_ifs at hdecode
  · cases hdecode
  obtain ⟨⟨⟩, -, hdecode⟩ := bind_eq_ok_iff.1 hdecode
  obtain ⟨htracks, -, -⟩ := decodeChunks_ok hdecode
  obtain ⟨least, greatest, hmin, hmax, hleast, hgreatest⟩ :=
    min?_eq_of_consecutive hconsecutive hne
  have hlength := List.length_pos_iff.2 hne
  have hstart : (protobufDataset options st hashes).manifest.startVersion = least := by
    show st.firstVersion.getD 0 = least
    rw [htracks.first, hmin]
    rfl
  have hend : (protobufDataset options st hashes).manifest.endVersion = some greatest :=
    htracks.last.trans hmax
  rw [hstart, hend, Option.some.injEq]
  constructor
  · rintro hok ⟨hzero, hall⟩
    rw [hzero] at hstart
    rw [hall] at hend
    unfold validateManifestRange at hok
    rw [hend] at hok
    simp only [hstart] at hok
    -- the length of the range is no `u64`
    split_ifs at hok with hbefore hnone hspan
    exact hspan (by decide)
  · intro hall
    have hbound := length_lt_size_of_not_all hleast hgreatest hall
    have hcount : (protobufDataset options st hashes).manifest.rawTransactionCount.toNat =
        (st.txLines.map TxRow.version).length := by
      rw [List.length_map] at hbound ⊢
      exact (congrArg UInt64.toNat htracks.count).trans (UInt64.toNat_ofNat_of_lt' hbound)
    refine validateManifestRange_ok hend ?_ ?_
    · rw [hstart]
      omega
    · rw [hcount, hstart]
      omega

/-- The digests of the raw files and of the artifacts are recorded, and no others. -/
theorem ProtobufRun.keys (h : ProtobufRun env cwd out options source start dir inputs st hashes)
    (key : String) :
    (hashes.get? ⟨key⟩).isSome ↔
      (∃ path ∈ source.rawPaths, artifactKey out.root path = key) ∨
        key ∈ RawFormat.protobufZstd.hashedArtifacts env
          (Store.applyAll start (fileWrites (protobufFiles env st))) := by
  have hhashed := h.hashed
  rw [protobufHashes_eq] at hhashed
  obtain ⟨hdigests, hkeys⟩ := recordAll_ok hhashed
  have hinputs := resolveRawInputs_perm h.resolved
  -- nothing is recorded but the raw files and the artifacts, and each of them is
  constructor
  · intro hkey
    obtain ⟨digest, hdigest⟩ := Option.isSome_iff_exists.1 hkey
    rcases hdigests key digest hdigest with hold | ⟨place, content, hmem, -, -⟩
    · cases hold
    · rcases List.mem_append.1 hmem with hmem | hmem
      · obtain ⟨input, hinput, heq⟩ := List.mem_map.1 hmem
        obtain ⟨path, hpath, rfl⟩ := List.mem_map.1 (hinputs.mem_iff.1 hinput)
        exact .inl ⟨path, hpath, congrArg Prod.fst heq⟩
      · obtain ⟨relative, hrelative, heq⟩ := List.mem_map.1 hmem
        obtain rfl : relative = key := congrArg Prod.fst heq
        exact .inr hrelative
  · rintro (⟨path, hpath, rfl⟩ | hrelative)
    · have hinput : rawInputAt cwd out.root path ∈ inputs :=
        hinputs.mem_iff.2 (List.mem_map_of_mem hpath)
      exact hkeys (artifactKey out.root path, placeOf cwd out.root path)
        (List.mem_append_left _ (List.mem_map.2 ⟨_, hinput, rfl⟩))
    · exact hkeys (key, .dataset key)
        (List.mem_append_right _ (List.mem_map.2 ⟨key, hrelative, rfl⟩))

theorem validateRequiredManifestArtifacts_eq_ok_iff {rawEncoding : DatasetEncoding}
    {manifest : DatasetManifest} :
    validateRequiredManifestArtifacts rawEncoding manifest = .ok () ↔
      (∀ relative ∈ requiredNormalizedArtifacts, (manifest.hashes.get? ⟨relative⟩).isSome) ∧
        (rawEncoding = .synthetic ∨
          ∃ key, (manifest.hashes.get? ⟨key⟩).isSome ∧ isRawKey key) := by
  have hany : manifest.hashes.entries.any (fun entry => isRawKey entry.1.str) = true ↔
      ∃ key, (manifest.hashes.get? ⟨key⟩).isSome ∧ isRawKey key := by
    rw [List.any_eq_true]
    constructor
    · rintro ⟨⟨⟨key⟩, digest⟩, hentry, hraw⟩
      rw [← SortedMap.get?_eq_some_iff_mem] at hentry
      exact ⟨key, by rw [hentry]; rfl, hraw⟩
    · rintro ⟨key, hkey, hraw⟩
      obtain ⟨digest, hdigest⟩ := Option.isSome_iff_exists.1 hkey
      exact ⟨_, (SortedMap.get?_eq_some_iff_mem _ _ _).1 hdigest, hraw⟩
  have hforM : requiredNormalizedArtifacts.forM (requireArtifact manifest) = .ok () ↔
      ∀ relative ∈ requiredNormalizedArtifacts, (manifest.hashes.get? ⟨relative⟩).isSome := by
    rw [forM_eq_ok_iff]
    refine forall₂_congr fun relative _ => ?_
    unfold requireArtifact
    split_ifs with hkey <;> simp [hkey]
  unfold validateRequiredManifestArtifacts
  split_ifs with hempty hraw
  · -- without digests, none of the required ones is there
    refine ⟨nofun, fun h => ?_⟩
    have hfirst := h.1 "normalized/txs.ndjson" List.mem_cons_self
    obtain ⟨digest, hdigest⟩ := Option.isSome_iff_exists.1 hfirst
    rw [SortedMap.get?_eq_some_iff_mem, List.isEmpty_iff.1 hempty] at hdigest
    cases hdigest
  · rw [hany] at hraw
    rw [bind_eq_ok_iff]
    exact ⟨fun ⟨_, _, h⟩ => (nomatch h), fun h => absurd (h.2.resolve_left hraw.1) hraw.2⟩
  · rw [hany, not_and_or, not_not, not_not] at hraw
    rw [bind_eq_ok_iff, ← hforM]
    exact ⟨fun ⟨⟨⟩, h, _⟩ => ⟨h, hraw⟩, fun h => ⟨(), h.1, rfl⟩⟩

/-- No artifact is a file below `raw`. -/
theorem not_isRawKey_of_mem_hashedArtifacts {format : RawFormat} {relative : String}
    (h : relative ∈ format.hashedArtifacts env dir) : isRawKey relative = false := by
  have hall : ∀ relative ∈ normalizedArtifacts ++ queryCorpusArtifacts,
      isRawKey relative = false := by decide
  apply hall
  -- a protobuf run hashes the query files as well
  cases format with
  | fixtureJsonl => exact List.mem_append_left _ h
  | protobufZstd =>
    rcases List.mem_append.1 h with hmem | hmem
    · exact List.mem_append_left _ hmem
    · exact List.mem_append_right _ (List.mem_filter.1 hmem).1

theorem checks_of_acceptManifest {manifest : DatasetManifest}
    (h : acceptManifest env dir = .ok manifest) :
    dir.manifest = some manifest ∧ validateManifestSchemaVersion manifest = .ok () ∧
      validateManifestHashes env dir manifest = .ok () := by
  unfold acceptManifest at h
  -- the checks in the order they are made: the file, its schema version, the digests
  cases hmanifest : dir.manifest with
  | none =>
    rw [hmanifest] at h
    cases h
  | some found =>
    rw [hmanifest] at h
    obtain ⟨⟨⟩, hschema, h⟩ := bind_eq_ok_iff.1 h
    obtain ⟨⟨⟩, hhashes, h⟩ := bind_eq_ok_iff.1 h
    cases h
    exact ⟨rfl, hschema, hhashes⟩

/-- What the benchmark checks of a run whose dataset passes the checks of a replay. -/
theorem ProtobufRun.validateBenchmarkDataset_iff (h : ProtobufRun env cwd out options source start
    dir inputs st hashes)
    (haccept : acceptManifest env dir = .ok (protobufDataset options st hashes).manifest) :
    validateBenchmarkDataset env dir RawFormat.protobufZstd.rawEncoding
        (protobufDataset options st hashes).manifest = .ok () ↔
      (∃ path ∈ source.rawPaths, isRawKey (artifactKey out.root path)) ∧
        ¬ ((protobufDataset options st hashes).manifest.startVersion = 0 ∧
          (protobufDataset options st hashes).manifest.endVersion = some u64Max) := by
  obtain ⟨-, hschema, hhashes⟩ := checks_of_acceptManifest haccept
  have hrequired : ∀ relative ∈ requiredNormalizedArtifacts, (hashes.get? ⟨relative⟩).isSome :=
    fun relative hrelative => (h.keys relative).2 (.inr (List.mem_append_left _ hrelative))
  -- no artifact lies below `raw`, so such a key is that of a raw file
  have hraw : (∃ key, (hashes.get? ⟨key⟩).isSome ∧ isRawKey key) ↔
      ∃ path ∈ source.rawPaths, isRawKey (artifactKey out.root path) := by
    constructor
    · rintro ⟨key, hkey, hraw⟩
      rcases (h.keys key).1 hkey with ⟨path, hpath, rfl⟩ | hartifact
      · exact ⟨path, hpath, hraw⟩
      · rw [not_isRawKey_of_mem_hashedArtifacts hartifact] at hraw
        cases hraw
    · rintro ⟨path, hpath, hraw⟩
      exact ⟨_, (h.keys _).2 (.inl ⟨path, hpath, rfl⟩), hraw⟩
  -- a run writes all required artifacts, and its encoding is not the synthetic one
  have hartifacts : validateRequiredManifestArtifacts RawFormat.protobufZstd.rawEncoding
      (protobufDataset options st hashes).manifest = .ok () ↔
        ∃ path ∈ source.rawPaths, isRawKey (artifactKey out.root path) := by
    rw [validateRequiredManifestArtifacts_eq_ok_iff, ← hraw]
    exact ⟨fun ⟨_, hkey⟩ => hkey.resolve_left (by decide), fun hkey => ⟨hrequired, .inr hkey⟩⟩
  -- schema version and digests have passed already
  rw [← h.validateManifestRange_iff, ← hartifacts, and_comm]
  unfold validateBenchmarkDataset
  simp only [bind_eq_ok_iff]
  constructor
  · rintro ⟨-, -, ⟨⟩, hrange, ⟨⟩, hfound, -⟩
    exact ⟨hrange, hfound⟩
  · rintro ⟨hrange, hfound⟩
    exact ⟨(), hschema, (), hrange, (), hfound, hhashes⟩

/-- **What the benchmark accepts.** A protobuf run that succeeds on recordable raw files leaves
a dataset that the benchmark accepts if and only if one of these files is recorded below `raw`
and the versions are not all of `u64`. -/
theorem benchmark_accepts_iff (env : DatasetEnv) (cwd : String) (out : NormalizedDir)
    (options : ParserOptions) (source : RawSource) (start dir : DatasetDir)
    (hdir : dir =
      Store.applyAll start (normalizeCommand env cwd out options .protobufZstd source start).steps)
    (hrun : (normalizeCommand env cwd out options .protobufZstd source start).result = .ok ())
    (hrecordable : ∀ path ∈ source.rawPaths, Recordable cwd out.root path) :
    ∃ manifest, dir.manifest = some manifest ∧
      (validateBenchmarkDataset env dir RawFormat.protobufZstd.rawEncoding manifest = .ok () ↔
        (∃ path ∈ source.rawPaths, isRawKey (artifactKey out.root path)) ∧
          ¬ (manifest.startVersion = 0 ∧ manifest.endVersion = some u64Max)) := by
  obtain ⟨inputs, st, hashes, h⟩ := exists_protobufRun hrun
  obtain ⟨manifest, haccept⟩ := accept_of_recordable hrun hrecordable
  rw [← hdir] at h haccept
  -- the manifest that passed is the one that the run wrote last
  obtain rfl : manifest = (protobufDataset options st hashes).manifest :=
    Option.some.inj ((checks_of_acceptManifest haccept).1.symm.trans h.leaves.manifest)
  exact ⟨_, h.leaves.manifest, h.validateBenchmarkDataset_iff haccept⟩

end Accepting

/-! ## Measuring queries that succeed -/

section Measuring

variable {curve : UInt64 → Nat → Nat} {engine : StorageReads} {corpus : List QueryCorpusRecord}
  {config : QueryMeasureConfig}

theorem DeterministicRng.nextUsize_lt (rng : DeterministicRng) {upper : Nat} (h : 0 < upper) :
    (rng.nextUsize upper).1 < upper := by
  unfold DeterministicRng.nextUsize
  split_ifs
  · exact h
  · exact Nat.mod_lt _ h

theorem DeterministicRng.nextZipfLike_lt (rng : DeterministicRng) {upper : Nat} (h : 0 < upper) :
    (rng.nextZipfLike curve upper).1 < upper := by
  unfold DeterministicRng.nextZipfLike
  split_ifs
  · exact h
  · show min _ (upper - 1) < upper
    omega

/-- The record that is chosen is one of the corpus. -/
theorem queryIndex_lt {corpusLen : Nat} (hcorpus : 0 < corpusLen) {accessPattern : String}
    {idx recordIdx : Nat} {rng rng' : DeterministicRng}
    (h : queryIndex curve accessPattern idx corpusLen rng = .ok (recordIdx, rng')) :
    recordIdx < corpusLen := by
  unfold queryIndex at h
  -- one case for each access pattern
  split_ifs at h with huniform hzipfian hempty
  · have hdraw : (rng.nextUsize corpusLen).1 = recordIdx :=
      congrArg Prod.fst (Except.ok.inj h)
    rw [← hdraw]
    exact rng.nextUsize_lt hcorpus
  · have hdraw : (rng.nextZipfLike curve corpusLen).1 = recordIdx :=
      congrArg Prod.fst (Except.ok.inj h)
    rw [← hdraw]
    exact rng.nextZipfLike_lt hcorpus
  · have hnext : idx % corpusLen = recordIdx := congrArg Prod.fst (Except.ok.inj h)
    rw [← hnext]
    exact Nat.mod_lt _ hcorpus

theorem executionsFrom_lt {input : QueryWorkerInput} (hcorpus : 0 < input.corpus.length)
    (idx : Nat) (rng : DeterministicRng) :
    ∀ execution ∈ executionsFrom curve input idx rng, execution.2 < input.corpus.length := by
  fun_induction executionsFrom curve input idx rng with
  | case1 => simp
  | case2 idx rng _ recordIdx rng' hchoice ih =>
    exact List.forall_mem_cons.2 ⟨queryIndex_lt hcorpus hchoice, ih⟩
  | case3 => simp

/-- Every record of the corpus is executed without an error. -/
def ExecutesAll (engine : StorageReads) (corpus : List QueryCorpusRecord) : Prop :=
  ∀ record ∈ corpus, executeQuery engine record = .ok ()

theorem ExecutesAll.executeAt (h : ExecutesAll engine corpus) {recordIdx : Nat}
    (hlt : recordIdx < corpus.length) : HotIndex.executeAt engine corpus recordIdx = .ok () := by
  unfold HotIndex.executeAt
  rw [List.getElem?_eq_getElem hlt]
  exact h _ (List.getElem_mem hlt)

theorem ExecutesAll.warmupQueries (h : ExecutesAll engine corpus) (hcorpus : corpus ≠ []) :
    HotIndex.warmupQueries curve engine corpus config = .ok () := by
  have hlength := List.length_pos_iff.2 hcorpus
  unfold HotIndex.warmupQueries
  -- no step fails, whatever the generator is
  refine bind_eq_ok_iff.2 ((exists_foldlM_eq_ok (P := fun _ _ => True) trivial ?_).imp
    fun _ hrng => ⟨hrng, rfl⟩)
  intro idx rest rng _
  obtain ⟨recordIdx, rng', hchoice⟩ :=
    @queryIndex_isOk curve _ hlength config.accessPattern idx rng
  exact ⟨rng', bind_eq_ok_iff.2 ⟨_, hchoice, bind_eq_ok_iff.2
    ⟨(), h.executeAt (queryIndex_lt hlength hchoice), rfl⟩⟩, trivial⟩

/-- A configuration that passes the checks of `measure_queries`, with indices that stay in a
`usize`. -/
structure QueryMeasureConfig.Valid (config : QueryMeasureConfig) : Prop where
  pattern : validateAccessPattern config.accessPattern = .ok ()
  concurrency : 0 < config.concurrency
  iterations : config.concurrency ≤ config.iterations
  indices : config.iterations + config.concurrency ≤ usizeSize

/-- What the benchmark counts if no query fails. -/
def QueryMeasureConfig.clean (config : QueryMeasureConfig) : BenchResult where
  operations := UInt64.ofNat config.iterations
  errors := 0

/-- Queries that succeed are counted, and no errors are. -/
theorem ExecutesAll.measureQueries (h : ExecutesAll engine corpus) (hcorpus : corpus ≠ [])
    (hconfig : config.Valid) :
    HotIndex.measureQueries curve engine corpus config = .ok config.clean := by
  -- workers draw records of the corpus only, and those all succeed
  have hlt : ∀ execution ∈ config.executions curve engine corpus hconfig.concurrency,
      execution.2 < corpus.length := by
    intro execution hexecution
    obtain ⟨workerIdx, -, hworker⟩ := List.mem_flatMap.1 hexecution
    exact @executionsFrom_lt curve (config.worker engine corpus hconfig.concurrency workerIdx)
      (List.length_pos_iff.2 hcorpus) workerIdx _ execution hworker
  refine (measureQueries_eq_ok_iff hconfig.pattern hconfig.concurrency hconfig.iterations
    hconfig.indices hcorpus _).2 ⟨h.warmupQueries hcorpus, fun execution hexecution => ?_, ?_⟩
  · unfold executionPanics
    rw [h.executeAt (hlt execution hexecution)]
  · have hnone : (config.executions curve engine corpus hconfig.concurrency).countP
        (fun execution => executionFails engine corpus execution.2) = 0 := by
      rw [List.countP_eq_zero]
      intro execution hexecution
      unfold executionFails
      rw [h.executeAt (hlt execution hexecution)]
      simp
    rw [hnone]
    rfl

end Measuring

/-! ## The corpus of a workload -/

section Served

variable {manifest : DatasetManifest} {rows : QueryCorpusRows} {workload file : String}

/-- The manifest counts the rows. -/
structure DatasetManifest.Counts (manifest : DatasetManifest) (rows : QueryCorpusRows) :
    Prop where
  fills : manifest.fillCount = UInt64.ofNat rows.fills.length
  builderRows : manifest.builderCodeRowCount = UInt64.ofNat rows.builderRows.length

theorem ne_nil_of_supported (hcounts : manifest.Counts rows)
    (h : ensureServingWorkloadSupported manifest workload = .ok ()) :
    (requiresFills workload → rows.fills ≠ []) ∧
      (requiresBuilderRows workload → rows.builderRows ≠ []) := by
  unfold ensureServingWorkloadSupported at h
  split_ifs at h with hevents hfills hbuilders
  -- the manifest counts the rows, so no rows would be a count of zero
  refine ⟨fun hrequires hnil => hfills ⟨hrequires, ?_⟩,
    fun hrequires hnil => hbuilders ⟨hrequires, ?_⟩⟩
  · rw [hcounts.fills, hnil]
    rfl
  · rw [hcounts.builderRows, hnil]
    rfl

/-- The file has records of the corpus. -/
def Serves (rows : QueryCorpusRows) (file : String) : Prop :=
  ∃ records, (file, records) ∈ queryCorpusFiles (buildQueryCorpus rows) ∧ records ≠ [] ∧
    ∀ record ∈ records, record ∈ buildQueryCorpus rows

/-- The file of a kind has records if the rows have one of the kind. -/
theorem serves_kind {record : QueryCorpusRecord}
    (hfile : (file, queryKindRows (buildQueryCorpus rows) record.queryKind) ∈
      queryCorpusFiles (buildQueryCorpus rows)) (hrecord : record ∈ rows.coverage) :
    Serves rows file := by
  refine ⟨_, hfile, ?_, fun other hother => (List.mem_filter.1 hother).1⟩
  have hcorpus := (buildQueryCorpus_perm rows).mem_iff.2 hrecord
  exact List.ne_nil_of_mem (List.mem_filter.2 ⟨hcorpus, by simp⟩)

theorem serves_all (htxs : rows.txs ≠ []) : Serves rows "mixed_dashboard.ndjson" :=
  ⟨_, List.mem_cons_self, buildQueryCorpus_ne_nil htxs, fun _ => id⟩

theorem mem_records {α κ : Type} [DecidableEq κ] (record : κ → QueryCorpusRecord) (key : α → κ)
    {l : List α} {a : α} (h : a ∈ l) : record (key a) ∈ (l.map key).dedup.map record :=
  List.mem_map_of_mem (List.mem_dedup.2 (List.mem_map_of_mem h))

/-- A workload that is supported has a file with records of the corpus. -/
theorem serves_of_supported (hcounts : manifest.Counts rows) (htxs : rows.txs ≠ [])
    (hfile : workloadFiles.lookup workload = some file)
    (hsupported : ensureServingWorkloadSupported manifest workload = .ok ()) :
    Serves rows file := by
  obtain ⟨hfills, hbuilders⟩ := ne_nil_of_supported hcounts hsupported
  obtain ⟨tx, htx⟩ := List.exists_mem_of_ne_nil _ htxs
  have hversions : rows.versions = rows.txs.map TxRow.version := if_neg htxs
  have hentry : (workload, file) ∈ workloadFiles := by
    obtain ⟨before, after, hsplit, -⟩ := List.lookup_eq_some_iff.1 hfile
    rw [hsplit]
    simp
  simp only [workloadFiles, List.mem_cons, Prod.mk.injEq, List.not_mem_nil, or_false] at hentry
  -- one case a workload: a row of its kind gives its file a record
  rcases hentry with ⟨rfl, rfl⟩ | ⟨rfl, rfl⟩ | ⟨rfl, rfl⟩ | ⟨rfl, rfl⟩ | ⟨rfl, rfl⟩ |
    ⟨rfl, rfl⟩ | ⟨rfl, rfl⟩ | ⟨rfl, rfl⟩
  · have hrecord := mem_records versionRecord TxRow.version htx
    apply @serves_kind rows _ (versionRecord tx.version)
    · simp [queryCorpusFiles, versionRecord]
    · simp only [QueryCorpusRows.coverage, List.mem_append, hversions, hrecord, true_or]
  · have hrecord : smallestVersions rows.versions ≠ [] := by
      simp [smallestVersions, hversions, htxs]
    obtain ⟨record, hrecord⟩ := List.exists_mem_of_ne_nil _ hrecord
    have hkind : record.queryKind = .multiGetTxVersions := by
      unfold smallestVersions at hrecord
      split_ifs at hrecord with hnone
      · cases hrecord
      · rw [List.mem_singleton.1 hrecord]
    apply @serves_kind rows _ record
    · simp [queryCorpusFiles, hkind]
    · exact List.mem_append_right _ hrecord
  · obtain ⟨fill, hfill⟩ := List.exists_mem_of_ne_nil _ (hfills (by decide))
    have hrecord := mem_records marketRecord FillRow.marketId hfill
    apply @serves_kind rows _ (marketRecord fill.marketId)
    · simp [queryCorpusFiles, marketRecord]
    · simp only [QueryCorpusRows.coverage, List.mem_append, hrecord, true_or, or_true]
  · obtain ⟨fill, hfill⟩ := List.exists_mem_of_ne_nil _ (hfills (by decide))
    have hrecord := mem_records accountRecord FillRow.account hfill
    apply @serves_kind rows _ (accountRecord fill.account)
    · simp [queryCorpusFiles, accountRecord]
    · simp only [QueryCorpusRows.coverage, List.mem_append, hrecord, true_or, or_true]
  · obtain ⟨row, hrow⟩ := List.exists_mem_of_ne_nil _ (hbuilders (by decide))
    have hrecord := mem_records builderScanRecord BuilderAttributionRow.builderAddr hrow
    apply @serves_kind rows _ (builderScanRecord row.builderAddr)
    · simp [queryCorpusFiles, builderScanRecord]
    · simp only [QueryCorpusRows.coverage, List.mem_append, hrecord, true_or, or_true]
  · obtain ⟨row, hrow⟩ := List.exists_mem_of_ne_nil _ (hbuilders (by decide))
    have hrecord := mem_records builderVolumeRecord BuilderAttributionRow.builderAddr hrow
    apply @serves_kind rows _ (builderVolumeRecord row.builderAddr)
    · simp [queryCorpusFiles, builderVolumeRecord]
    · simp only [QueryCorpusRows.coverage, List.mem_append, hrecord, true_or, or_true]
  · exact serves_all htxs
  · exact serves_all htxs

end Served

/-! ## Serving what was normalized -/

section Clean

variable {curve : UInt64 → Nat → Nat} {env : DatasetEnv} {cwd : String} {out : NormalizedDir}
  {options : ParserOptions} {source : RawSource} {start dir : DatasetDir} {inputs : List RawInput}
  {st : DecodeState} {hashes : SortedMap Text String} {workload : String}
  {config : QueryMeasureConfig}

/-- In a dataset with its corpus, the corpus of a supported workload is found, as its digest says,
and an engine that executes the corpus of the rows serves it. -/
theorem HasCorpus.runServingBench {rows : QueryCorpusRows} {manifest : DatasetManifest}
    (h : HasCorpus env dir rows) (hmanifest : dir.manifest = some manifest)
    (hcounts : manifest.Counts rows) (htxs : rows.txs ≠ [])
    (hquery : ∀ record ∈ buildQueryCorpus rows,
      env.query.RoundTrips record ∧ env.query.WritesLine record)
    (hworkload : (workloadFiles.lookup workload).isSome)
    (hsupported : ensureServingWorkloadSupported manifest workload = .ok ())
    (hconfig : config.Valid) {backend : String} {db : RocksDb} {engine : StorageReads}
    (hengine : servingEngine env dir backend db = .ok engine)
    (hall : ExecutesAll engine (buildQueryCorpus rows)) :
    HotIndex.runServingBench curve env dir manifest backend workload db config =
      .ok config.clean := by
  obtain ⟨file, hfile⟩ := Option.isSome_iff_exists.1 hworkload
  obtain ⟨records, hrecords, hne, hmem⟩ := serves_of_supported hcounts htxs hfile hsupported
  -- the file is there, under its digest
  have hwritten : ("queries/" ++ file, ndjson env.query records) ∈
      HotIndex.queryFiles env (buildQueryCorpus rows) :=
    List.mem_map.2 ⟨_, hrecords, rfl⟩
  have hcontent := h.files _ hwritten
  have hartifact : "queries/" ++ file ∈ queryCorpusArtifacts := by
    rw [← names_queryFiles env (buildQueryCorpus rows)]
    exact List.mem_map.2 ⟨_, hwritten, rfl⟩
  have hread : dir.read? env (.dataset ("queries/" ++ file)) = some (ndjson env.query records) := by
    rw [DatasetDir.read?, if_neg (query_ne_manifest hartifact)]
    exact hcontent
  obtain ⟨found, hfound, hdigests⟩ := h.digests
  obtain rfl : found = manifest := Option.some.inj (hfound.symm.trans hmanifest)
  have hreport : queryCorpusReport env dir workload =
      .ok ⟨workload, "queries/" ++ file, sha256Hex (ndjson env.query records)⟩ := by
    unfold queryCorpusReport
    rw [hfile]
    exact bind_eq_ok_iff.2 ⟨_, sha256File_eq_ok_iff.2 ⟨_, hread, rfl⟩, rfl⟩
  have hhash : validateQueryCorpusHash found
      ⟨workload, "queries/" ++ file, sha256Hex (ndjson env.query records)⟩ = .ok () := by
    unfold validateQueryCorpusHash
    rw [hdigests _ hartifact _ hcontent]
    exact if_pos rfl
  have hcorpus : readNdjson env env.query dir (.dataset ("queries/" ++ file)) = .ok records :=
    readNdjson_written (fun record hrecord => (hquery record (hmem record hrecord)).2)
      (fun record hrecord => (hquery record (hmem record hrecord)).1) hread
  have hserved : ExecutesAll engine records := fun record hrecord =>
    hall record (hmem record hrecord)
  unfold HotIndex.runServingBench
  rw [hsupported, hreport]
  show ((validateQueryCorpusHash _ _).mapError Fault.error >>= _) = _
  rw [hhash]
  show ((readNdjson env env.query dir (.dataset ("queries/" ++ file))).mapError Fault.error >>= _) =
    _
  rw [hcorpus]
  show (if records.isEmpty then _ else _) = _
  rw [if_neg (mt List.isEmpty_iff.1 hne), hengine]
  exact hserved.measureQueries hne hconfig

/-- An engine that finds the rows executes the corpus. -/
theorem executesAll_of_hits {engine : StorageReads} {ops : List PutOp} {rows : QueryCorpusRows}
    (hhits : engine.Hits ops) (hput : rows.PutBy ops) (hfit : VolumesFit engine rows.builderRows)
    (htxs : rows.txs ≠ []) : ExecutesAll engine (buildQueryCorpus rows) :=
  fun _ hrecord => executeQuery_ok hhits hput hfit (corpusRecord_of_mem (fun _ => htxs) hrecord)

/-- Replayed operations that were all stored have texts that may stand in keys. -/
theorem textOk_of_exec_forM {json : SerdeJson} {ops : List PutOp} {db db' : RocksDb}
    (h : RocksDb.exec (ops.forM (RocksDb.put json)) db = (.ok (), db')) :
    ∀ op ∈ ops, op.TextOk := by
  -- a put that succeeds has built all of its keys
  induction ops generalizing db with
  | nil => simp
  | cons op ops ih =>
    rw [List.forM_eq_forM, List.forM_cons] at h
    rcases hop : RocksDb.exec (RocksDb.put json op) db with ⟨result, between⟩
    cases result with
    | error fault =>
      rw [RocksDb.exec_bind_of_error hop] at h
      cases h
    | ok _ =>
      rw [RocksDb.exec_bind_of_ok hop] at h
      exact List.forall_mem_cons.2 ⟨RocksDb.textOk_of_exec_put hop, ih h⟩

section Engines

variable {dataset : NormalizedDataset}

/-- A memory engine that replays the dataset serves its corpus. -/
theorem Leaves.memory_serves (h : Leaves env dataset dir)
    (hlossless : ∀ op ∈ dataset.rows.ingestRows.ops, env.serde.Lossless op)
    (haccept : acceptManifest env dir = .ok dataset.manifest) (htxs : dataset.rows.txs ≠ [])
    (hfills : (dataset.rows.fills.map FillRow.fillId).Nodup)
    (hfit : VolumesFit ((MemoryEngine.empty.run dataset.replayOps).reads env.serde Sha256.digest)
      dataset.rows.builderRows) (db : RocksDb) :
    ∃ engine, servingEngine env dir "memory" db = .ok engine ∧
      ExecutesAll engine (buildQueryCorpus dataset.rows.ingestRows.queryRows) := by
  -- the corpus is made of rows that the replay puts
  have hput : dataset.rows.ingestRows.queryRows.PutBy dataset.replayOps := by
    rw [← NormalizedDataset.ingest_replayOps]
    exact (IngestDataset.mk _ dataset.rows.ingestRows).queryRows_putBy
  have hids : ((dataset.replayOps.filterMap PutOp.fill?).map FillRow.fillId).Nodup := by
    rw [← NormalizedDataset.ingest_replayOps, IngestDataset.fills_replayOps]
    exact hfills
  refine ⟨_, ?_, executesAll_of_hits (MemoryEngine.reads_hits hids) hput hfit htxs⟩
  -- the memory engine is filled by the replay of the benchmark
  unfold servingEngine
  rw [if_pos rfl, (h.replay hlossless haccept MemoryEngine.putM).2, MemoryEngine.forM_putM]
  rfl

/-- A database that a replay of the dataset left serves its corpus. -/
theorem Leaves.rocksdb_serves (h : Leaves env dataset dir)
    (hlossless : ∀ op ∈ dataset.rows.ingestRows.ops, env.serde.Lossless op)
    (haccept : acceptManifest env dir = .ok dataset.manifest) (htxs : dataset.rows.txs ≠ [])
    {db : RocksDb}
    (hdb : RocksDb.exec (DatasetTool.replayIntoEngine env dir (RocksDb.put env.serde)) .empty =
      (.ok (), db))
    (htrips : ∀ op ∈ dataset.replayOps, env.serde.RoundTrips op)
    (hfit : VolumesFit (db.reads env.serde Sha256.digest) dataset.rows.builderRows) :
    ∃ engine, servingEngine env dir "rocksdb" db = .ok engine ∧
      ExecutesAll engine (buildQueryCorpus dataset.rows.ingestRows.queryRows) := by
  have hput : dataset.rows.ingestRows.queryRows.PutBy dataset.replayOps := by
    rw [← NormalizedDataset.ingest_replayOps]
    exact (IngestDataset.mk _ dataset.rows.ingestRows).queryRows_putBy
  rw [(h.replay hlossless haccept (RocksDb.put env.serde)).1] at hdb
  -- a replay that succeeded leaves the database of its operations
  have htexts := textOk_of_exec_forM hdb
  obtain rfl : db = RocksDb.afterRun env.serde dataset.replayOps :=
    congrArg Prod.snd (hdb.symm.trans (RocksDb.exec_run_empty env.serde htexts))
  refine ⟨_, ?_, executesAll_of_hits (RocksDb.reads_hits htexts htrips) hput hfit htxs⟩
  unfold servingEngine
  rw [if_neg (by decide), if_pos rfl]

end Engines

/-- A dataset that passes the checks is served by an engine that executes its corpus. -/
theorem HasCorpus.runServingCommand {rows : QueryCorpusRows} {manifest : DatasetManifest}
    (h : HasCorpus env dir rows) (hmanifest : dir.manifest = some manifest)
    (hcounts : manifest.Counts rows) (htxs : rows.txs ≠ [])
    (hquery : ∀ record ∈ buildQueryCorpus rows,
      env.query.RoundTrips record ∧ env.query.WritesLine record) {rawEncoding : DatasetEncoding}
    (hvalid : validateBenchmarkDataset env dir rawEncoding manifest = .ok ())
    (hworkload : (workloadFiles.lookup workload).isSome)
    (hsupported : ensureServingWorkloadSupported manifest workload = .ok ())
    (hconfig : config.Valid) {backend : String} {db : RocksDb}
    (hengine : ∃ engine, servingEngine env dir backend db = .ok engine ∧
      ExecutesAll engine (buildQueryCorpus rows)) :
    HotIndex.runServingCommand curve env dir rawEncoding backend workload db config =
      .ok config.clean := by
  obtain ⟨engine, hengine, hall⟩ := hengine
  unfold HotIndex.runServingCommand
  -- the checks that come before the measurement
  rw [if_neg (by have := hconfig.concurrency; omega), DatasetDir.readManifest, hmanifest]
  show ((validateBenchmarkDataset env dir _ _).mapError Fault.error >>= _) = _
  rw [hvalid]
  exact h.runServingBench hmanifest hcounts htxs hquery hworkload hsupported hconfig hengine hall

/-- **A clean run.** A protobuf run that succeeds on recordable raw files, one of them below
`raw`, leaves a dataset on which every workload that the manifest has rows for can be measured:
the benchmark reports all iterations and no errors, from a memory engine if the ids of the
fills are distinct, and from the RocksDB database that a replay of the dataset left. -/
theorem servingBench_clean (curve : UInt64 → Nat → Nat) (env : DatasetEnv) (cwd : String)
    (out : NormalizedDir) (options : ParserOptions) (source : RawSource) (start dir : DatasetDir)
    (workload : String) (config : QueryMeasureConfig)
    (hdir : dir =
      Store.applyAll start (normalizeCommand env cwd out options .protobufZstd source start).steps)
    (hrun : (normalizeCommand env cwd out options .protobufZstd source start).result = .ok ())
    (hrecordable : ∀ path ∈ source.rawPaths, Recordable cwd out.root path)
    (hraw : ∃ path ∈ source.rawPaths, isRawKey (artifactKey out.root path))
    (hrange : ∀ manifest ∈ dir.manifest,
      ¬ (manifest.startVersion = 0 ∧ manifest.endVersion = some u64Max))
    (hjson : ∀ rows, normalizedRows env cwd out options start .protobufZstd source = .ok rows →
      (∀ op ∈ rows.ingestRows.ops, env.serde.Lossless op) ∧
        ∀ record ∈ buildQueryCorpus rows.ingestRows.queryRows,
          env.query.RoundTrips record ∧ env.query.WritesLine record)
    (hworkload : (workloadFiles.lookup workload).isSome)
    (hsupported : ∀ manifest ∈ dir.manifest,
      ensureServingWorkloadSupported manifest workload = .ok ())
    (hconfig : config.Valid) :
    ∃ dataset : NormalizedDataset,
      normalizedRows env cwd out options start .protobufZstd source = .ok dataset.rows ∧
        ((dataset.rows.fills.map FillRow.fillId).Nodup →
          VolumesFit ((MemoryEngine.empty.run dataset.replayOps).reads env.serde Sha256.digest)
            dataset.rows.builderRows → ∀ db,
          runServingCommand curve env dir RawFormat.protobufZstd.rawEncoding "memory" workload db
            config = .ok config.clean) ∧
        ∀ db, RocksDb.exec (DatasetTool.replayIntoEngine env dir (RocksDb.put env.serde)) .empty =
            (.ok (), db) → (∀ op ∈ dataset.replayOps, env.serde.RoundTrips op) →
          VolumesFit (db.reads env.serde Sha256.digest) dataset.rows.builderRows →
          runServingCommand curve env dir RawFormat.protobufZstd.rawEncoding "rocksdb" workload db
            config = .ok config.clean := by
  obtain ⟨inputs, st, hashes, h⟩ := exists_protobufRun hrun
  obtain ⟨manifest, haccept⟩ := accept_of_recordable hrun hrecordable
  rw [← hdir] at h haccept
  have hmanifest := h.leaves.manifest
  obtain rfl : manifest = (protobufDataset options st hashes).manifest :=
    Option.some.inj ((checks_of_acceptManifest haccept).1.symm.trans hmanifest)
  have hrows : normalizedRows env cwd out options start .protobufZstd source =
      .ok (protobufDataset options st hashes).rows :=
    bind_eq_ok_iff.2 ⟨inputs, h.resolved, bind_eq_ok_iff.2 ⟨st, h.decoded, rfl⟩⟩
  obtain ⟨hlossless, hquery⟩ := hjson _ hrows
  -- the files of a run always hold a transaction
  have htxs : st.queryRows.txs ≠ [] := (txLines_ne_nil h.decoded).2
  have hvalid := (h.validateBenchmarkDataset_iff haccept).2
    ⟨hraw, hrange _ (Option.mem_def.2 hmanifest)⟩
  -- what is left to show is that the engine answers the corpus
  have hcommand : ∀ {backend : String} {db : RocksDb},
      (∃ engine, servingEngine env dir backend db = .ok engine ∧
        ExecutesAll engine (buildQueryCorpus st.queryRows)) →
      runServingCommand curve env dir RawFormat.protobufZstd.rawEncoding backend workload db
        config = .ok config.clean :=
    h.hasCorpus.runServingCommand hmanifest ⟨rfl, rfl⟩ htxs hquery hvalid hworkload
      (hsupported _ (Option.mem_def.2 hmanifest)) hconfig
  refine ⟨protobufDataset options st hashes, hrows, fun hfills hfit db => ?_,
    fun db hdb htrips hfit => ?_⟩
  · exact hcommand (h.leaves.memory_serves hlossless haccept htxs hfills hfit db)
  · exact hcommand (h.leaves.rocksdb_serves hlossless haccept htxs hdb htrips hfit)

end Clean

/-! ## One recorded transaction, served -/

def QueryKind.json : QueryKind → String
  | .getTxByVersion => "\"get_tx_by_version\""
  | .multiGetTxVersions => "\"multi_get_tx_versions\""
  | .marketFillScan => "\"market_fill_scan\""
  | .accountFillScan => "\"account_fill_scan\""
  | .builderCodeFillScan => "\"builder_code_fill_scan\""
  | .builderCodeVolume => "\"builder_code_volume\""
  | .mixedDashboard => "\"mixed_dashboard\""

def QueryCorpusRecord.json (record : QueryCorpusRecord) : String :=
  jsonObject [
    ("query_kind", record.queryKind.json),
    ("tx_version", jsonOption toString record.txVersion),
    ("tx_versions", jsonArray (record.txVersions.map toString)),
    ("market_id", jsonOption jsonText record.marketId),
    ("account", jsonOption jsonText record.account),
    ("builder_addr", jsonOption jsonText record.builderAddr),
    ("limit", jsonOption Nat.repr record.limit)]

theorem QueryCorpusRecord.isJsonLine_json (record : QueryCorpusRecord) :
    IsJsonLine record.json := by
  have hkind : Printable record.queryKind.json := by
    cases record.queryKind <;> decide
  have hlimit : ∀ limit : Nat, Printable (Nat.repr limit) := by
    intro limit
    rw [Nat.repr_eq_ofList_toDigits]
    exact printable_digits _
  exact ⟨_, rfl, by simp [hkind, hlimit]⟩

/-- The corpus of the recorded transaction. -/
def recordedCorpus : List QueryCorpusRecord :=
  [versionRecord 7, { queryKind := .multiGetTxVersions, txVersions := [7] }]

/-- The environment of the recorded transaction, with the JSON of its corpus. -/
def servedEnv : DatasetEnv :=
  { recordedEnv with query := .ofRows QueryCorpusRecord.json recordedCorpus }

def servedRun : DatasetM Unit :=
  normalizeCommand servedEnv "/work" dataOut blankOptions .protobufZstd
    (.file "data/raw/recorded.pb.zst")

def servedRoot : DatasetDir := Store.applyAll chunkRoot (servedRun chunkRoot).steps

theorem startVersion_servedRoot :
    ∀ manifest ∈ servedRoot.manifest, manifest.startVersion ≠ 0 := by
  have hstart : servedRoot.manifest.map (·.startVersion) = some 7 := by decide +kernel
  intro manifest hmanifest
  rw [Option.mem_def.1 hmanifest, Option.map_some, Option.some.injEq] at hstart
  rw [hstart]
  decide

theorem recordedFile_raw :
    ∃ path ∈ (RawSource.file "data/raw/recorded.pb.zst").rawPaths,
      isRawKey (artifactKey dataOut.root path) :=
  ⟨_, List.mem_singleton.2 rfl, by decide +kernel⟩

theorem benchmark_accepts_iff_servedRoot :
    ∃ manifest, servedRoot.manifest = some manifest ∧
      validateBenchmarkDataset servedEnv servedRoot RawFormat.protobufZstd.rawEncoding manifest =
        .ok () := by
  obtain ⟨manifest, hmanifest, haccepts⟩ := benchmark_accepts_iff servedEnv "/work" dataOut
    blankOptions (.file "data/raw/recorded.pb.zst") chunkRoot servedRoot rfl (by decide +kernel)
    recordable_recorded
  refine ⟨manifest, hmanifest, haccepts.2 ⟨recordedFile_raw, fun hall => ?_⟩⟩
  exact startVersion_servedRoot manifest (Option.mem_def.2 hmanifest) hall.1

theorem rows_servedRoot {rows : ParserOutput}
    (h : normalizedRows servedEnv "/work" dataOut blankOptions chunkRoot .protobufZstd
      (.file "data/raw/recorded.pb.zst") = .ok rows) :
    rows.ingestRows.ops = [.putTx (txRowFromTransaction recordedTransaction blankOptions)] ∧
      buildQueryCorpus rows.ingestRows.queryRows = recordedCorpus ∧ rows.fills = [] ∧
        rows.builderRows = [] := by
  have hparsed : (normalizedRows servedEnv "/work" dataOut blankOptions chunkRoot .protobufZstd
      (.file "data/raw/recorded.pb.zst")).map (fun rows =>
        (rows.ingestRows.ops, buildQueryCorpus rows.ingestRows.queryRows, rows.fills,
          rows.builderRows)) =
      .ok ([.putTx (txRowFromTransaction recordedTransaction blankOptions)], recordedCorpus, [],
        []) := by
    decide +kernel
  rw [h] at hparsed
  simpa only [Except.map, Except.ok.injEq, Prod.mk.injEq] using hparsed

theorem lossless_servedRoot (rows : ParserOutput)
    (h : normalizedRows servedEnv "/work" dataOut blankOptions chunkRoot .protobufZstd
      (.file "data/raw/recorded.pb.zst") = .ok rows) :
    (∀ op ∈ rows.ingestRows.ops, servedEnv.serde.Lossless op) ∧
      ∀ record ∈ buildQueryCorpus rows.ingestRows.queryRows,
        servedEnv.query.RoundTrips record ∧ servedEnv.query.WritesLine record := by
  obtain ⟨hops, hcorpus, -⟩ := rows_servedRoot h
  rw [hops, hcorpus]
  constructor
  · refine SerdeJson.ofOps_lossless ?_
    exact ⟨List.nodup_singleton _, .nil, .nil, .nil, .nil, .nil, .nil, .nil⟩
  · intro record hrecord
    exact ⟨Codec.ofRows_roundTrips (by decide +kernel) hrecord,
      Codec.writesLine_of_isJsonLine rfl record.isJsonLine_json⟩

theorem servingBench_clean_servedRoot :
    runServingCommand (fun _ _ => 0) servedEnv servedRoot RawFormat.protobufZstd.rawEncoding
      "memory" "get_tx_by_version" .empty
      { iterations := 10, warmup := 3, concurrency := 4, accessPattern := "uniform",
        seed := "query-corpus-order" } = .ok { operations := 10, errors := 0 } := by
  have hsupported : ∀ manifest ∈ servedRoot.manifest,
      ensureServingWorkloadSupported manifest "get_tx_by_version" = .ok () := by
    intro manifest _
    simp [ensureServingWorkloadSupported, requiresDecibelEvents, requiresFills,
      requiresBuilderRows]
  obtain ⟨dataset, hrows, hmemory, -⟩ := servingBench_clean (fun _ _ => 0) servedEnv "/work" dataOut
    blankOptions (.file "data/raw/recorded.pb.zst") chunkRoot servedRoot "get_tx_by_version"
    { iterations := 10, warmup := 3, concurrency := 4, accessPattern := "uniform",
      seed := "query-corpus-order" } rfl (by decide +kernel) recordable_recorded recordedFile_raw
    (fun manifest hmanifest hall => startVersion_servedRoot manifest hmanifest hall.1)
    lossless_servedRoot (by decide) hsupported ⟨by decide, by decide, by decide, by decide⟩
  -- the dataset has no fills and no builders, so neither condition says anything
  obtain ⟨-, -, hfills, hbuilders⟩ := rows_servedRoot hrows
  refine hmemory ?_ ?_ .empty
  · rw [hfills]
    exact List.nodup_nil
  · rw [hbuilders]
    exact fun _ hrow => nomatch hrow

end HotIndex
