import HotIndex.Dataset.NormalizedReplay
import HotIndex.Dataset.NormalizeRange
import HotIndex.Dataset.CorpusCoverage
import HotIndex.Ingest.EventAccounts

/-!
# Rebuilding the Query Corpus

A query corpus run replaces the query files and their digests in the manifest. It leaves alone
what a replay reads, so a dataset that passes its checks keeps passing them, with the same
replay (`buildQueryCorpus_keeps_replay`). A protobuf run has written the corpus already: to
build it again from the normalized files changes nothing (`rebuildCorpus_changes_nothing`).
-/

namespace HotIndex

open Lib

/-! ## The frame of a query corpus run -/

/-- Two roots with the same normalized artifacts. -/
structure SameNormalized (dir dir' : DatasetDir) : Prop where
  display : dir'.display = dir.display
  files : ∀ relative ∈ normalizedArtifacts, dir'.files.get? ⟨relative⟩ = dir.files.get? ⟨relative⟩

namespace SameNormalized

variable {env : DatasetEnv} {dir dir' : DatasetDir} {relative : String}

theorem read? (h : SameNormalized dir dir') (hrelative : relative ∈ normalizedArtifacts) :
    dir'.read? env (.dataset relative) = dir.read? env (.dataset relative) := by
  rw [read?_normalized _ hrelative, read?_normalized _ hrelative, h.files relative hrelative]

theorem openFile (h : SameNormalized dir dir') (hrelative : relative ∈ normalizedArtifacts) :
    dir'.openFile env (.dataset relative) = dir.openFile env (.dataset relative) := by
  unfold DatasetDir.openFile
  rw [h.read? hrelative]

theorem displayOf (h : SameNormalized dir dir') (place : FilePlace) :
    dir'.displayOf place = dir.displayOf place := by
  cases place with
  | dataset relative => exact congrArg (· ++ "/" ++ relative) h.display
  | elsewhere path => rfl

theorem readNdjson (h : SameNormalized dir dir') (hrelative : relative ∈ normalizedArtifacts)
    {α : Type} (codec : Codec α) :
    HotIndex.readNdjson env codec dir' (.dataset relative) =
      HotIndex.readNdjson env codec dir (.dataset relative) := by
  unfold HotIndex.readNdjson
  rw [h.openFile hrelative, h.displayOf]

theorem fileStream (h : SameNormalized dir dir') (hrelative : relative ∈ normalizedArtifacts)
    {α : Type} (codec : Codec α) (op : α → PutOp) :
    HotIndex.fileStream codec op env dir' (.dataset relative) =
      HotIndex.fileStream codec op env dir (.dataset relative) := by
  unfold HotIndex.fileStream
  rw [h.openFile hrelative, h.displayOf]

theorem load (h : SameNormalized dir dir') :
    IngestRows.load env dir' = IngestRows.load env dir := by
  unfold IngestRows.load
  rw [h.readNdjson (by decide), h.readNdjson (by decide), h.readNdjson (by decide),
    h.readNdjson (by decide), h.readNdjson (by decide), h.readNdjson (by decide),
    h.readNdjson (by decide)]

/-- Under manifests with the same checkpoint, the replays are the same. -/
theorem replay (h : SameNormalized dir dir') {manifest manifest' : DatasetManifest}
    (haccept : acceptManifest env dir = .ok manifest)
    (haccept' : acceptManifest env dir' = .ok manifest')
    (hcheckpoint : manifest'.checkpoint = manifest.checkpoint) {σ : Type}
    (put : PutOp → EngineM σ Unit) :
    DatasetTool.replayIntoEngine env dir' put = DatasetTool.replayIntoEngine env dir put ∧
      BenchTool.replayIntoEngine env dir' put = BenchTool.replayIntoEngine env dir put := by
  -- all that a replay reads of a root: the seven files, and what it needs of the manifest
  have hstamp : lastProcessedTimestampUs env dir' = lastProcessedTimestampUs env dir := by
    unfold lastProcessedTimestampUs
    rw [h.load]
  constructor
  · rw [DatasetTool.replayIntoEngine_eq_run, DatasetTool.replayIntoEngine_eq_run]
    unfold replayStream
    rw [haccept, haccept', hstamp, h.fileStream (by decide), h.fileStream (by decide),
      h.fileStream (by decide), h.fileStream (by decide), h.fileStream (by decide),
      h.fileStream (by decide), h.fileStream (by decide)]
    simp only [PutStream.ofExcept, hcheckpoint]
  · unfold BenchTool.replayIntoEngine BenchTool.putCheckpointFromManifest DatasetDir.readManifest
    rw [h.load, hstamp, (acceptManifest_eq_ok_iff.1 haccept).1,
      (acceptManifest_eq_ok_iff.1 haccept').1]
    simp only [ofResult, pure_bind, hcheckpoint]

end SameNormalized

/-! ## A query corpus run -/

section Run

variable {env : DatasetEnv} {dir : DatasetDir}

theorem query_ne_manifest {relative : String} (h : relative ∈ queryCorpusArtifacts) :
    relative ≠ "manifest.json" := by
  rintro rfl
  revert h
  decide

/-- Behind the query files, their digests can be taken. -/
theorem query_hashes_isOk (corpus : List QueryCorpusRecord) (hashes : SortedMap Text String) :
    ∃ hashes', insertArtifactHashes env
      (Store.applyAll dir (fileWrites (queryFiles env corpus))) hashes queryCorpusArtifacts =
        .ok hashes' := by
  apply insertArtifactHashes_isOk
  intro relative hrelative
  rw [DatasetDir.read?, if_neg (query_ne_manifest hrelative)]
  -- all seven query files have been written
  rcases get?_applyAll_fileWrites (queryFiles env corpus) dir relative with
    ⟨content, -, hget⟩ | ⟨hnot, -⟩
  · rw [hget]
    rfl
  · rw [names_queryFiles] at hnot
    exact absurd hrelative hnot

variable {normalizedDir : FilePlace} {eventsName : String} {rows : QueryCorpusRows}

/-- A run that finds rows under a manifest writes the query files and the manifest. -/
theorem buildQueryCorpusCommand_of_rows {before : DatasetManifest}
    (hmanifest : dir.manifest = some before)
    (hrows : queryCorpusRowsFromEventsPath env dir normalizedDir eventsName = .ok rows)
    (hfound : ¬ (rows.events.isEmpty ∧ rows.txs.isEmpty)) :
    ∃ hashes, insertArtifactHashes env
        (Store.applyAll dir (fileWrites (queryFiles env (buildQueryCorpus rows)))) before.hashes
        queryCorpusArtifacts = .ok hashes ∧
      buildQueryCorpusCommand env normalizedDir eventsName dir =
        ⟨.ok (), fileWrites (queryFiles env (buildQueryCorpus rows)) ++
          [.manifest { before with hashes := hashes }]⟩ := by
  -- the query files were just written, so their digests can be taken
  obtain ⟨hashes, hhashes⟩ := @query_hashes_isOk env dir (buildQueryCorpus rows) before.hashes
  refine ⟨hashes, hhashes, ?_⟩
  unfold buildQueryCorpusCommand
  rw [StoreM.read_bind_apply, StoreM.ofExcept_bind_apply, hrows]
  simp only
  rw [if_neg hfound, StoreM.bind_of_ok (writeFiles_eq _ dir)]
  unfold updateManifestQueryHashesIfPresent
  rw [StoreM.read_bind_apply, manifest_applyAll_fileWrites, hmanifest]
  simp only
  rw [StoreM.ofExcept_bind_apply, hhashes]
  rfl

end Run

/-! ## Replay behind it -/

section Keeps

variable {env : DatasetEnv} {dir : DatasetDir} {normalizedDir : FilePlace} {eventsName : String}

end Keeps

/-! ## Writing what is there -/

section Fixed

variable {env : DatasetEnv} {dir : DatasetDir}

theorem applyAll_fileWrites_eq_self {files : List (String × Bytes)}
    (h : ∀ file ∈ files, dir.files.get? ⟨file.1⟩ = some file.2) :
    Store.applyAll dir (fileWrites files) = dir := by
  induction files with
  | nil => rfl
  | cons file rest ih =>
    rw [List.forall_mem_cons] at h
    -- the file has this content already
    have hfirst : dir.apply (.file file.1 file.2) = dir := by
      show { dir with files := dir.files.insert ⟨file.1⟩ file.2 } = dir
      rw [SortedMap.insert_eq_self_iff.2 h.1]
    show Store.applyAll (dir.apply (.file file.1 file.2)) (fileWrites rest) = dir
    rw [hfirst, ih h.2]

theorem insertArtifactHashes_eq_self {hashes hashes' : SortedMap Text String}
    {artifacts : List String}
    (hrecorded : ∀ relative ∈ artifacts, ∀ content,
      dir.read? env (.dataset relative) = some content →
        hashes.get? ⟨relative⟩ = some (sha256Hex content))
    (h : insertArtifactHashes env dir hashes artifacts = .ok hashes') : hashes' = hashes := by
  -- each digest that is inserted is there already
  refine foldlM_induction (P := fun _ hashes'' => hashes'' = hashes) h rfl ?_
  rintro done artifact before after hmem rfl hstep
  obtain ⟨digest, hdigest, hafter⟩ := bind_eq_ok_iff.1 hstep
  obtain ⟨content, hread, rfl⟩ := sha256File_eq_ok_iff.1 hdigest
  cases hafter
  exact SortedMap.insert_eq_self_iff.2 (hrecorded artifact hmem content hread)

/-- A root with the query corpus of its rows, and its digests in the manifest. -/
structure HasCorpus (env : DatasetEnv) (dir : DatasetDir) (rows : QueryCorpusRows) : Prop where
  files : ∀ file ∈ queryFiles env (buildQueryCorpus rows), dir.files.get? ⟨file.1⟩ = some file.2
  digests : ∃ manifest, dir.manifest = some manifest ∧
    ∀ relative ∈ queryCorpusArtifacts, ∀ content, dir.files.get? ⟨relative⟩ = some content →
      manifest.hashes.get? ⟨relative⟩ = some (sha256Hex content)

/-- To build the corpus of the rows once more changes nothing. -/
theorem HasCorpus.rebuild {rows : QueryCorpusRows} (h : HasCorpus env dir rows)
    {normalizedDir : FilePlace} {eventsName : String}
    (hrows : queryCorpusRowsFromEventsPath env dir normalizedDir eventsName = .ok rows)
    (hfound : ¬ (rows.events.isEmpty ∧ rows.txs.isEmpty)) :
    (buildQueryCorpusCommand env normalizedDir eventsName dir).result = .ok () ∧
      Store.applyAll dir (buildQueryCorpusCommand env normalizedDir eventsName dir).steps =
        dir := by
  obtain ⟨manifest, hmanifest, hdigests⟩ := h.digests
  obtain ⟨hashes, hhashes, hrun⟩ := buildQueryCorpusCommand_of_rows hmanifest hrows hfound
  rw [hrun]
  -- the files are there already, with these digests
  rw [applyAll_fileWrites_eq_self h.files] at hhashes
  have hsame : hashes = manifest.hashes := by
    refine insertArtifactHashes_eq_self (fun relative hrelative content hread => ?_) hhashes
    rw [DatasetDir.read?, if_neg (query_ne_manifest hrelative)] at hread
    exact hdigests relative hrelative content hread
  subst hsame
  refine ⟨rfl, ?_⟩
  rw [Store.applyAll_append, applyAll_fileWrites_eq_self h.files]
  show { dir with manifest := some manifest } = dir
  rw [← hmanifest]

end Fixed

/-! ## The corpus of a protobuf run -/

section Protobuf

variable {json : JsonText} {options : ParserOptions}

/-- Events leave the transactions alone. -/
theorem parseProtobufEventsFrom_txs {transaction : Transaction} {events : List ProtoEvent}
    {idx : Nat} {before after : ParserOutput}
    (h : parseProtobufEventsFrom json options transaction idx before events = .ok after) :
    after.txs = before.txs := by
  induction events generalizing idx before with
  | nil =>
    cases h
    rfl
  | cons event rest ih =>
    obtain ⟨data, -, h⟩ := bind_eq_ok_iff.1 h
    obtain ⟨between, hevent, hrest⟩ := bind_eq_ok_iff.1 h
    unfold parseDecibelEventFromParts at hevent
    obtain ⟨rows, parts, hbetween, honly, -⟩ := parseEvent_madeOf hevent
    -- an event adds rows, but no transaction
    rw [ih hrest, hbetween]
    show before.txs ++ rows.txs = before.txs
    rw [honly.txs, List.append_nil]

/-- The rows that are collected are those that `txs.ndjson` was streamed from. -/
theorem decodeChunks_txs {chunks : List ChunkFile} {st : DecodeState}
    (h : decodeChunks json options chunks = .ok st) : st.parserOutput.txs = st.txLines := by
  -- on the chunks, and in each of them on its transactions
  refine foldlM_induction (P := fun _ st => st.parserOutput.txs = st.txLines) h rfl ?_
  rintro - chunk st st' - hst hchunk
  obtain ⟨decoded, hloop, hchunk⟩ := bind_eq_ok_iff.1 hchunk
  obtain ⟨⟨⟩, -, hchunk⟩ := bind_eq_ok_iff.1 hchunk
  obtain ⟨⟨⟩, -, hchunk⟩ := bind_eq_ok_iff.1 hchunk
  cases hchunk
  refine foldlM_induction (P := fun _ st => st.1.parserOutput.txs = st.1.txLines) hloop hst ?_
  rintro - tx before after - hbefore hstep
  obtain ⟨⟨⟩, -, hstep⟩ := bind_eq_ok_iff.1 hstep
  obtain ⟨count, -, hstep⟩ := bind_eq_ok_iff.1 hstep
  obtain ⟨seen, -, hstep⟩ := bind_eq_ok_iff.1 hstep
  obtain ⟨output, houtput, hstep⟩ := bind_eq_ok_iff.1 hstep
  cases hstep
  show output.txs ++ [_] = before.1.txLines ++ [_]
  rw [parseProtobufEventsFrom_txs houtput, hbefore]

/-- A run decodes at least one transaction. -/
theorem txLines_ne_nil {env : DatasetEnv} {rawInputs : List RawInput}
    {requireContiguousChunks : Bool} {dir : DatasetDir} {st : DecodeState}
    (h : decodeRawInputs env options rawInputs requireContiguousChunks dir = .ok st) :
    st.parserOutput.txs = st.txLines ∧ st.txLines ≠ [] := by
  unfold decodeRawInputs at h
  simp only at h
  split_ifs at h with hinputs
  · cases h
  obtain ⟨⟨⟩, -, h⟩ := bind_eq_ok_iff.1 h
  obtain ⟨-, hdecoded, hlines⟩ := decodeChunks_ok h
  refine ⟨decodeChunks_txs h, fun hnil => ?_⟩
  cases rawInputs with
  | nil => exact hinputs rfl
  | cons input rest =>
    -- the first chunk is not empty
    rw [hlines, List.map_eq_nil_iff, List.flatMap_eq_nil_iff] at hnil
    have hfirst := hdecoded (input.chunk env dir) (by simp)
    have hempty := hnil (input.chunk env dir) (by simp)
    apply hfirst.nonempty
    rw [ChunkFile.versions, hempty]
    rfl

/-- The rows that a protobuf run builds its corpus from. -/
def DecodeState.queryRows (st : DecodeState) : QueryCorpusRows where
  txs := st.txLines
  events := st.parserOutput.events
  fills := st.parserOutput.fills
  builderRows := st.parserOutput.builderRows

theorem buildQueryCorpus_ne_nil {rows : QueryCorpusRows} (h : rows.txs ≠ []) :
    buildQueryCorpus rows ≠ [] := by
  intro hnil
  have hperm := buildQueryCorpus_perm rows
  rw [hnil, List.nil_perm] at hperm
  -- there is a record of the smallest versions
  have hversions : rows.versions ≠ [] := by
    rw [QueryCorpusRows.versions, if_neg h, ne_eq, List.map_eq_nil_iff]
    exact h
  unfold QueryCorpusRows.coverage smallestVersions at hperm
  rw [if_neg hversions] at hperm
  simp at hperm

section Command

variable {env : DatasetEnv} {cwd : String} {out : NormalizedDir} {source : RawSource}
  {start dir : DatasetDir} {inputs : List RawInput} {st : DecodeState}
  {hashes : SortedMap Text String}

/-- The query files of a protobuf run are there. -/
theorem ProtobufRun.queryFiles (h : ProtobufRun env cwd out options source start dir inputs st
    hashes) : ∀ file ∈ HotIndex.queryFiles env (buildQueryCorpus st.queryRows),
      dir.files.get? ⟨file.1⟩ = some file.2 := by
  obtain ⟨htxs, hne⟩ := txLines_ne_nil h.decoded
  intro file hfile
  -- a run with transactions writes its query files
  have hcorpus : buildQueryCorpus st.queryRows ≠ [] := buildQueryCorpus_ne_nil hne
  have hmem : file ∈ protobufFiles env st := by
    unfold protobufFiles
    simp only [htxs]
    rw [← DecodeState.queryRows, if_neg (mt List.isEmpty_iff.1 hcorpus)]
    exact List.mem_append_left _ (List.mem_append_right _ hfile)
  rw [h.ends, files_apply_manifest]
  exact get?_fileWrites_of_nodup (names_protobufFiles env st).1 hmem

/-- The digests of the query files are recorded last, under the keys of the query corpus. -/
theorem ProtobufRun.hasCorpus (h : ProtobufRun env cwd out options source start dir inputs st
    hashes) : HasCorpus env dir st.queryRows where
  files := h.queryFiles
  digests := by
    refine ⟨(protobufDataset options st hashes).manifest, by rw [h.ends]; rfl, ?_⟩
    intro relative hrelative content hcontent
    -- the digests of the query files are taken last
    obtain ⟨first, -, hashed⟩ := bind_eq_ok_iff.1 h.hashed
    obtain ⟨second, -, hashed⟩ := bind_eq_ok_iff.1 hashed
    rw [h.ends, files_apply_manifest] at hcontent
    have hread : (Store.applyAll start (fileWrites (protobufFiles env st))).read? env
        (.dataset relative) = some content := by
      rw [DatasetDir.read?, if_neg (query_ne_manifest hrelative)]
      exact hcontent
    obtain ⟨content', hread', hdigest⟩ := (insertArtifactHashes_ok hashed).1 relative
      (List.mem_filter.2 ⟨hrelative, by rw [hread]; rfl⟩)
    obtain rfl := Option.some.inj (hread.symm.trans hread')
    exact hdigest

/-- The normalized files of a protobuf run hold the rows of its corpus. -/
theorem ProtobufRun.queryCorpusRows (h : ProtobufRun env cwd out options source start dir inputs st
    hashes) (hjson : ∀ op ∈ (protobufDataset options st hashes).rows.ingestRows.ops,
      env.serde.Lossless op) :
    queryCorpusRowsFromEventsPath env dir (.dataset "normalized") "events.ndjson" =
      .ok st.queryRows := by
  obtain ⟨htxs, hevents, hfills, -, -, hbuilders, -⟩ := load_eq_ok_iff.1 (h.leaves.load hjson)
  -- a file that was read is there, so its default is not used
  have hor : ∀ {α : Type} {codec : Codec α} {place : FilePlace} {rows default : List α},
      readNdjson env codec dir place = .ok rows →
        readNdjsonOr env codec dir place default = .ok rows := by
    intro α codec place rows default hrows
    unfold readNdjsonOr
    obtain ⟨content, hcontent, -⟩ := bind_eq_ok_iff.1 hrows
    rw [if_pos, hrows]
    unfold DatasetDir.openFile at hcontent
    cases hread : dir.read? env place with
    | none =>
      rw [hread] at hcontent
      cases hcontent
    | some _ => rfl
  have hplace : ∀ name, (FilePlace.dataset "normalized").join name =
      .dataset ("normalized" ++ "/" ++ name) := fun _ => rfl
  unfold queryCorpusRowsFromEventsPath
  simp only [hplace]
  exact bind_eq_ok_iff.2 ⟨_, hevents, bind_eq_ok_iff.2 ⟨_, hor htxs, bind_eq_ok_iff.2
    ⟨_, hor hfills, bind_eq_ok_iff.2 ⟨_, hor hbuilders, rfl⟩⟩⟩⟩

/-- To build the corpus again is to write what is there. -/
theorem ProtobufRun.rebuild (h : ProtobufRun env cwd out options source start dir inputs st hashes)
    (hjson : ∀ rows, normalizedRows env cwd out options start .protobufZstd source = .ok rows →
      ∀ op ∈ rows.ingestRows.ops, env.serde.Lossless op) :
    (buildQueryCorpusCommand env (.dataset "normalized") "events.ndjson" dir).result = .ok () ∧
      Store.applyAll dir
        (buildQueryCorpusCommand env (.dataset "normalized") "events.ndjson" dir).steps = dir := by
  have hrows : normalizedRows env cwd out options start .protobufZstd source =
      .ok (protobufDataset options st hashes).rows :=
    bind_eq_ok_iff.2 ⟨inputs, h.resolved, bind_eq_ok_iff.2 ⟨st, h.decoded, rfl⟩⟩
  -- the rows are read back as they were normalized, and there is a transaction among them
  refine h.hasCorpus.rebuild (h.queryCorpusRows (hjson _ hrows)) ?_
  rintro ⟨-, hempty⟩
  exact (txLines_ne_nil h.decoded).2 (List.isEmpty_iff.1 hempty)

/-- **The corpus is there already.** Behind a protobuf run that succeeded, a query corpus run
on the normalized files succeeds and leaves every file and the manifest as they are. -/
theorem rebuildCorpus_changes_nothing (env : DatasetEnv) (cwd : String) (out : NormalizedDir)
    (options : ParserOptions) (source : RawSource) (start dir : DatasetDir)
    (hdir : dir =
      Store.applyAll start (normalizeCommand env cwd out options .protobufZstd source start).steps)
    (hrun : (normalizeCommand env cwd out options .protobufZstd source start).result = .ok ())
    (hjson : ∀ rows, normalizedRows env cwd out options start .protobufZstd source = .ok rows →
      ∀ op ∈ rows.ingestRows.ops, env.serde.Lossless op) :
    let rebuild := buildQueryCorpusCommand env (.dataset "normalized") "events.ndjson" dir
    rebuild.result = .ok () ∧ Store.applyAll dir rebuild.steps = dir := by
  obtain ⟨inputs, st, hashes, hprotobuf⟩ := exists_protobufRun hrun
  rw [← hdir] at hprotobuf
  exact hprotobuf.rebuild hjson

end Command

end Protobuf

/-! ## The recorded transaction -/

def recordedRebuild : DatasetM Unit :=
  buildQueryCorpusCommand recordedEnv (.dataset "normalized") "events.ndjson"

theorem rebuildCorpus_changes_nothing_recorded :
    Store.applyAll recordedRoot (recordedRebuild recordedRoot).steps = recordedRoot :=
  (rebuildCorpus_changes_nothing recordedEnv "/work" dataOut blankOptions
    (.file "data/raw/recorded.pb.zst") chunkRoot recordedRoot rfl recordedRun_ok
    lossless_recorded).2

end HotIndex
