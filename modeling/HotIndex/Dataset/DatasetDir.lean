import HotIndex.Dataset.Normalize
import HotIndex.Dataset.QueryCorpus
import HotIndex.Lib.ByteLines
import HotIndex.Lib.Sha256
import HotIndex.Lib.StepProgram
import HotIndex.Storage.Engine

/-!
# The Dataset Directory

What a dataset root holds: the normalized artifacts, the query files, and the manifest with
the digests of its artifacts. `atomic_write` replaces one file at a time, so a run that
rewrites them all passes through mixtures; the manifest comes last.
-/

namespace HotIndex

open Lib RustText

/-! ## Files -/

/-- `NORMALIZED_ARTIFACTS` -/
def normalizedArtifacts : List String :=
  ["normalized/txs.ndjson", "normalized/events.ndjson", "normalized/fills.ndjson",
    "normalized/orders.ndjson", "normalized/positions.ndjson",
    "normalized/builder_code_rows.ndjson", "normalized/activity_rows.ndjson",
    "normalized/unknown_events.ndjson", "normalized/parse_warnings.log"]

/-- Where a file is: below the dataset root, by its path relative to it, or elsewhere. -/
inductive FilePlace where
  | dataset (relative : String)
  | elsewhere (path : String)
  deriving DecidableEq, Repr

/-- A dataset root, and the files elsewhere that its runs read. -/
structure DatasetDir where
  /-- The root as messages show it -/
  display : String
  /-- The files below the root by relative path, other than the manifest -/
  files : SortedMap Text Bytes
  /-- `manifest.json`, as it is read back -/
  manifest : Option DatasetManifest
  elsewhere : SortedMap Text Bytes

/-- An `atomic_write`, at its rename. -/
inductive DatasetWrite where
  | file (relative : String) (content : Bytes)
  | manifest (manifest : DatasetManifest)

def DatasetDir.apply (dir : DatasetDir) : DatasetWrite → DatasetDir
  | .file relative content => { dir with files := dir.files.insert ⟨relative⟩ content }
  | .manifest manifest => { dir with manifest := some manifest }

instance : Store DatasetDir DatasetWrite := ⟨DatasetDir.apply⟩

/-- A run on a dataset root. -/
abbrev DatasetM := StoreM DatasetDir DatasetWrite HotIndexError

/-- What `serde_json`, zstd and prost do for a run. -/
structure DatasetEnv where
  serde : SerdeJson
  query : Codec QueryCorpusRecord
  json : JsonText
  /-- `serde_json::to_writer_pretty` of a manifest -/
  manifestText : DatasetManifest → Bytes
  /-- The transactions in a raw chunk, and the error that ends the decoding early -/
  readChunk : Bytes → List Transaction × Option HotIndexError

section Dataset

variable (env : DatasetEnv)

namespace DatasetDir

variable (dir : DatasetDir)

/-- The path of a file as messages show it. -/
def displayOf : FilePlace → String
  | .dataset relative => dir.display ++ "/" ++ relative
  | .elsewhere path => path

def read? : FilePlace → Option Bytes
  | .dataset relative =>
    -- the manifest is kept as a value, and written out when it is read as a file
    if relative = "manifest.json" then dir.manifest.map env.manifestText
    else dir.files.get? ⟨relative⟩
  | .elsewhere path => dir.elsewhere.get? ⟨path⟩

/-- `File::open` -/
def openFile (place : FilePlace) : Except HotIndexError Bytes :=
  match dir.read? env place with
  | none => .error (.config "No such file or directory (os error 2)")
  | some content => .ok content

end DatasetDir

/-- The digest that `sha256_file` prints. -/
def sha256Hex (content : Bytes) : String := Transaction.bytesToHex (Sha256.digest content)

def sha256File (dir : DatasetDir) (place : FilePlace) : Except HotIndexError String := do
  let content ← dir.openFile env place
  return sha256Hex content

/-! ## Text files -/

/-- A line of `BufRead::lines`, which is decoded when it is read. -/
def readText (content : Bytes) : Except HotIndexError String :=
  match String.fromUTF8? ⟨content.toArray⟩ with
  | none => .error (.config "stream did not contain valid UTF-8")
  | some text => .ok text

/-- The lines up to the first one that is not text, and the error of that one. -/
def textLines : List Bytes → List String × Option HotIndexError
  | [] => ([], none)
  | bytes :: rest =>
    match readText bytes with
    | .error error => ([], some error)
    | .ok line => (line :: (textLines rest).1, (textLines rest).2)

/-- `write_ndjson` -/
def ndjson {α : Type} (codec : Codec α) (rows : List α) : Bytes :=
  rows.flatMap (fun row => codec.toVec row ++ [10])

/-- `serde_json::from_str` of a line, and the place of an error. -/
def parseRow {α : Type} (codec : Codec α) (display : String) (lineNo : Nat) (line : String) :
    Except HotIndexError α :=
  match codec.fromSlice (asBytes line) with
  | .error message => .error (.parse s!"{display}:{lineNo}: {message}")
  | .ok row => .ok row

/-- The loop of `read_ndjson`; lines are numbered from one. -/
def readNdjsonLines {α : Type} (codec : Codec α) (display : String) :
    (lines : List Bytes) → (lineNo : Nat) → Except HotIndexError (List α)
  | [], _ => .ok []
  | bytes :: rest, lineNo => do
    let line ← readText bytes
    -- a blank line has a number, but no row
    if (trim line).isEmpty then readNdjsonLines codec display rest (lineNo + 1)
    else
      let row ← parseRow codec display lineNo line
      let rows ← readNdjsonLines codec display rest (lineNo + 1)
      return row :: rows

/-- `read_ndjson` -/
def readNdjson {α : Type} (codec : Codec α) (dir : DatasetDir) (place : FilePlace) :
    Except HotIndexError (List α) := do
  let content ← dir.openFile env place
  readNdjsonLines codec (dir.displayOf place) (byteLines [] content) 1

/-! ## Digests -/

/-- `insert_hash` under a given `artifact_key` -/
def insertHash (dir : DatasetDir) (hashes : SortedMap Text String) (key : String)
    (place : FilePlace) : Except HotIndexError (SortedMap Text String) := do
  let digest ← sha256File env dir place
  return hashes.insert ⟨key⟩ digest

/-- `insert_hash` of artifacts below the root, whose key is their relative path. -/
def insertArtifactHashes (dir : DatasetDir) (hashes : SortedMap Text String)
    (artifacts : List String) : Except HotIndexError (SortedMap Text String) :=
  artifacts.foldlM (fun hashes relative => insertHash env dir hashes relative (.dataset relative))
    hashes

/-- A raw file that is normalized. -/
structure RawInput where
  /-- The path as messages show it -/
  display : String
  /-- The file name, if it is UTF-8 -/
  fileName : Option String
  place : FilePlace
  /-- What `artifact_key` makes of the path -/
  key : String

/-- `insert_hash` of the raw inputs -/
def insertInputHashes (dir : DatasetDir) (hashes : SortedMap Text String)
    (rawInputs : List RawInput) : Except HotIndexError (SortedMap Text String) :=
  rawInputs.foldlM (fun hashes input => insertHash env dir hashes input.key input.place) hashes

/-! ## Normalizing -/

/-- Files that are replaced one after the other. -/
def writeFiles : List (String × Bytes) → DatasetM Unit
  | [] => pure ()
  | (relative, content) :: rest => do
    StoreM.perform (.file relative content)
    writeFiles rest

/-- The artifacts that hold rows, in the order they are written. -/
def rowFiles (rows : ParserOutput) : List (String × Bytes) :=
  [("normalized/txs.ndjson", ndjson env.serde.tx rows.txs),
    ("normalized/events.ndjson", ndjson env.serde.event rows.events),
    ("normalized/fills.ndjson", ndjson env.serde.fill rows.fills),
    ("normalized/orders.ndjson", ndjson env.serde.order rows.orders),
    ("normalized/positions.ndjson", ndjson env.serde.position rows.positions),
    ("normalized/builder_code_rows.ndjson", ndjson env.serde.builder rows.builderRows),
    ("normalized/activity_rows.ndjson", ndjson env.serde.activity rows.activityRows),
    ("normalized/unknown_events.ndjson", ndjson env.serde.event rows.unknownEvents)]

/-- `parse_warnings.log` -/
def warningsFile (text : String) : String × Bytes :=
  ("normalized/parse_warnings.log", asBytes text)

/-- `write_query_corpus_files` into `queries` -/
def queryFiles (corpus : List QueryCorpusRecord) : List (String × Bytes) :=
  (queryCorpusFiles corpus).map (fun file => ("queries/" ++ file.1, ndjson env.query file.2))

theorem names_queryFiles (env : DatasetEnv) (corpus : List QueryCorpusRecord) :
    (queryFiles env corpus).map Prod.fst = queryCorpusArtifacts := by
  rw [← queryCorpusFiles_artifacts corpus, queryFiles, List.map_map]
  rfl

/-- The digests of a fixture dataset. -/
def fixtureHashes (dir : DatasetDir) (rawInput : RawInput) :
    Except HotIndexError (SortedMap Text String) := do
  let hashes ← insertInputHashes env dir .empty [rawInput]
  insertArtifactHashes env dir hashes normalizedArtifacts

/-- `write_normalized_fixture_dataset` -/
def writeNormalizedFixtureDataset (options : ParserOptions) (rawInput : RawInput)
    (rows : ParserOutput) : DatasetM Unit := do
  writeFiles (rowFiles env rows ++ [warningsFile ("\n".intercalate rows.warnings)])
  let dir ← StoreM.read
  let hashes ← StoreM.ofExcept (fixtureHashes env dir rawInput)
  -- the manifest is replaced last
  StoreM.perform (.manifest (fixtureDataset options rows hashes).manifest)

/-- `parse_fixture_jsonl_file`: a line that is not text stops the loop behind the lines before
it. -/
def parseFixtureJsonlFile (options : ParserOptions) (rawInput : RawInput) (dir : DatasetDir) :
    Except HotIndexError ParserOutput := do
  let content ← dir.openFile env rawInput.place
  let lines := textLines (byteLines [] content)
  -- a line before the bad one may fail first
  let rows ← parseFixtureLines env.json options lines.1 1 {}
  match lines.2 with
  | some error => .error error
  | none => .ok rows

/-- The fixture branch of `normalize_command`. -/
def normalizeFixture (options : ParserOptions) (rawInput : RawInput) : DatasetM Unit := do
  let dir ← StoreM.read
  let rows ← StoreM.ofExcept (parseFixtureJsonlFile env options rawInput dir)
  writeNormalizedFixtureDataset env options rawInput rows

/-- A raw input as a chunk. -/
def RawInput.chunk (dir : DatasetDir) (input : RawInput) : ChunkFile :=
  let decoded := match dir.openFile env input.place with
    | .error error => ([], some error)
    | .ok content => env.readChunk content
  { display := input.display
    fileName := input.fileName
    transactions := decoded.1
    failure := decoded.2 }

/-- The text of `parse_warnings.log` of a protobuf run. -/
def protobufWarnings (st : DecodeState) : String :=
  let output := st.parserOutput
  "protobuf normalization with Decibel event extraction\n" ++
    s!"decoded_transactions={st.decodedTxCount}\nunique_transactions={st.uniqueTxCount}\n" ++
    s!"decibel_events={output.events.length}\nfills={output.fills.length}\n" ++
    s!"orders={output.orders.length}\npositions={output.positions.length}\n" ++
    s!"builder_rows={output.builderRows.length}\n" ++
    s!"unknown_events={output.unknownEvents.length}\nintegrity_enforced=true\n" ++
    String.join (output.warnings.map (· ++ "\n"))

/-- The files that a protobuf run writes before its manifest, in order. The query files are
left alone if the corpus is empty. -/
def protobufFiles (st : DecodeState) : List (String × Bytes) :=
  let output := st.parserOutput
  let corpus := buildQueryCorpus {
    txs := output.txs
    events := output.events
    fills := output.fills
    builderRows := output.builderRows }
  rowFiles env { output with txs := st.txLines } ++
    (if corpus.isEmpty then [] else queryFiles env corpus) ++ [warningsFile (protobufWarnings st)]

/-- The digests of a protobuf dataset: with those of the query files that exist. -/
def protobufHashes (dir : DatasetDir) (rawInputs : List RawInput) :
    Except HotIndexError (SortedMap Text String) := do
  let hashes ← insertInputHashes env dir .empty rawInputs
  let hashes ← insertArtifactHashes env dir hashes normalizedArtifacts
  -- a query file that an earlier run left counts as well
  insertArtifactHashes env dir hashes (queryCorpusArtifacts.filter (fun relative =>
    (dir.read? env (.dataset relative)).isSome))

/-- What `normalize_protobuf_tx_only` works out before its first file is in place. -/
def decodeRawInputs (options : ParserOptions) (rawInputs : List RawInput)
    (requireContiguousChunks : Bool) (dir : DatasetDir) : Except HotIndexError DecodeState := do
  if rawInputs.isEmpty then throw (.config "no protobuf raw inputs were provided")
  let chunks := rawInputs.map (fun input => input.chunk env dir)
  -- the ranges in the names are checked before any chunk is decoded
  validateDeclaredRawChunkSequence chunks requireContiguousChunks
  decodeChunks env.json options chunks

/-- `normalize_protobuf_tx_only` -/
def normalizeProtobufFiles (options : ParserOptions) (rawInputs : List RawInput)
    (requireContiguousChunks : Bool) : DatasetM Unit := do
  let dir ← StoreM.read
  let st ← StoreM.ofExcept (decodeRawInputs env options rawInputs requireContiguousChunks dir)
  writeFiles (protobufFiles env st)
  let dir ← StoreM.read
  let hashes ← StoreM.ofExcept (protobufHashes env dir rawInputs)
  StoreM.perform (.manifest (protobufDataset options st hashes).manifest)

/-! ## Building the query corpus -/

/-- `tx_rows_from_events` -/
def txRowsFromEvents (events : List NormalizedEvent) : List TxRow :=
  -- the first event of a version stands for its transaction
  (events.foldl (fun (st : List TxRow × List UInt64) event =>
    if st.2.contains event.version then st
    else (st.1 ++ [{
        network := event.network
        version := event.version
        txHash := event.txHash
        blockTimestampUs := event.blockTimestampUs
        eventCount := 1
        datasetId := none
        rawSummary := some "derived from normalized events for query corpus" }],
      event.version :: st.2)) ([], [])).1

/-- `read_ndjson` of a file that may be missing -/
def readNdjsonOr {α : Type} (codec : Codec α) (dir : DatasetDir) (place : FilePlace)
    (default : List α) : Except HotIndexError (List α) :=
  if (dir.read? env place).isSome then readNdjson env codec dir place else .ok default

/-- `normalized_dir.join(name)` -/
def FilePlace.join (parent : FilePlace) (name : String) : FilePlace :=
  match parent with
  | .dataset relative => .dataset (relative ++ "/" ++ name)
  | .elsewhere path => .elsewhere (path ++ "/" ++ name)

/-- `query_corpus_rows_from_events_path` -/
def queryCorpusRowsFromEventsPath (dir : DatasetDir) (normalizedDir : FilePlace)
    (eventsName : String) : Except HotIndexError QueryCorpusRows := do
  let events ← readNdjson env env.serde.event dir (normalizedDir.join eventsName)
  let txs ← readNdjsonOr env env.serde.tx dir (normalizedDir.join "txs.ndjson")
    (txRowsFromEvents events)
  let fills ← readNdjsonOr env env.serde.fill dir (normalizedDir.join "fills.ndjson") []
  let builderRows ← readNdjsonOr env env.serde.builder dir
    (normalizedDir.join "builder_code_rows.ndjson") []
  return { txs := txs, events := events, fills := fills, builderRows := builderRows }

/-- `update_manifest_query_hashes_if_present` -/
def updateManifestQueryHashesIfPresent : DatasetM Unit := do
  let dir ← StoreM.read
  match dir.manifest with
  | none => return ()
  | some manifest => do
    -- the other digests stay as the manifest has them
    let hashes ← StoreM.ofExcept
      (insertArtifactHashes env dir manifest.hashes queryCorpusArtifacts)
    StoreM.perform (.manifest { manifest with hashes := hashes })

/-- `build_query_corpus_command` with the output directory `queries` -/
def buildQueryCorpusCommand (normalizedDir : FilePlace) (eventsName : String) :
    DatasetM Unit := do
  let dir ← StoreM.read
  let rows ← StoreM.ofExcept (queryCorpusRowsFromEventsPath env dir normalizedDir eventsName)
  if rows.events.isEmpty ∧ rows.txs.isEmpty then
    StoreM.fail (.config (s!"no normalized events or tx rows found in " ++
      s!"{dir.displayOf (normalizedDir.join eventsName)}; use a normalized dataset directory " ++
      "with Decibel-active rows or recorded tx keys"))
  else do
    writeFiles (queryFiles env (buildQueryCorpus rows))
    updateManifestQueryHashesIfPresent env

/-! ## Checking the manifest -/

def HotIndexError.display : HotIndexError → String
  | .config message => s!"config error: {message}"
  | .address message => s!"address error: {message}"
  | .parse message => s!"parse error: {message}"
  | .storage message => s!"storage error: {message}"

/-- `validate_manifest_schema_version` -/
def validateManifestSchemaVersion (manifest : DatasetManifest) : Except HotIndexError Unit :=
  if manifest.schemaVersion ≠ logicalSchemaVersion then
    .error (.config (s!"dataset schema_version {manifest.schemaVersion} is unsupported; " ++
      s!"expected {logicalSchemaVersion}. Rebuild normalized artifacts from raw data."))
  else .ok ()

/-- `validate_manifest_artifact_key` -/
def validateManifestArtifactKey (relative : String) : Except HotIndexError Unit :=
  if relative.toList.head? = some '/' ∨ relative = "" ∨
      ∃ part ∈ relative.toList.splitOn '/', part = [] ∨ part = ['.'] ∨ part = ['.', '.'] then
    .error (.config s!"dataset manifest contains invalid artifact path: {relative}")
  else .ok ()

/-- The body of the loop of `validate_manifest_hashes`. -/
def validateManifestHash (dir : DatasetDir) (entry : Text × String) :
    Except HotIndexError Unit := do
  let (⟨relative⟩, expected) := entry
  validateManifestArtifactKey relative
  let actual ← (sha256File env dir (.dataset relative)).mapError (fun error =>
    .config (s!"manifest artifact {dir.displayOf (.dataset relative)} is not readable: " ++
      error.display))
  if actual ≠ expected then
    .error (.config s!"sha256 mismatch for {relative}: expected {expected}, got {actual}")
  else .ok ()

/-- `validate_manifest_hashes` -/
def validateManifestHashes (dir : DatasetDir) (manifest : DatasetManifest) :
    Except HotIndexError Unit :=
  manifest.hashes.entries.forM (validateManifestHash env dir)

/-- What `replay_into_engine` checks before it reads the artifacts. -/
def acceptManifest (dir : DatasetDir) : Except HotIndexError DatasetManifest :=
  match dir.manifest with
  | none => .error (.config "No such file or directory (os error 2)")
  | some manifest => do
    validateManifestSchemaVersion manifest
    validateManifestHashes env dir manifest
    return manifest

end Dataset

end HotIndex
