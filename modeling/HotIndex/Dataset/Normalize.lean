import HotIndex.Dataset.Manifest
import HotIndex.Dataset.RawChunks

/-!
# Normalizing Raw Chunks

`normalize_protobuf_tx_only`: decode the chunks one after the other, check the versions,
write a row for each transaction and collect the rows of its events, then write the
manifest.
-/

namespace HotIndex

open Lib

/-- What the decoding loop keeps across chunks. -/
structure DecodeState where
  firstVersion : Option UInt64 := none
  lastVersion : Option UInt64 := none
  decodedTxCount : UInt64 := 0
  uniqueTxCount : UInt64 := 0
  seenVersions : List UInt64 := []
  parserOutput : ParserOutput := {}
  /-- The rows written to `txs.ndjson` so far -/
  txLines : List TxRow := []

/-- What the loop keeps for one chunk. -/
structure ChunkState where
  chunkFirstVersion : Option UInt64 := none
  chunkLastVersion : Option UInt64 := none
  chunkTransactionCount : UInt64 := 0
  previousChunkVersion : Option UInt64 := none

section Decode

variable (json : JsonText) (options : ParserOptions)

/-- A transaction has the version after its predecessor in the chunk. -/
def checkSuccessor (chunk : ChunkFile) (previous : Option UInt64) (version : UInt64) :
    Except HotIndexError Unit :=
  match previous with
  | none => .ok ()
  | some previousVersion => do
    let expectedVersion ← checkedNextVersion previousVersion
    if version ≠ expectedVersion then
      .error (.config (s!"non-contiguous transaction version in raw chunk {chunk.display}: " ++
        s!"expected {expectedVersion}, got {version}"))
    else .ok ()

/-- `chunk_transaction_count.checked_add(1)` -/
def countTransaction (count : UInt64) : Except HotIndexError UInt64 :=
  if count = u64Max then .error (.config "raw chunk transaction count overflowed u64")
  else .ok (count + 1)

/-- `seen_versions.insert(version)`, which must be new. -/
def insertVersion (seen : List UInt64) (version : UInt64) : Except HotIndexError (List UInt64) :=
  if version ∈ seen then
    .error (.config s!"duplicate transaction version {version} across protobuf raw chunks")
  else .ok (version :: seen)

/-- The body of the loop over the transactions of a chunk. -/
def decodeTransaction (chunk : ChunkFile) (st : DecodeState × ChunkState)
    (transaction : Transaction) : Except HotIndexError (DecodeState × ChunkState) := do
  let version := transaction.version
  checkSuccessor chunk st.2.previousChunkVersion version
  let chunkTransactionCount ← countTransaction st.2.chunkTransactionCount
  -- the check before looks within the chunk, this one across all of them
  let seenVersions ← insertVersion st.1.seenVersions version
  let row := txRowFromTransaction transaction options
  let output ← parseProtobufDecibelEvents json options transaction st.1.parserOutput
  return ({
      firstVersion := some (st.1.firstVersion.elim version (min · version))
      lastVersion := some (st.1.lastVersion.elim version (max · version))
      decodedTxCount := st.1.decodedTxCount + 1
      uniqueTxCount := st.1.uniqueTxCount + 1
      seenVersions := seenVersions
      parserOutput := { output with txs := output.txs ++ [row] }
      txLines := st.1.txLines ++ [row] },
    { chunkFirstVersion := some (st.2.chunkFirstVersion.getD version)
      chunkLastVersion := some version
      chunkTransactionCount := chunkTransactionCount
      previousChunkVersion := some version })

/-- The stream of a chunk ends cleanly or with an error. -/
def endOfStream (chunk : ChunkFile) : Except HotIndexError Unit :=
  match chunk.failure with
  | some error => .error error
  | none => .ok ()

/-- One chunk: its transactions, the end of its stream, the check against its name. -/
def decodeChunk (st : DecodeState) (chunk : ChunkFile) : Except HotIndexError DecodeState := do
  let decoded ← chunk.transactions.foldlM (decodeTransaction json options chunk) (st, {})
  endOfStream chunk
  validateDecodedRawChunk chunk decoded.2.chunkFirstVersion decoded.2.chunkLastVersion
    decoded.2.chunkTransactionCount
  return decoded.1

/-- All chunks, in order. -/
def decodeChunks (rawInputs : List ChunkFile) : Except HotIndexError DecodeState :=
  rawInputs.foldlM (decodeChunk json options) {}

end Decode

/-- The dataset that is written after the decoding. The artifacts hold the collected rows;
`txs.ndjson` is written while decoding. -/
def protobufDataset (options : ParserOptions) (st : DecodeState) (hashes : SortedMap Text String) :
    NormalizedDataset where
  manifest := {
    datasetId := options.datasetId
    schemaVersion := logicalSchemaVersion
    network := options.network
    startVersion := st.firstVersion.getD 0
    endVersion := st.lastVersion
    packageAddress := options.packageAddress
    orderbookAddress := options.orderbookAddress
    rawTransactionCount := st.uniqueTxCount
    decibelEventCount := UInt64.ofNat st.parserOutput.events.length
    fillCount := UInt64.ofNat st.parserOutput.fills.length
    orderCount := UInt64.ofNat st.parserOutput.orders.length
    positionCount := UInt64.ofNat st.parserOutput.positions.length
    builderCodeRowCount := UInt64.ofNat st.parserOutput.builderRows.length
    hashes := hashes }
  rows := { st.parserOutput with txs := st.txLines }
  decibelEventCount_eq := rfl
  fillCount_eq := rfl

/-- `normalize_protobuf_tx_only`. `hashes` are the digests of the raw inputs and of the
artifacts, which may turn out unreadable. -/
def normalizeProtobufTxOnly (json : JsonText) (options : ParserOptions)
    (rawInputs : List ChunkFile) (requireContiguousChunks : Bool)
    (hashes : Except HotIndexError (SortedMap Text String)) :
    Except HotIndexError NormalizedDataset := do
  if rawInputs.isEmpty then throw (.config "no protobuf raw inputs were provided")
  -- the names are checked before any chunk is opened
  validateDeclaredRawChunkSequence rawInputs requireContiguousChunks
  let st ← decodeChunks json options rawInputs
  let hashes ← hashes
  return protobufDataset options st hashes

/-- The protobuf branch of `normalize_command`: a directory must hold contiguous chunks. -/
def normalizeProtobuf (json : JsonText) (options : ParserOptions) (input : RawPath)
    (hashes : Except HotIndexError (SortedMap Text String)) :
    Except HotIndexError NormalizedDataset := do
  let rawInputs ← resolveProtobufRawInputs input
  normalizeProtobufTxOnly json options rawInputs input.isDir hashes

/-! ## The benchmark's range check -/

/-- `validate_manifest_range` -/
def validateManifestRange (manifest : DatasetManifest) : Except HotIndexError Unit :=
  match manifest.endVersion with
  | none => .error (.config
      "benchmark dataset end_version is open; use a bounded recorded range")
  | some endVersion =>
    if endVersion < manifest.startVersion then
      .error (.config (s!"benchmark dataset end_version {endVersion} is before start_version " ++
        s!"{manifest.startVersion}"))
    else if manifest.rawTransactionCount = 0 then
      .error (.config "benchmark dataset raw_transaction_count is zero")
    else if endVersion - manifest.startVersion = u64Max then
      .error (.config "benchmark dataset version range overflows u64")
    else
      let expectedCount := endVersion - manifest.startVersion + 1
      if manifest.rawTransactionCount ≠ expectedCount then
        .error (.config (s!"benchmark dataset raw_transaction_count " ++
          s!"{manifest.rawTransactionCount} does not match bounded version range " ++
          s!"{manifest.startVersion}..{endVersion} (expected {expectedCount})"))
      else .ok ()

end HotIndex
