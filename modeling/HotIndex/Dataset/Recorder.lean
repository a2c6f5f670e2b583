import HotIndex.Dataset.RecordDir

/-!
# The Recorder

`record --live`: stream transactions from a server into chunk files, flush a chunk when it
is full, write a checkpoint after each flush and at the end, and start over behind the last
version when the stream is interrupted.
-/

namespace HotIndex

open Lib

/-! ## The server -/

structure StreamResponse where
  chainId : Option UInt64
  transactions : List Transaction

/-- How a stream ends: `Ok(None)`, or an error. -/
inductive StreamEnd where
  | closed
  | failed (error : String)
  deriving DecidableEq, Repr

/-- What a server sends in answer to one request. -/
structure TransactionStream where
  responses : List StreamResponse
  ending : StreamEnd

/-- All transactions of a stream. -/
def TransactionStream.delivered (stream : TransactionStream) : List Transaction :=
  stream.responses.flatMap StreamResponse.transactions

/-- The answer to the request number `attempt` of a run, for `transactionsCount` transactions
from `startingVersion` on; an error if the connection or the request fails. -/
abbrev TransactionServer :=
  (attempt : Nat) → (startingVersion transactionsCount : UInt64) →
    Except HotIndexError TransactionStream

/-- What prost and SHA-256 make of transactions, and the process. -/
structure RecordEnv where
  /-- The length of a transaction with its length prefix -/
  encodedLen : Transaction → UInt64
  /-- `sha256_file` of a chunk -/
  chunkDigest : List Transaction → String
  processId : Nat

/-! ## Requests and the state of the loop -/

/-- `LiveRecordRequest`, without the connection parameters. -/
structure LiveRecordRequest where
  startVersion : UInt64
  endVersion : UInt64
  resume : Bool
  maxRawBytes : Option UInt64
  chunkTransactionCount : UInt64
  previousChunks : List ChunkRecord

/-- `ActiveTransactionChunkWriter` -/
structure ActiveChunk where
  firstVersion : UInt64
  lastVersion : Option UInt64
  transactionCount : UInt64
  tmpName : String
  /-- The transactions in the temporary file -/
  written : List Transaction

/-- The local variables of `record_live_transaction_stream`. -/
structure RecordLoop where
  count : UInt64 := 0
  lastVersion : Option UInt64 := none
  chainId : Option UInt64 := none
  uncompressedRawBytes : UInt64 := 0
  stoppedAtByteLimit : Bool := false
  chunks : List ChunkRecord
  activeChunk : Option ActiveChunk := none
  /-- The versions handed to the key writer -/
  keyVersions : List UInt64 := []

inductive RecordRunOutcome where
  | complete (nextStartVersion rawBytes : UInt64) (stoppedAtByteLimit : Bool)
  | interrupted (nextStartVersion rawBytes : UInt64) (streamError : String)

/-- A recorder program: it reads and changes the output directory. -/
abbrev RecordM := StoreM OutDir FsStep RecordError

/-- A fallible computation beside the directory. -/
def RecordM.lift {α : Type} (x : Except HotIndexError α) : RecordM α :=
  StoreM.ofExcept (x.mapError .other)

/-! ## Chunks -/

section Record

variable (env : RecordEnv)

namespace ActiveChunk

/-- `ActiveTransactionChunkWriter::create` -/
def create (firstVersion : UInt64) : RecordM ActiveChunk := do
  let tmpName := tmpChunkName firstVersion env.processId
  StoreM.perform (.createTmpChunk tmpName)
  return {
    firstVersion := firstVersion
    lastVersion := none
    transactionCount := 0
    tmpName := tmpName
    written := [] }

/-- The chunk with one more transaction. -/
def push (chunk : ActiveChunk) (transaction : Transaction) : ActiveChunk :=
  { chunk with
    lastVersion := some transaction.version
    transactionCount := chunk.transactionCount + 1
    written := chunk.written ++ [transaction] }

/-- `ActiveTransactionChunkWriter::write_transaction` -/
def writeTransaction (chunk : ActiveChunk) (transaction : Transaction) : RecordM ActiveChunk := do
  StoreM.perform (.writeTmpChunk chunk.tmpName transaction)
  return chunk.push transaction

/-- `finish` from the last version on: the check of the final path, then the rename. -/
def rename (chunk : ActiveChunk) (lastVersion : UInt64) (dir : OutDir) :
    RecordM ChunkRecord :=
  let chunkName := chunkFileName chunk.firstVersion lastVersion
  -- a completed chunk is never overwritten
  if (dir.chunkFiles.get? ⟨chunkName⟩).isSome then
    StoreM.fail (.refuseChunk (dir.join chunkName))
  else do
    StoreM.perform (.renameChunk chunk.tmpName chunkName chunk.written)
    return {
      path := chunkName
      firstVersion := chunk.firstVersion
      lastVersion := lastVersion
      transactionCount := chunk.transactionCount
      sha256 := some (env.chunkDigest chunk.written)
      resumeInferredFromFilename := false }

/-- `ActiveTransactionChunkWriter::finish` -/
def finish (chunk : ActiveChunk) : RecordM ChunkRecord :=
  match chunk.lastVersion with
  | none => StoreM.fail (.other (.config "cannot finish empty transaction chunk"))
  | some lastVersion => do
    let dir ← StoreM.read
    chunk.rename env lastVersion dir

end ActiveChunk

/-- `finish_active_chunk` -/
def finishActiveChunk (loop : RecordLoop) : RecordM RecordLoop :=
  match loop.activeChunk with
  | none => pure loop
  | some chunk => do
    let record ← chunk.finish env
    return { loop with activeChunk := none, chunks := loop.chunks ++ [record] }

/-- `active_chunk`, created at its first transaction. -/
def openActiveChunk (loop : RecordLoop) (firstVersion : UInt64) : RecordM ActiveChunk :=
  match loop.activeChunk with
  | none => ActiveChunk.create env firstVersion
  | some chunk => pure chunk

/-! ## Checkpoints and key files -/

/-- The object that `write_record_checkpoint` writes. -/
def liveCheckpoint (request : LiveRecordRequest) (loop : RecordLoop) (status : RecordStatus)
    (message : String) (streamError : Option String)
    (transactionCount lastSuccessVersion nextStartVersion : UInt64) : RecordCheckpoint where
  status := status
  message := message
  startVersion := request.startVersion
  endVersion := some request.endVersion
  resume := request.resume
  chainId := loop.chainId
  runTransactionCount := some loop.count
  transactionCount := transactionCount
  uncompressedRawBytes := some loop.uncompressedRawBytes
  maxRawBytes := request.maxRawBytes
  chunkTransactionCount := request.chunkTransactionCount
  lastSuccessVersion := some lastSuccessVersion
  nextStartVersion := some nextStartVersion
  stoppedAtByteLimit := some loop.stoppedAtByteLimit
  chunks := loop.chunks
  streamError := streamError

/-- `write_record_checkpoint` -/
def writeRecordCheckpoint (request : LiveRecordRequest) (loop : RecordLoop)
    (status : RecordStatus) (message : String) (lastSuccessVersion : UInt64)
    (streamError : Option String) : RecordM Unit := do
  -- both numbers are checked for overflow before anything is written
  let transactionCount ← RecordM.lift (totalTransactionCount loop.chunks)
  let nextStartVersion ← RecordM.lift (checkedNextVersion lastSuccessVersion)
  StoreM.perform (.replaceCheckpoint (liveCheckpoint request loop status message streamError
    transactionCount lastSuccessVersion nextStartVersion))

/-- `RecordKeyWriter::finish`, up to the query files that it derives from the versions. -/
def finishKeys (request : LiveRecordRequest) (loop : RecordLoop) (lastSuccessVersion : UInt64)
    (dir : OutDir) : RecordM Unit :=
  let name := keyFileName request.startVersion lastSuccessVersion
  if (dir.keyFiles.get? ⟨name⟩).isSome then
    StoreM.fail (.refuseKeyFile (dir.join ("keys/" ++ name)))
  else StoreM.perform (.renameKeys name loop.keyVersions)

/-! ## One stream -/

/-- `max_raw_bytes.map(|limit| uncompressed_raw_bytes >= limit).unwrap_or(false)` -/
def byteLimitReached (request : LiveRecordRequest) (loop : RecordLoop) : Bool :=
  match request.maxRawBytes with
  | none => false
  | some limit => limit ≤ loop.uncompressedRawBytes

/-- `uncompressed_raw_bytes.checked_add(bytes_written)` -/
def addRawBytes (rawBytes bytesWritten : UInt64) : Except HotIndexError UInt64 :=
  if rawBytes.toNat + bytesWritten.toNat < UInt64.size then .ok (rawBytes + bytesWritten)
  else .error (.config "recorded raw byte count overflowed u64")

/-- Flush the active chunk once it is full, and save the cursor. -/
def flushFullChunk (request : LiveRecordRequest) (writer : ActiveChunk) (loop : RecordLoop) :
    RecordM RecordLoop :=
  if request.chunkTransactionCount ≤ writer.transactionCount then do
    -- the chunk is in place before the checkpoint that lists it
    let loop ← finishActiveChunk env loop
    writeRecordCheckpoint request loop .recording
      "recorded Aptos Transaction Stream raw protobuf chunk; recording still in progress"
      (loop.lastVersion.getD request.startVersion) none
    return loop
  else pure loop

/-- A transaction goes into the active chunk. -/
def writeTransaction (request : LiveRecordRequest) (loop : RecordLoop)
    (transaction : Transaction) : RecordM RecordLoop := do
  let opened ← openActiveChunk env loop transaction.version
  let writer ← opened.writeTransaction transaction
  -- the bytes are counted once they are written
  let uncompressedRawBytes ← RecordM.lift
    (addRawBytes loop.uncompressedRawBytes (env.encodedLen transaction))
  flushFullChunk env request writer { loop with
    activeChunk := some writer
    uncompressedRawBytes := uncompressedRawBytes
    lastVersion := some transaction.version
    keyVersions := loop.keyVersions ++ [transaction.version]
    count := loop.count + 1 }

/-- `break 'stream` at the byte limit, which is checked before and behind a transaction. -/
def stopAtByteLimit (request : LiveRecordRequest) (loop : RecordLoop) : RecordLoop :=
  { loop with stoppedAtByteLimit := byteLimitReached request loop }

/-- The loop over the transactions of a response. It stops at the byte limit. -/
def recordTransactions (request : LiveRecordRequest) (loop : RecordLoop) :
    List Transaction → RecordM RecordLoop
  | [] => pure loop
  | transaction :: rest =>
    if byteLimitReached request loop then pure (stopAtByteLimit request loop)
    else do
      let loop ← writeTransaction env request loop transaction
      if byteLimitReached request loop then pure (stopAtByteLimit request loop)
      else recordTransactions request loop rest

/-- The loop over the responses. -/
def recordResponses (request : LiveRecordRequest) (loop : RecordLoop) :
    List StreamResponse → RecordM RecordLoop
  | [] => pure loop
  | response :: rest => do
    let loop ← recordTransactions env request
      { loop with chainId := response.chainId.or loop.chainId } response.transactions
    if loop.stoppedAtByteLimit then pure loop else recordResponses request loop rest

/-- The stream breaks off: save what there is. -/
def finishInterrupted (request : LiveRecordRequest) (loop : RecordLoop) (streamError : String) :
    RecordM RecordRunOutcome :=
  -- an attempt that has recorded nothing ends the run with its own error
  if loop.count = 0 then StoreM.fail (.other (.config streamError))
  else do
    let loop ← finishActiveChunk env loop
    let lastSuccessVersion := loop.lastVersion.getD request.startVersion
    let dir ← StoreM.read
    finishKeys request loop lastSuccessVersion dir
    writeRecordCheckpoint request loop .partlyRecorded
      ("recorded partial Aptos Transaction Stream raw protobuf chunks before stream " ++
        "interruption") lastSuccessVersion (some streamError)
    let nextStartVersion ← RecordM.lift (checkedNextVersion lastSuccessVersion)
    return .interrupted nextStartVersion loop.uncompressedRawBytes streamError

/-- The message of a run that ends well. -/
def completeMessage (loop : RecordLoop) : String :=
  if loop.stoppedAtByteLimit then
    "recorded Aptos Transaction Stream raw protobuf chunks; stopped at max raw byte limit"
  else "recorded Aptos Transaction Stream raw protobuf chunks"

/-- The last part of the end of a stream, once something was recorded. -/
def saveComplete (request : LiveRecordRequest) (loop : RecordLoop) :
    RecordM RecordRunOutcome :=
  if loop.count = 0 then
    StoreM.fail (.other (.config "Transaction Stream returned zero transactions"))
  else do
    let lastSuccessVersion := loop.lastVersion.getD request.startVersion
    let dir ← StoreM.read
    finishKeys request loop lastSuccessVersion dir
    writeRecordCheckpoint request loop .complete (completeMessage loop) lastSuccessVersion none
    let nextStartVersion ← RecordM.lift (checkedNextVersion lastSuccessVersion)
    return .complete nextStartVersion loop.uncompressedRawBytes loop.stoppedAtByteLimit

/-- The stream ends, or the byte limit was reached. -/
def finishComplete (request : LiveRecordRequest) (loop : RecordLoop) :
    RecordM RecordRunOutcome := do
  -- an open chunk is put into place even if it is the only one
  let loop ← finishActiveChunk env loop
  saveComplete request loop

/-- What follows the loop: at the byte limit, the rest of the stream is not looked at. -/
def finishStream (request : LiveRecordRequest) (ending : StreamEnd) (loop : RecordLoop) :
    RecordM RecordRunOutcome :=
  match loop.stoppedAtByteLimit, ending with
  | false, .failed streamError => finishInterrupted env request loop streamError
  | _, _ => finishComplete env request loop

/-- `record_live_transaction_stream`, as the request number `attempt` of the run. -/
def recordLiveTransactionStream (server : TransactionServer) (attempt : Nat)
    (request : LiveRecordRequest) : RecordM RecordRunOutcome :=
  if request.endVersion < request.startVersion then
    StoreM.fail (.other (.config (s!"end-version {request.endVersion} is before " ++
      s!"start-version {request.startVersion}")))
  else do
    let expectedCount := request.endVersion - request.startVersion + 1
    let stream ← RecordM.lift (server attempt request.startVersion expectedCount)
    -- the progress reporter adds up the transactions of the earlier chunks
    let _ ← RecordM.lift (totalTransactionCount request.previousChunks)
    let loop ← recordResponses env request { chunks := request.previousChunks } stream.responses
    finishStream env request stream.ending loop

/-! ## Retries -/

/-- What the retry loop knows: the request of the next attempt and the bytes so far. -/
structure RetryState where
  request : LiveRecordRequest
  totalRawBytes : UInt64
  attempt : Nat

/-- The byte limit left for the next attempt; `none` if there is nothing left of it. -/
def remainingRawBytes (initialMaxRawBytes : Option UInt64) (request : LiveRecordRequest)
    (totalRawBytes : UInt64) : Option LiveRecordRequest :=
  match initialMaxRawBytes with
  | none => some request
  | some limit =>
    if limit ≤ totalRawBytes then none
    else some { request with maxRawBytes := some (limit - totalRawBytes) }

/-- Retry from the next version, unless no retry is left: the chunks recorded so far are read
back from the directory. -/
def retryFrom (request : LiveRecordRequest) (nextStartVersion totalRawBytes : UInt64)
    (streamError : String) (retriesLeft attempt : Nat) : RecordM (Option RetryState) :=
  if retriesLeft = 0 then
    StoreM.fail (.other (.config ("Transaction Stream interrupted after retry limit; " ++
      s!"cursor saved at next_start_version={nextStartVersion}; last error: {streamError}")))
  else do
    let dir ← StoreM.read
    let resumeState ← RecordM.lift (loadRecordResumeState dir)
    return some {
      request := { request with
        startVersion := nextStartVersion
        resume := true
        previousChunks := resumeState.chunks }
      totalRawBytes := totalRawBytes
      attempt := attempt + 1 }

/-- What follows an attempt: another one, or the end of the run. -/
def nextAttempt (initialMaxRawBytes : Option UInt64) (retriesLeft : Nat) (st : RetryState) :
    RecordRunOutcome → RecordM (Option RetryState)
  | .complete _ rawBytes _ => do
    -- the sum is only printed, but its overflow fails the run
    let _ ← RecordM.lift (addRawBytes st.totalRawBytes rawBytes)
    return none
  | .interrupted nextStartVersion rawBytes streamError => do
    let totalRawBytes ← RecordM.lift (addRawBytes st.totalRawBytes rawBytes)
    -- the stream broke off behind the last version asked for
    if st.request.endVersion < nextStartVersion then pure none
    else
      match remainingRawBytes initialMaxRawBytes st.request totalRawBytes with
      | none => pure none
      | some request =>
        retryFrom request nextStartVersion totalRawBytes streamError retriesLeft st.attempt

/-- The loop of `record_live_transaction_stream_with_retries`, with `retriesLeft` retries
before it gives up. -/
def recordWithRetries (server : TransactionServer) (initialMaxRawBytes : Option UInt64) :
    (retriesLeft : Nat) → RetryState → RecordM Unit
  | 0, st => do
    let outcome ← recordLiveTransactionStream env server st.attempt st.request
    let _ ← nextAttempt initialMaxRawBytes 0 st outcome
    return ()
  | retriesLeft + 1, st => do
    let outcome ← recordLiveTransactionStream env server st.attempt st.request
    let next ← nextAttempt initialMaxRawBytes (retriesLeft + 1) st outcome
    match next with
    | none => return ()
    | some st => recordWithRetries server initialMaxRawBytes retriesLeft st

/-- `record_live_transaction_stream_with_retries` -/
def recordLiveTransactionStreamWithRetries (server : TransactionServer)
    (request : LiveRecordRequest) (maxStreamRetries : UInt64) : RecordM Unit :=
  recordWithRetries env server request.maxRawBytes maxStreamRetries.toNat
    { request := request, totalRawBytes := 0, attempt := 0 }

/-! ## The command -/

/-- The options of the `record` command that decide what it does. -/
structure RecordOptions where
  network : Network
  resume : Bool
  startVersion : Option UInt64
  endVersion : Option UInt64
  transactionsCount : Option UInt64
  maxRawBytes : Option UInt64
  maxStreamRetries : UInt64
  chunkTransactionCount : UInt64
  live : Bool
  allowLowMainnetStart : Bool

/-- `resolve_record_start_version` -/
def resolveRecordStartVersion (requestedStartVersion : Option UInt64) (resume : Bool)
    (resumeState : RecordResumeState) : Except HotIndexError UInt64 :=
  if resume then
    match resumeState.nextStartVersion, requestedStartVersion with
    -- a cursor wins over the start version asked for
    | some nextStartVersion, _ => .ok nextStartVersion
    | none, some startVersion => .ok startVersion
    | none, none =>
      let message := "--resume requires record_checkpoint.json with next_start_version, an " ++
        "existing completed transactions_*.pb.zst chunk, or an explicit --start-version"
      .error (.config (match resumeState.resumeHint with
        | some hint => message ++ ". " ++ hint
        | none => message))
  else .ok (requestedStartVersion.getD 0)

/-- `resolve_record_end_version` -/
def resolveRecordEndVersion (startVersion : UInt64)
    (requestedEndVersion transactionsCount : Option UInt64) :
    Except HotIndexError (Option UInt64) :=
  match requestedEndVersion, transactionsCount with
  | some _, some _ =>
    .error (.config "--end-version and --transactions-count cannot be used together")
  | some endVersion, none => .ok (some endVersion)
  | none, some count =>
    if count = 0 then .error (.config "--transactions-count must be greater than zero")
    else if startVersion.toNat + (count - 1).toNat < UInt64.size then
      .ok (some (startVersion + (count - 1)))
    else .error (.config "--transactions-count overflows u64 version range")
  | none, none => .ok none

/-- The guard against placeholders that expanded to a low start version. -/
def checkMainnetRange (opts : RecordOptions) (startVersion : UInt64)
    (endVersion : Option UInt64) : Except HotIndexError Unit :=
  if opts.network = .mainnet ∧ startVersion < 1000000000 ∧ 1000000000 ≤ endVersion.getD 0 ∧
      opts.allowLowMainnetStart = false then
    .error (.config (s!"suspicious mainnet record range: start_version={startVersion}, " ++
      s!"end_version={endVersion.getD 0}. Did an environment variable or placeholder expand " ++
      "incorrectly? Pass --allow-low-mainnet-start to override."))
  else .ok ()

/-- What the command works out before it records or plans. -/
structure RecordPlan where
  resumeState : RecordResumeState
  startVersion : UInt64
  endVersion : Option UInt64

/-- The checks of `record_command` before its first effect. -/
def planRecord (opts : RecordOptions) (dir : OutDir) : Except HotIndexError RecordPlan := do
  let resumeState ← loadRecordResumeState dir
  let startVersion ← resolveRecordStartVersion opts.startVersion opts.resume resumeState
  let endVersion ← resolveRecordEndVersion startVersion opts.endVersion opts.transactionsCount
  if opts.chunkTransactionCount = 0 then
    .error (.config "--chunk-transaction-count must be greater than zero")
  else .ok {
    resumeState := resumeState
    startVersion := startVersion
    endVersion := endVersion }

/-- The request of `record --live`. -/
def liveRequest (opts : RecordOptions) (plan : RecordPlan) :
    Except HotIndexError LiveRecordRequest := do
  checkMainnetRange opts plan.startVersion plan.endVersion
  match plan.endVersion with
  | none => .error (.config "--live record requires --end-version or --transactions-count")
  | some endVersion => .ok {
      startVersion := plan.startVersion
      endVersion := endVersion
      resume := opts.resume
      maxRawBytes := opts.maxRawBytes
      chunkTransactionCount := opts.chunkTransactionCount
      previousChunks := if opts.resume then plan.resumeState.chunks else [] }

/-- `record` without `--live` only writes a checkpoint. -/
def writePlan (opts : RecordOptions) (plan : RecordPlan) : RecordM Unit := do
  let transactionCount ← RecordM.lift (totalTransactionCount plan.resumeState.chunks)
  StoreM.perform (.replaceCheckpoint {
    status := .planned
    message := "record skeleton only; Aptos gRPC recording is implemented in a later milestone"
    startVersion := plan.startVersion
    endVersion := plan.endVersion
    resume := opts.resume
    chainId := none
    runTransactionCount := none
    transactionCount := transactionCount
    uncompressedRawBytes := none
    maxRawBytes := opts.maxRawBytes
    chunkTransactionCount := opts.chunkTransactionCount
    lastSuccessVersion := plan.resumeState.lastSuccessVersion
    nextStartVersion := some (plan.resumeState.nextStartVersion.getD plan.startVersion)
    stoppedAtByteLimit := none
    chunks := plan.resumeState.chunks
    streamError := none })

/-- `record_command` -/
def recordCommand (server : TransactionServer) (opts : RecordOptions) : RecordM Unit := do
  let dir ← StoreM.read
  let plan ← RecordM.lift (planRecord opts dir)
  if opts.live then do
    let request ← RecordM.lift (liveRequest opts plan)
    recordLiveTransactionStreamWithRetries env server request opts.maxStreamRetries
  else writePlan opts plan

end Record

end HotIndex
