import HotIndex.Dataset.Recorder

/-!
# The Steps of the Recorder

Which file-system steps the parts of a session take, whatever the directory. What a session
records is read off its steps: each transaction is written to a temporary chunk before the
rename of the chunk puts it into place. The writes are all in one part, `writeTransaction`;
the others only create, rename and replace files (`PlacesFiles`).
-/

namespace HotIndex

open Lib

/-! ## Transactions in the steps -/

/-- The transactions that some steps write to temporary chunks, in order. -/
def writtenTransactions (taken : List FsStep) : List Transaction :=
  taken.flatMap (fun step =>
    match step with
    | .writeTmpChunk _ transaction => [transaction]
    | .createTmpChunk _ | .renameChunk _ _ _ | .renameKeys _ _ | .replaceCheckpoint _ => [])

/-- The contents of the chunk files that some steps complete, in order. -/
def renamedTransactions (taken : List FsStep) : List Transaction :=
  taken.flatMap (fun step =>
    match step with
    | .renameChunk _ _ transactions => transactions
    | .createTmpChunk _ | .writeTmpChunk _ _ | .renameKeys _ _ | .replaceCheckpoint _ => [])

@[simp] theorem writtenTransactions_nil : writtenTransactions [] = [] := rfl

@[simp] theorem writtenTransactions_append (taken taken' : List FsStep) :
    writtenTransactions (taken ++ taken') =
      writtenTransactions taken ++ writtenTransactions taken' :=
  List.flatMap_append

@[simp] theorem renamedTransactions_append (taken taken' : List FsStep) :
    renamedTransactions (taken ++ taken') =
      renamedTransactions taken ++ renamedTransactions taken' :=
  List.flatMap_append

/-! ## Kinds of steps -/

/-- The steps that put files into place have `P`. -/
structure PlacesFiles (P : FsStep → Prop) : Prop where
  renameChunk : ∀ tmp final transactions, P (.renameChunk tmp final transactions)
  renameKeys : ∀ final versions, P (.renameKeys final versions)
  replaceCheckpoint : ∀ checkpoint, P (.replaceCheckpoint checkpoint)

/-- All steps of a session have `P`. -/
structure RecordsFiles (env : RecordEnv) (P : FsStep → Prop) : Prop extends PlacesFiles P where
  createTmpChunk : ∀ firstVersion, P (.createTmpChunk (tmpChunkName firstVersion env.processId))
  writeTmpChunk : ∀ tmp transaction, P (.writeTmpChunk tmp transaction)

section Takes

variable {P : FsStep → Prop} (env : RecordEnv) (server : TransactionServer)

theorem takes_finishActiveChunk (hplaces : PlacesFiles P) (loop : RecordLoop) :
    Takes P (finishActiveChunk env loop) := by
  unfold finishActiveChunk
  split
  · exact .pure _
  · apply Takes.bind
    · unfold ActiveChunk.finish
      split
      · exact .fail _
      · refine Takes.read.bind (fun dir => ?_)
        unfold ActiveChunk.rename
        dsimp only
        split_ifs
        · exact .fail _
        · -- the rename is the only step
          exact (Takes.perform (hplaces.renameChunk _ _ _)).bind (fun _ => .pure _)
    · exact fun _ => .pure _

theorem takes_writeRecordCheckpoint (hplaces : PlacesFiles P) (request : LiveRecordRequest)
    (loop : RecordLoop) (status : RecordStatus) (message : String) (lastSuccessVersion : UInt64)
    (streamError : Option String) :
    Takes P (writeRecordCheckpoint request loop status message lastSuccessVersion
      streamError) := by
  unfold writeRecordCheckpoint
  refine (Takes.ofExcept _).bind (fun transactionCount => ?_)
  refine (Takes.ofExcept _).bind (fun nextStartVersion => ?_)
  exact .perform (hplaces.replaceCheckpoint _)

theorem takes_finishKeys (hplaces : PlacesFiles P) (request : LiveRecordRequest)
    (loop : RecordLoop) (lastSuccessVersion : UInt64) (dir : OutDir) :
    Takes P (finishKeys request loop lastSuccessVersion dir) := by
  unfold finishKeys
  dsimp only
  split_ifs
  · exact .fail _
  · exact .perform (hplaces.renameKeys _ _)

theorem takes_flushFullChunk (hplaces : PlacesFiles P) (request : LiveRecordRequest)
    (writer : ActiveChunk) (loop : RecordLoop) :
    Takes P (flushFullChunk env request writer loop) := by
  unfold flushFullChunk
  split_ifs
  · refine (takes_finishActiveChunk env hplaces _).bind (fun loop => ?_)
    exact (takes_writeRecordCheckpoint hplaces _ _ _ _ _ _).bind (fun _ => .pure _)
  · exact .pure _

/-- The only place where a temporary chunk is created. -/
theorem takes_openActiveChunk
    (hcreate : ∀ firstVersion, P (.createTmpChunk (tmpChunkName firstVersion env.processId)))
    (loop : RecordLoop) (firstVersion : UInt64) :
    Takes P (openActiveChunk env loop firstVersion) := by
  unfold openActiveChunk
  split
  · unfold ActiveChunk.create
    exact (Takes.perform (hcreate _)).bind (fun _ => .pure _)
  · exact .pure _

theorem takes_writeTransaction (h : RecordsFiles env P) (request : LiveRecordRequest)
    (loop : RecordLoop) (transaction : Transaction) :
    Takes P (writeTransaction env request loop transaction) := by
  unfold writeTransaction
  refine (takes_openActiveChunk env h.createTmpChunk loop _).bind (fun opened => ?_)
  unfold ActiveChunk.writeTransaction
  refine ((Takes.perform (h.writeTmpChunk _ _)).bind (fun _ => .pure _)).bind (fun writer => ?_)
  refine (Takes.ofExcept _).bind (fun uncompressedRawBytes => ?_)
  exact takes_flushFullChunk env h.toPlacesFiles request writer _

theorem takes_recordTransactions (h : RecordsFiles env P) (request : LiveRecordRequest)
    (loop : RecordLoop) (transactions : List Transaction) :
    Takes P (recordTransactions env request loop transactions) := by
  induction transactions generalizing loop with
  | nil => exact .pure _
  | cons transaction rest ih =>
    unfold recordTransactions
    split_ifs
    · exact .pure _
    · refine (takes_writeTransaction env h request loop transaction).bind (fun loop => ?_)
      split_ifs
      · exact .pure _
      · exact ih loop

theorem takes_recordResponses (h : RecordsFiles env P) (request : LiveRecordRequest)
    (loop : RecordLoop) (responses : List StreamResponse) :
    Takes P (recordResponses env request loop responses) := by
  induction responses generalizing loop with
  | nil => exact .pure _
  | cons response rest ih =>
    unfold recordResponses
    refine (takes_recordTransactions env h request _ _).bind (fun loop => ?_)
    split_ifs
    · exact .pure _
    · exact ih loop

theorem takes_finishStream (hplaces : PlacesFiles P) (request : LiveRecordRequest)
    (ending : StreamEnd) (loop : RecordLoop) :
    Takes P (finishStream env request ending loop) := by
  unfold finishStream
  split
  · -- both ends close the chunk, place the keys file and then the checkpoint
    unfold finishInterrupted
    split_ifs
    · exact .fail _
    · refine (takes_finishActiveChunk env hplaces loop).bind (fun loop => ?_)
      refine Takes.read.bind (fun dir => ?_)
      refine (takes_finishKeys hplaces request loop _ dir).bind (fun _ => ?_)
      refine (takes_writeRecordCheckpoint hplaces _ _ _ _ _ _).bind (fun _ => ?_)
      exact (Takes.ofExcept _).bind (fun _ => .pure _)
  · unfold finishComplete
    refine (takes_finishActiveChunk env hplaces loop).bind (fun loop => ?_)
    unfold saveComplete
    split_ifs
    · exact .fail _
    · refine Takes.read.bind (fun dir => ?_)
      refine (takes_finishKeys hplaces request loop _ dir).bind (fun _ => ?_)
      refine (takes_writeRecordCheckpoint hplaces _ _ _ _ _ _).bind (fun _ => ?_)
      exact (Takes.ofExcept _).bind (fun _ => .pure _)

theorem takes_recordLiveTransactionStream (h : RecordsFiles env P) (attempt : Nat)
    (request : LiveRecordRequest) :
    Takes P (recordLiveTransactionStream env server attempt request) := by
  unfold recordLiveTransactionStream
  split_ifs
  · exact .fail _
  · refine (Takes.ofExcept _).bind (fun stream => (Takes.ofExcept _).bind (fun _ => ?_))
    refine (takes_recordResponses env h request _ _).bind (fun loop => ?_)
    exact takes_finishStream env h.toPlacesFiles request stream.ending loop

/-- Between two attempts nothing happens in the directory. -/
theorem takes_nextAttempt (initialMaxRawBytes : Option UInt64) (retriesLeft : Nat)
    (st : RetryState) (outcome : RecordRunOutcome) :
    Takes P (nextAttempt initialMaxRawBytes retriesLeft st outcome) := by
  -- what follows an attempt only reads the directory
  unfold nextAttempt
  split
  · exact (Takes.ofExcept _).bind (fun _ => .pure _)
  · refine (Takes.ofExcept _).bind (fun totalRawBytes => ?_)
    split_ifs
    · exact .pure _
    · split
      · exact .pure _
      · unfold retryFrom
        split_ifs
        · exact .fail _
        · exact Takes.read.bind (fun dir => (Takes.ofExcept _).bind (fun _ => .pure _))

theorem takes_recordWithRetries (h : RecordsFiles env P) (initialMaxRawBytes : Option UInt64)
    (retriesLeft : Nat) (st : RetryState) :
    Takes P (recordWithRetries env server initialMaxRawBytes retriesLeft st) := by
  -- an attempt and the bookkeeping behind it, then the attempts that remain
  induction retriesLeft generalizing st with
  | zero =>
    unfold recordWithRetries
    refine (takes_recordLiveTransactionStream env server h _ _).bind (fun outcome => ?_)
    exact (takes_nextAttempt _ _ _ outcome).bind (fun _ => .pure _)
  | succ retriesLeft ih =>
    unfold recordWithRetries
    refine (takes_recordLiveTransactionStream env server h _ _).bind (fun outcome => ?_)
    refine (takes_nextAttempt _ _ _ outcome).bind (fun next => ?_)
    split
    · exact .pure _
    · exact ih _

theorem takes_recordCommand (h : RecordsFiles env P) (opts : RecordOptions) :
    Takes P (recordCommand env server opts) := by
  unfold recordCommand
  refine Takes.read.bind (fun dir => (Takes.ofExcept _).bind (fun plan => ?_))
  split_ifs
  · refine (Takes.ofExcept _).bind (fun request => ?_)
    exact takes_recordWithRetries env server h _ _ _
  · unfold writePlan
    refine (Takes.ofExcept _).bind (fun transactionCount => ?_)
    exact .perform (h.replaceCheckpoint _)

end Takes

end HotIndex
