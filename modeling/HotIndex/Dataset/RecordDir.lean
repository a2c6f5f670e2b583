import HotIndex.Dataset.RawChunks
import HotIndex.Lib.StepProgram

/-!
# The Recorder's Directory

What a recorder run keeps on disk: chunk files named by their versions, key files, and
`record_checkpoint.json`. Two sources say how far the archive reaches, the checkpoint and
the names of the chunks, and `load_record_resume_state` asks the second only if the first
has no answer.
-/

namespace HotIndex

open Lib RustText

/-! ## Names -/

/-- `transactions_<first>_<last>.pb.zst` -/
def chunkFileName (firstVersion lastVersion : UInt64) : String :=
  "transactions_" ++ (toString firstVersion ++ "_" ++ toString lastVersion ++ ".pb.zst")

/-- `transactions_<first>_<pid>.pb.zst.tmp` -/
def tmpChunkName (firstVersion : UInt64) (pid : Nat) : String :=
  "transactions_" ++ toString firstVersion ++ "_" ++ toString pid ++ ".pb.zst.tmp"

/-- `tx_versions_<start>_<last>.u64be` -/
def keyFileName (startVersion lastVersion : UInt64) : String :=
  "tx_versions_" ++ toString startVersion ++ "_" ++ toString lastVersion ++ ".u64be"

/-- The name of a chunk file declares its range. -/
theorem rawChunkVersionRange_chunkFileName (firstVersion lastVersion : UInt64) :
    rawChunkVersionRange (some (chunkFileName firstVersion lastVersion)) =
      some (firstVersion, lastVersion) := by
  have hdigit : ∀ n : UInt64, '_' ∉ (toString n).toList := by
    intro n
    rw [toList_toString_uInt64]
    exact Nat.underscore_not_in_toDigits
  -- a written number has no underscore, so that the name splits in two
  have hsplit : (toString firstVersion ++ "_" ++ toString lastVersion).toList.splitOn '_' =
      [(toString firstVersion).toList, (toString lastVersion).toList] := by
    have htext : (toString firstVersion ++ "_" ++ toString lastVersion).toList =
        ['_'].intercalate [(toString firstVersion).toList, (toString lastVersion).toList] := by
      simp [List.intercalate, String.toList_append]
    rw [htext, List.splitOn_intercalate]
    · simpa using ⟨hdigit firstVersion, hdigit lastVersion⟩
    · simp
  unfold rawChunkVersionRange chunkFileName
  simp only [stripPrefix_append, stripSuffix_append, Option.bind_eq_bind, Option.bind_some,
    hsplit, String.ofList_toList, parseU64_toString, Option.pure_def]

theorem chunkFileName_inj {first last first' last' : UInt64}
    (h : chunkFileName first last = chunkFileName first' last') :
    first = first' ∧ last = last' := by
  have := rawChunkVersionRange_chunkFileName first last
  rw [h, rawChunkVersionRange_chunkFileName] at this
  simp only [Option.some.injEq, Prod.mk.injEq] at this
  exact ⟨this.1.symm, this.2.symm⟩

/-! ## Records -/

/-- A chunk as the checkpoint lists it. -/
structure ChunkRecord where
  path : String
  firstVersion : UInt64
  lastVersion : UInt64
  transactionCount : UInt64
  /-- The digest of the file, unless the record was inferred from its name -/
  sha256 : Option String
  resumeInferredFromFilename : Bool
  deriving DecidableEq, Inhabited, Repr

/-- The status of a checkpoint. -/
inductive RecordStatus where
  | planned
  | recording
  | partlyRecorded
  | complete
  deriving DecidableEq, Repr

def RecordStatus.asStr : RecordStatus → String
  | .planned => "planned"
  | .recording => "recording"
  | .partlyRecorded => "partial"
  | .complete => "complete"

/-- `record_checkpoint.json`, as far as it tells how far a run got. The fields that a plan
does not write are optional. -/
structure RecordCheckpoint where
  status : RecordStatus
  message : String
  startVersion : UInt64
  endVersion : Option UInt64
  resume : Bool
  chainId : Option UInt64
  runTransactionCount : Option UInt64
  transactionCount : UInt64
  uncompressedRawBytes : Option UInt64
  maxRawBytes : Option UInt64
  chunkTransactionCount : UInt64
  lastSuccessVersion : Option UInt64
  nextStartVersion : Option UInt64
  stoppedAtByteLimit : Option Bool
  chunks : List ChunkRecord
  streamError : Option String
  deriving DecidableEq, Repr

/-- The sum of the chunks' transaction counts, as `write_record_checkpoint` checks it. -/
def totalTransactionCount (chunks : List ChunkRecord) : Except HotIndexError UInt64 :=
  chunks.foldlM (fun acc chunk =>
    if acc.toNat + chunk.transactionCount.toNat < UInt64.size then
      .ok (acc + chunk.transactionCount)
    else .error (.config "checkpoint transaction count overflow")) 0

/-! ## The directory and its steps -/

/-- The directory of a recorder run. -/
structure OutDir where
  /-- The path as messages show it -/
  display : String
  /-- The completed chunks by name -/
  chunkFiles : SortedMap Text (List Transaction)
  /-- The names of the chunks that are being written or were left behind -/
  tmpChunks : List Text
  /-- The versions in the completed key files by name -/
  keyFiles : SortedMap Text (List UInt64)
  checkpoint : Option RecordCheckpoint

/-- The file-system steps of a recorder run. -/
inductive FsStep where
  | createTmpChunk (tmp : String)
  | writeTmpChunk (tmp : String) (transaction : Transaction)
  | renameChunk (tmp final : String) (transactions : List Transaction)
  | renameKeys (final : String) (versions : List UInt64)
  | replaceCheckpoint (checkpoint : RecordCheckpoint)
  deriving DecidableEq

namespace OutDir

/-- An empty directory. -/
def empty (display : String) : OutDir where
  display := display
  chunkFiles := .empty
  tmpChunks := []
  keyFiles := .empty
  checkpoint := none

/-- `out_dir.join(name)` -/
def join (dir : OutDir) (name : String) : String := dir.display ++ "/" ++ name

def apply (dir : OutDir) : FsStep → OutDir
  | .createTmpChunk tmp =>
    { dir with tmpChunks := dir.tmpChunks.filter (· ≠ ⟨tmp⟩) ++ [⟨tmp⟩] }
  -- no run reads what a temporary chunk holds, so only its name is kept
  | .writeTmpChunk _ _ => dir
  | .renameChunk tmp final transactions =>
    { dir with
      tmpChunks := dir.tmpChunks.filter (· ≠ ⟨tmp⟩)
      chunkFiles := dir.chunkFiles.insert ⟨final⟩ transactions }
  | .renameKeys final versions =>
    { dir with keyFiles := dir.keyFiles.insert ⟨final⟩ versions }
  | .replaceCheckpoint checkpoint => { dir with checkpoint := some checkpoint }

instance : Store OutDir FsStep := ⟨apply⟩

/-- A chunk file by name alone; the checks of names do not open it. -/
def namedChunk (dir : OutDir) (name : Text) : ChunkFile where
  display := dir.join name.str
  fileName := some name.str
  transactions := []
  failure := none

/-- The versions of the completed chunks. -/
def archivedVersions (dir : OutDir) : List UInt64 :=
  dir.chunkFiles.values.flatMap (fun transactions => transactions.map Transaction.version)

end OutDir

/-! ## Errors -/

/-- The errors of a recorder run; the two refusals are told apart from the others, whose
texts the server may choose. -/
inductive RecordError where
  /-- `refusing to overwrite existing raw chunk {path}` -/
  | refuseChunk (path : String)
  /-- `refusing to overwrite existing key file {path}` -/
  | refuseKeyFile (path : String)
  | other (error : HotIndexError)
  deriving DecidableEq, Repr

/-! ## Resuming -/

structure RecordResumeState where
  lastSuccessVersion : Option UInt64 := none
  nextStartVersion : Option UInt64 := none
  chunks : List ChunkRecord := []
  resumeHint : Option String := none
  deriving DecidableEq, Repr

/-- The record of a chunk that is known by its name alone. -/
def inferredChunk (dir : OutDir) (range : UInt64 × UInt64 × Text) :
    Except HotIndexError ChunkRecord :=
  let (firstVersion, lastVersion, name) := range
  if lastVersion < firstVersion ∨ lastVersion - firstVersion = u64Max then
    .error (.config s!"invalid raw chunk version range in {dir.join name.str}")
  else .ok {
    path := name.str
    firstVersion := firstVersion
    lastVersion := lastVersion
    transactionCount := lastVersion - firstVersion + 1
    sha256 := none
    resumeInferredFromFilename := true }

/-- The ranges that the names of the chunk files declare, ascending. -/
def declaredRanges (dir : OutDir) : List (UInt64 × UInt64 × Text) :=
  sortOn (fun range => toLex (range.1, range.2.1)) (dir.chunkFiles.entries.filterMap
    (fun file => (rawChunkVersionRange (some file.1.str)).map
      (fun range => (range.1, range.2, file.1))))

/-- `infer_record_resume_state_from_chunks` -/
def inferRecordResumeStateFromChunks (dir : OutDir) :
    Except HotIndexError (Option RecordResumeState) :=
  let ranges := declaredRanges dir
  match (ranges.map (fun range => range.2.1)).max? with
  | none => .ok none
  | some lastSuccessVersion => do
    -- a gap or an overlap of the names is refused here
    validateDeclaredRawChunkSequence (ranges.map (fun range => dir.namedChunk range.2.2)) true
    let chunks ← ranges.mapM (inferredChunk dir)
    let nextStartVersion ← checkedNextVersion lastSuccessVersion
    return some {
      lastSuccessVersion := some lastSuccessVersion
      nextStartVersion := some nextStartVersion
      chunks := chunks }

/-- `resume_hint_from_tmp_chunks` -/
def resumeHintFromTmpChunks (dir : OutDir) : Option String :=
  let tmpChunks := sortOn id (dir.tmpChunks.filter (fun name =>
    "transactions_".toList.isPrefixOf name.str.toList &&
      ".pb.zst.tmp".toList.isSuffixOf name.str.toList))
  tmpChunks.getLast?.map (fun name =>
    s!"No completed transactions_*.pb.zst chunk or checkpoint cursor was found. A tmp chunk " ++
      s!"exists at {dir.join name.str}; run `decibel-dataset inspect-raw --input " ++
      s!"{dir.join name.str} --allow-truncated`, then retry record with `--start-version " ++
      "<next_start_version>`.")

/-- What the checkpoint says. -/
def resumeStateFromCheckpoint (dir : OutDir) : RecordResumeState :=
  match dir.checkpoint with
  | none => {}
  | some checkpoint => {
      lastSuccessVersion := checkpoint.lastSuccessVersion
      nextStartVersion := checkpoint.nextStartVersion.or (checkpoint.lastSuccessVersion.bind
        (fun version => (checkedNextVersion version).toOption))
      chunks := checkpoint.chunks }

/-- The cursor of the chunk names, for a state without one. -/
def withInferredCursor (dir : OutDir) (state : RecordResumeState) :
    Except HotIndexError RecordResumeState :=
  match state.nextStartVersion with
  | some _ => .ok state
  | none => do
    let inferred ← inferRecordResumeStateFromChunks dir
    return inferred.elim state (fun inferred => { state with
      lastSuccessVersion := inferred.lastSuccessVersion
      nextStartVersion := inferred.nextStartVersion
      chunks := if state.chunks.isEmpty then inferred.chunks else state.chunks })

/-- `load_record_resume_state` -/
def loadRecordResumeState (dir : OutDir) : Except HotIndexError RecordResumeState := do
  let state ← withInferredCursor dir (resumeStateFromCheckpoint dir)
  return match state.nextStartVersion with
    | some _ => state
    | none => { state with resumeHint := resumeHintFromTmpChunks dir }

end HotIndex
