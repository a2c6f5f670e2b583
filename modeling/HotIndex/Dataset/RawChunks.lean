import HotIndex.Dataset.Transaction
import HotIndex.Lib.SortedMap

/-!
# Raw Chunks

The protobuf chunk files of a raw archive: the version range that a file name declares,
how the inputs of a normalize run are found and ordered, and the checks of a chunk
against its name and of the names against each other.
-/

namespace HotIndex

open Lib RustText

/-- A raw file: its name, and what decoding it yields. -/
structure ChunkFile where
  /-- The path as error messages show it -/
  display : String
  /-- The file name, if it is UTF-8 -/
  fileName : Option String
  transactions : List Transaction
  /-- The error that ends the decoding early -/
  failure : Option HotIndexError

/-- `checked_next_version` -/
def checkedNextVersion (version : UInt64) : Except HotIndexError UInt64 :=
  if version = u64Max then .error (.config "last_success_version cannot advance")
  else .ok (version + 1)

theorem checkedNextVersion_eq_ok_iff {version next : UInt64} :
    checkedNextVersion version = .ok next ↔ next.toNat = version.toNat + 1 := by
  have hlt := version.toNat_lt
  have hmax : version = u64Max ↔ version.toNat = 2 ^ 64 - 1 := by
    rw [← UInt64.toNat_inj, toNat_u64Max]
  unfold checkedNextVersion
  -- the last version of all has no successor
  split_ifs with h
  · have hnext := next.toNat_lt
    have hv := hmax.1 h
    constructor
    · exact nofun
    · intro hn
      omega
  · have hv : version.toNat + 1 < 2 ^ 64 := by
      have := mt hmax.2 h
      omega
    have hadd : (version + 1).toNat = version.toNat + 1 := by
      rw [UInt64.toNat_add]
      exact Nat.mod_eq_of_lt hv
    rw [Except.ok.injEq, ← UInt64.toNat_inj, hadd, eq_comm]

/-! ## Names -/

/-- `raw_chunk_version_range` -/
def rawChunkVersionRange (fileName : Option String) : Option (UInt64 × UInt64) := do
  let name ← fileName
  let range ← stripSuffix (← stripPrefix name "transactions_") ".pb.zst"
  match range.toList.splitOn '_' with
  -- a name with more parts, or fewer, declares no range
  | [first, last] => return (← parseU64 (String.ofList first), ← parseU64 (String.ofList last))
  | _ => none

namespace ChunkFile

/-- The range that the name of the file declares. -/
def declaredRange (chunk : ChunkFile) : Option (UInt64 × UInt64) :=
  rawChunkVersionRange chunk.fileName

/-- The versions of the decoded transactions. -/
def versions (chunk : ChunkFile) : List Nat := chunk.transactions.map (fun tx => tx.version.toNat)

end ChunkFile

/-! ## Finding the inputs -/

/-- An entry of a directory. -/
structure DirEntry where
  isFile : Bool
  chunk : ChunkFile

/-- What the input path of a normalize run leads to. -/
inductive RawPath where
  | file (chunk : ChunkFile)
  | directory (display : String) (entries : List DirEntry)
  | neither (display : String)

/-- `input.is_dir()` -/
def RawPath.isDir : RawPath → Bool
  | .directory _ _ => true
  | _ => false

/-- `is_transaction_chunk` -/
def isTransactionChunk (entry : DirEntry) : Bool :=
  entry.isFile &&
    match entry.chunk.fileName with
    | some name =>
      "transactions_".toList.isPrefixOf name.toList && ".pb.zst".toList.isSuffixOf name.toList
    | none => false

/-- What chunk files are sorted by: the start version, an undeclared one first, then the
file name. -/
def chunkSortKey (chunk : ChunkFile) : WithBot UInt64 ×ₗ WithBot Text :=
  toLex ((match chunk.declaredRange with
    | some (startVersion, _) => (startVersion : WithBot UInt64)
    | none => ⊥), optText chunk.fileName)

/-- `resolve_protobuf_raw_inputs` -/
def resolveProtobufRawInputs : RawPath → Except HotIndexError (List ChunkFile)
  | .file chunk => .ok [chunk]
  | .neither display =>
    .error (.config s!"raw input {display} is neither a file nor a directory")
  | .directory display entries =>
    let chunks := sortOn chunkSortKey ((entries.filter isTransactionChunk).map DirEntry.chunk)
    if chunks.isEmpty then
      .error (.config s!"no transactions_*.pb.zst chunks found in {display}")
    else .ok chunks

/-! ## Checks -/

/-- A chunk that follows the version `previousLast` starts at the next one. -/
def checkFollows (previousLast : Option UInt64) (firstVersion : UInt64) (chunk : ChunkFile) :
    Except HotIndexError Unit :=
  match previousLast with
  | none => .ok ()
  | some previousLast => do
    let expectedFirst ← checkedNextVersion previousLast
    if firstVersion ≠ expectedFirst then
      .error (.config (s!"non-contiguous protobuf raw chunks: expected first_version " ++
        s!"{expectedFirst} after {previousLast}, got {firstVersion} in {chunk.display}"))
    else .ok ()

/-- The loop of `validate_declared_raw_chunk_sequence`; `named` says that every chunk must
be named by its range. -/
def validateDeclaredFrom (requireContiguousChunks named : Bool) (previousLast : Option UInt64) :
    List ChunkFile → Except HotIndexError Unit
  | [] => .ok ()
  | chunk :: rest =>
    match chunk.declaredRange with
    | none =>
      if named then
        .error (.config (s!"protobuf raw chunk {chunk.display} must be named " ++
          "transactions_<first>_<last>.pb.zst"))
      -- a single file may have any name
      else validateDeclaredFrom requireContiguousChunks named previousLast rest
    | some (firstVersion, lastVersion) =>
      if firstVersion > lastVersion then
        .error (.config (s!"invalid raw chunk version range in {chunk.display}: " ++
          s!"first_version {firstVersion} is greater than last_version {lastVersion}"))
      else if requireContiguousChunks then do
        checkFollows previousLast firstVersion chunk
        validateDeclaredFrom requireContiguousChunks named (some lastVersion) rest
      -- the end of a range is only remembered where the next one has to follow it
      else validateDeclaredFrom requireContiguousChunks named previousLast rest

def validateDeclaredRawChunkSequence (rawInputs : List ChunkFile)
    (requireContiguousChunks : Bool) : Except HotIndexError Unit :=
  validateDeclaredFrom requireContiguousChunks
    (requireContiguousChunks || decide (rawInputs.length > 1)) none rawInputs

def validateDecodedRawChunk (chunk : ChunkFile) (firstVersion lastVersion : Option UInt64)
    (transactionCount : UInt64) : Except HotIndexError Unit :=
  match firstVersion, lastVersion with
  | some actualFirst, some actualLast =>
    match chunk.declaredRange with
    | none => .ok ()
    | some (declaredFirst, declaredLast) =>
      if actualFirst ≠ declaredFirst ∨ actualLast ≠ declaredLast then
        .error (.config
          (s!"protobuf raw chunk {chunk.display} range mismatch: filename declares " ++
            s!"{declaredFirst}..{declaredLast}, decoded {actualFirst}..{actualLast}"))
      else if declaredLast < declaredFirst ∨ declaredLast - declaredFirst = u64Max then
        .error (.config s!"invalid raw chunk version range in {chunk.display}")
      else
        let expectedCount := declaredLast - declaredFirst + 1
        if transactionCount ≠ expectedCount then
          .error (.config (s!"protobuf raw chunk {chunk.display} transaction count mismatch: " ++
            s!"filename range implies {expectedCount}, decoded {transactionCount}"))
        else .ok ()
  | _, _ => .error (.config s!"protobuf raw chunk {chunk.display} decoded zero transactions")

end HotIndex
