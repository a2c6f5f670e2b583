import HotIndex.Dataset.Recorder
import HotIndex.Lib.Consecutive
import HotIndex.Lib.Fallible

/-!
# The Archive as a Ledger

What a recorder is for: an archive is a sequence of transactions with consecutive
versions, cut into chunks. A ledger is such an archive by construction. The directory
represents it twice, in the chunk files (`OnDisk`) and in the chunk list of the checkpoint
(`Lists`); the two representations are related to one ledger and thereby to each other.
-/

namespace HotIndex

open Lib

/-! ## Chunks -/

/-- The versions of some transactions. -/
def versionsOf (txs : List Transaction) : List Nat := txs.map (fun tx => tx.version.toNat)

@[simp] theorem versionsOf_nil : versionsOf [] = [] := rfl

@[simp] theorem versionsOf_append (a b : List Transaction) :
    versionsOf (a ++ b) = versionsOf a ++ versionsOf b := List.map_append

@[simp] theorem length_versionsOf (txs : List Transaction) :
    (versionsOf txs).length = txs.length := List.length_map _

def firstVersionOf (txs : List Transaction) : UInt64 :=
  (txs.head?.map Transaction.version).getD 0

def lastVersionOf (txs : List Transaction) : UInt64 :=
  (txs.getLast?.map Transaction.version).getD 0

@[simp] theorem lastVersionOf_concat (txs : List Transaction) (tx : Transaction) :
    lastVersionOf (txs ++ [tx]) = tx.version := by
  simp [lastVersionOf]

theorem toNat_firstVersionOf {start : Nat} {txs : List Transaction}
    (h : ConsecutiveFrom start (versionsOf txs)) (hne : txs ≠ []) :
    (firstVersionOf txs).toNat = start := by
  cases txs with
  | nil => exact absurd rfl hne
  | cons tx txs => exact (ConsecutiveFrom.cons_iff.1 h).1

theorem toNat_lastVersionOf {start : Nat} {txs : List Transaction}
    (h : ConsecutiveFrom start (versionsOf txs)) (hne : txs ≠ []) :
    (lastVersionOf txs).toNat + 1 = start + txs.length := by
  obtain ⟨init, tx, rfl⟩ := List.eq_nil_or_concat txs |>.resolve_left hne
  rw [List.concat_eq_append] at h ⊢
  rw [versionsOf_append, ConsecutiveFrom.append_iff, length_versionsOf] at h
  have hlast : tx.version.toNat = start + init.length := (ConsecutiveFrom.cons_iff.1 h.2).1
  rw [lastVersionOf_concat, hlast, List.length_append, List.length_singleton]
  omega

/-- The name and the content of a chunk file. -/
def chunkFile (txs : List Transaction) : Text × List Transaction :=
  (⟨chunkFileName (firstVersionOf txs) (lastVersionOf txs)⟩, txs)

/-- The record describes a chunk of these transactions. -/
structure ChunkRecord.Of (record : ChunkRecord) (txs : List Transaction) : Prop where
  path : record.path = chunkFileName (firstVersionOf txs) (lastVersionOf txs)
  firstVersion : record.firstVersion = firstVersionOf txs
  lastVersion : record.lastVersion = lastVersionOf txs
  transactionCount : record.transactionCount.toNat = txs.length

/-! ## Ledgers -/

/-- An archive: consecutive versions from a start, in chunks none of which is empty. A session
without `--resume` lists only chunks of its own; those that were there before it are `older`. -/
structure Ledger where
  start : Nat
  older : List (List Transaction)
  chunks : List (List Transaction)
  nonempty : ∀ txs ∈ older ++ chunks, txs ≠ []
  consecutive : ConsecutiveFrom start (versionsOf (older ++ chunks).flatten)

namespace Ledger

/-- All chunks of the archive, listed or not. -/
def files (ledger : Ledger) : List (List Transaction) := ledger.older ++ ledger.chunks

theorem consecutive_files (ledger : Ledger) :
    ConsecutiveFrom ledger.start (versionsOf ledger.files.flatten) := ledger.consecutive

/-- The archive that is about to start. -/
def empty (start : Nat) : Ledger where
  start := start
  older := []
  chunks := []
  nonempty := by simp
  consecutive := ConsecutiveFrom.nil start

/-- The version behind the archive. -/
def next (ledger : Ledger) : Nat := ledger.start + ledger.files.flatten.length

/-- A further chunk. -/
def concat (ledger : Ledger) (txs : List Transaction) (hne : txs ≠ [])
    (h : ConsecutiveFrom ledger.next (versionsOf txs)) : Ledger where
  start := ledger.start
  older := ledger.older
  chunks := ledger.chunks ++ [txs]
  nonempty := by
    intro chunk hchunk
    rw [← List.append_assoc] at hchunk
    rcases List.mem_append.1 hchunk with hchunk | hchunk
    · exact ledger.nonempty chunk hchunk
    · exact List.mem_singleton.1 hchunk ▸ hne
  consecutive := by
    rw [← List.append_assoc, List.flatten_append, List.flatten_singleton, versionsOf_append,
      ConsecutiveFrom.append_iff, length_versionsOf]
    exact ⟨ledger.consecutive, h⟩

/-- The same archive, none of it listed. -/
def unlist (ledger : Ledger) : Ledger where
  start := ledger.start
  older := ledger.files
  chunks := []
  nonempty := by
    rw [List.append_nil]
    exact ledger.nonempty
  consecutive := by
    rw [List.append_nil]
    exact ledger.consecutive

/-- The same archive, all of it listed. -/
def relist (ledger : Ledger) : Ledger where
  start := ledger.start
  older := []
  chunks := ledger.files
  nonempty := ledger.nonempty
  consecutive := ledger.consecutive

@[simp] theorem files_empty (start : Nat) : (empty start).files = [] := rfl

@[simp] theorem files_concat (ledger : Ledger) (txs : List Transaction) (hne : txs ≠ [])
    (h : ConsecutiveFrom ledger.next (versionsOf txs)) :
    (ledger.concat txs hne h).files = ledger.files ++ [txs] :=
  (List.append_assoc _ _ _).symm

@[simp] theorem files_unlist (ledger : Ledger) : ledger.unlist.files = ledger.files :=
  List.append_nil _

@[simp] theorem files_relist (ledger : Ledger) : ledger.relist.files = ledger.files := rfl

@[simp] theorem next_empty (start : Nat) : (empty start).next = start := rfl

@[simp] theorem next_concat (ledger : Ledger) (txs : List Transaction) (hne : txs ≠ [])
    (h : ConsecutiveFrom ledger.next (versionsOf txs)) :
    (ledger.concat txs hne h).next = ledger.next + txs.length := by
  unfold next
  rw [files_concat, List.flatten_append, List.flatten_singleton, List.length_append,
    ← Nat.add_assoc]
  rfl

@[simp] theorem next_unlist (ledger : Ledger) : ledger.unlist.next = ledger.next := by
  unfold next
  rw [files_unlist]
  rfl

/-- Without older chunks, all of the archive is listed. -/
theorem files_eq_chunks {ledger : Ledger} (h : ledger.older = []) :
    ledger.files = ledger.chunks := by
  unfold files
  rw [h, List.nil_append]

/-- Listed chunks are chunks of the archive. -/
theorem files_ne_nil {ledger : Ledger} (h : ledger.chunks ≠ []) : ledger.files ≠ [] :=
  List.append_ne_nil_of_right_ne_nil _ h

theorem length_chunks_le (ledger : Ledger) :
    ledger.chunks.flatten.length ≤ ledger.files.flatten.length := by
  unfold files
  rw [List.flatten_append, List.length_append]
  exact Nat.le_add_left _ _

theorem flatten_ne_nil {ledger : Ledger} (hne : ledger.files ≠ []) :
    ledger.files.flatten ≠ [] := by
  obtain ⟨txs, htxs⟩ := List.exists_mem_of_ne_nil _ hne
  intro hnil
  exact ledger.nonempty txs htxs (List.flatten_eq_nil_iff.1 hnil txs htxs)

theorem start_lt_next {ledger : Ledger} (hne : ledger.files ≠ []) :
    ledger.start < ledger.next := by
  have := List.length_pos_iff.2 (flatten_ne_nil hne)
  unfold next
  omega

theorem ne_nil_of_start_lt_next {ledger : Ledger} (h : ledger.start < ledger.next) :
    ledger.files ≠ [] := by
  intro hnil
  unfold next at h
  rw [hnil] at h
  exact lt_irrefl _ h

/-- Archived versions lie between the start and the next version. -/
theorem version_bounds {ledger : Ledger} {txs : List Transaction} (htxs : txs ∈ ledger.files)
    {tx : Transaction} (htx : tx ∈ txs) :
    ledger.start ≤ tx.version.toNat ∧ tx.version.toNat < ledger.next := by
  have hmem : tx.version.toNat ∈ versionsOf ledger.files.flatten :=
    List.mem_map.2 ⟨tx, List.mem_flatten.2 ⟨txs, htxs, htx⟩, rfl⟩
  have := (ledger.consecutive_files.mem_iff _).1 hmem
  rwa [length_versionsOf] at this

theorem firstVersionOf_bounds {ledger : Ledger} {txs : List Transaction}
    (htxs : txs ∈ ledger.files) :
    ledger.start ≤ (firstVersionOf txs).toNat ∧ (firstVersionOf txs).toNat < ledger.next := by
  have hne := ledger.nonempty txs htxs
  cases txs with
  | nil => exact absurd rfl hne
  | cons tx rest => exact version_bounds htxs List.mem_cons_self

/-- Each chunk is a run of consecutive versions inside the archive. -/
theorem chunk_consecutive {ledger : Ledger} {txs : List Transaction}
    (htxs : txs ∈ ledger.files) :
    ∃ start, ConsecutiveFrom start (versionsOf txs) ∧ ledger.start ≤ start ∧
      start + txs.length ≤ ledger.next := by
  -- the chunk starts behind all versions of the chunks before it
  obtain ⟨before, after, hchunks⟩ := List.append_of_mem htxs
  have h := ledger.consecutive_files
  rw [hchunks, List.flatten_append, List.flatten_cons, versionsOf_append, versionsOf_append,
    ConsecutiveFrom.append_iff, ConsecutiveFrom.append_iff, length_versionsOf] at h
  refine ⟨ledger.start + before.flatten.length, h.2.1, by omega, ?_⟩
  unfold next
  rw [hchunks, List.flatten_append, List.flatten_cons, List.length_append, List.length_append]
  omega

/-- `later` holds all of `earlier` and more chunks behind it. -/
structure Extends (later earlier : Ledger) : Prop where
  start : later.start = earlier.start
  older : later.older = earlier.older
  chunks : earlier.chunks <+: later.chunks

theorem Extends.refl (ledger : Ledger) : ledger.Extends ledger := ⟨rfl, rfl, List.prefix_refl _⟩

theorem Extends.concat {later earlier : Ledger} (h : later.Extends earlier)
    (txs : List Transaction) (hne : txs ≠ [])
    (hnext : ConsecutiveFrom later.next (versionsOf txs)) :
    (later.concat txs hne hnext).Extends earlier :=
  ⟨h.start, h.older, h.chunks.trans (List.prefix_append _ _)⟩

theorem Extends.next_le {later earlier : Ledger} (h : later.Extends earlier) :
    earlier.next ≤ later.next := by
  obtain ⟨more, hmore⟩ := h.chunks
  have hfiles : later.files = earlier.files ++ more := by
    unfold files
    rw [h.older, ← hmore, List.append_assoc]
  unfold next
  rw [h.start, hfiles, List.flatten_append, List.length_append]
  omega

/-- What is behind the archive that a session goes on with is listed. -/
theorem Extends.chunks_ne_nil {later earlier : Ledger} (h : later.Extends earlier)
    (hlt : earlier.next < later.next) : later.chunks ≠ [] := by
  intro hnil
  obtain ⟨more, hmore⟩ := h.chunks
  -- if the later ledger has no chunks, the earlier one has none either
  have hchunks : earlier.chunks = later.chunks := by
    rw [hnil] at hmore ⊢
    exact (List.append_eq_nil_iff.1 hmore).1
  refine hlt.ne ?_
  unfold next files
  rw [h.start, h.older, hchunks]

/-! ## On disk -/

/-- The chunk files of the directory are those of the ledger. -/
def OnDisk (ledger : Ledger) (dir : OutDir) : Prop :=
  dir.chunkFiles.entries.Perm (ledger.files.map chunkFile)

theorem OnDisk.of_files {ledger other : Ledger} {dir : OutDir} (h : ledger.OnDisk dir)
    (hfiles : other.files = ledger.files) : other.OnDisk dir := by
  unfold OnDisk
  rw [hfiles]
  exact h

/-- The records describe the listed chunks of the ledger, in order. -/
def Recorded (ledger : Ledger) (records : List ChunkRecord) : Prop :=
  List.Forall₂ ChunkRecord.Of records ledger.chunks

theorem Recorded.concat {ledger : Ledger} {records : List ChunkRecord}
    (h : ledger.Recorded records) {record : ChunkRecord} {txs : List Transaction}
    (hrecord : record.Of txs) (hne : txs ≠ [])
    (hnext : ConsecutiveFrom ledger.next (versionsOf txs)) :
    (ledger.concat txs hne hnext).Recorded (records ++ [record]) :=
  List.rel_append h (.cons hrecord .nil)

/-- The checkpoint lists these chunks of the ledger and points behind it. -/
structure Lists (ledger : Ledger) (checkpoint : RecordCheckpoint) : Prop where
  chunks : ledger.Recorded checkpoint.chunks
  nextStartVersion : checkpoint.nextStartVersion.map UInt64.toNat = some ledger.next
  lastSuccessVersion : ledger.files ≠ [] →
    checkpoint.lastSuccessVersion.map (fun last => last.toNat + 1) = some ledger.next
  transactionCount : checkpoint.transactionCount.toNat = ledger.chunks.flatten.length

/-- A chunk that follows the archive has no file yet. -/
theorem OnDisk.fresh {ledger : Ledger} {dir : OutDir} (h : ledger.OnDisk dir)
    {txs : List Transaction} (hne : txs ≠ [])
    (hnext : ConsecutiveFrom ledger.next (versionsOf txs)) :
    dir.chunkFiles.get? (chunkFile txs).1 = none := by
  rw [Option.eq_none_iff_forall_not_mem]
  intro content hcontent
  have hmem := h.mem_iff.1 ((SortedMap.get?_eq_some_iff_mem _ _ _).1 hcontent)
  obtain ⟨old, hold, hfile⟩ := List.mem_map.1 hmem
  simp only [chunkFile, Prod.mk.injEq, Text.mk.injEq] at hfile
  -- the name starts with the first version, which no archived chunk has
  have hfirst := congrArg UInt64.toNat (chunkFileName_inj hfile.1).1
  rw [toNat_firstVersionOf hnext hne] at hfirst
  exact absurd (firstVersionOf_bounds hold).2 (by omega)

/-- Renaming the file of a further chunk. -/
theorem OnDisk.renameChunk {ledger : Ledger} {dir : OutDir} (h : ledger.OnDisk dir)
    {txs : List Transaction} (hne : txs ≠ [])
    (hnext : ConsecutiveFrom ledger.next (versionsOf txs)) (tmp : String) :
    (ledger.concat txs hne hnext).OnDisk
      (dir.apply (.renameChunk tmp (chunkFileName (firstVersionOf txs) (lastVersionOf txs))
        txs)) := by
  -- the name is fresh, so the rename replaces no file
  show (dir.chunkFiles.insert (chunkFile txs).1 txs).entries.Perm _
  refine (SortedMap.insert_perm_of_fresh (h.fresh hne hnext) txs).trans ?_
  rw [files_concat, List.map_append]
  exact (h.cons _).trans (List.perm_append_singleton _ _).symm

end Ledger

end HotIndex
