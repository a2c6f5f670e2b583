import HotIndex.Dataset.RecordLedger

/-!
# Resuming from the Directory

`load_record_resume_state` on a directory that represents a ledger: the checkpoint, if it
lists the ledger, and the names of the chunk files lead to the same cursor, the version
behind the archive.
-/

namespace HotIndex

open Lib

namespace Ledger

variable {ledger : Ledger} {dir : OutDir}

/-! ## The names of the chunk files -/

/-- What the name of a chunk file declares. -/
def rangeOf (txs : List Transaction) : UInt64 × UInt64 × Text :=
  (firstVersionOf txs, lastVersionOf txs, (chunkFile txs).1)

/-- Chunks of an archive start at ascending versions. -/
theorem pairwise_firstVersionOf {start : Nat} {chunks : List (List Transaction)}
    (hne : ∀ txs ∈ chunks, txs ≠ [])
    (h : ConsecutiveFrom start (versionsOf chunks.flatten)) :
    chunks.Pairwise (fun a b => firstVersionOf a < firstVersionOf b) := by
  induction chunks generalizing start with
  | nil => exact .nil
  | cons txs rest ih =>
    rw [List.flatten_cons, versionsOf_append, ConsecutiveFrom.append_iff, length_versionsOf] at h
    have hrest : ∀ txs ∈ rest, txs ≠ [] := fun b hb => hne b (List.mem_cons_of_mem _ hb)
    refine List.pairwise_cons.2 ⟨fun b hb => ?_, ih hrest h.2⟩
    have hpos := List.length_pos_iff.2 (hne txs List.mem_cons_self)
    have hfirst := toNat_firstVersionOf h.1 (hne txs List.mem_cons_self)
    -- every later chunk starts behind the end of this one
    have hlater : start + txs.length ≤ (firstVersionOf b).toNat :=
      (@firstVersionOf_bounds ⟨start + txs.length, [], rest, hrest, h.2⟩ b hb).1
    rw [UInt64.lt_iff_toNat_lt, hfirst]
    omega

theorem pairwise_rangeOf (ledger : Ledger) :
    (ledger.files.map rangeOf).Pairwise
      (fun a b => toLex (a.1, a.2.1) < toLex (b.1, b.2.1)) := by
  apply List.pairwise_map.2
  refine (pairwise_firstVersionOf ledger.nonempty ledger.consecutive).imp (fun hlt => ?_)
  exact Prod.Lex.lt_iff.2 (.inl hlt)

theorem OnDisk.declaredRanges_eq (h : ledger.OnDisk dir) :
    declaredRanges dir = ledger.files.map rangeOf := by
  -- each name parses back to the range that its chunk was named after
  have hfiles : (ledger.files.map chunkFile).filterMap
      (fun file => (rawChunkVersionRange (some file.1.str)).map
        (fun range => (range.1, range.2, file.1))) = ledger.files.map rangeOf := by
    rw [List.filterMap_map, ← List.filterMap_eq_map]
    refine List.filterMap_congr (fun txs _ => ?_)
    simp [chunkFile, rangeOf, rawChunkVersionRange_chunkFileName]
  have hperm := h.filterMap (fun file => (rawChunkVersionRange (some file.1.str)).map
    (fun range => (range.1, range.2, file.1)))
  rw [hfiles] at hperm
  exact sortOn_eq_of_perm hperm ledger.pairwise_rangeOf

/-- The names of an archive's chunks follow on each other. -/
theorem validateDeclaredFrom_chunks (dir : OutDir) {start : Nat}
    {chunks : List (List Transaction)} (hne : ∀ txs ∈ chunks, txs ≠ [])
    (h : ConsecutiveFrom start (versionsOf chunks.flatten)) {previousLast : Option UInt64}
    (hprevious : ∀ p ∈ previousLast, start = p.toNat + 1) :
    validateDeclaredFrom true true previousLast
      (chunks.map (fun txs => dir.namedChunk (rangeOf txs).2.2)) = .ok () := by
  induction chunks generalizing start previousLast with
  | nil => rfl
  | cons txs rest ih =>
    rw [List.flatten_cons, versionsOf_append, ConsecutiveFrom.append_iff, length_versionsOf] at h
    have htxs := hne txs List.mem_cons_self
    have hpos := List.length_pos_iff.2 htxs
    have hfirst := toNat_firstVersionOf h.1 htxs
    have hlast := toNat_lastVersionOf h.1 htxs
    have hle : ¬ firstVersionOf txs > lastVersionOf txs := by
      rw [gt_iff_lt, UInt64.lt_iff_toNat_lt]
      omega
    have hrange : (dir.namedChunk (rangeOf txs).2.2).declaredRange =
        some (firstVersionOf txs, lastVersionOf txs) :=
      rawChunkVersionRange_chunkFileName _ _
    -- the chunk starts behind the last version of the chunk before it
    have hfollows : checkFollows previousLast (firstVersionOf txs)
        (dir.namedChunk (rangeOf txs).2.2) = .ok () := by
      cases previousLast with
      | none => rfl
      | some p =>
        have hp := hprevious p rfl
        refine bind_eq_ok_iff.2 ⟨firstVersionOf txs, checkedNextVersion_eq_ok_iff.2 ?_, ?_⟩
        · omega
        · rw [if_neg (not_not.2 rfl)]
    have hrest : validateDeclaredFrom true true (some (lastVersionOf txs))
        (rest.map (fun txs => dir.namedChunk (rangeOf txs).2.2)) = .ok () :=
      ih (fun b hb => hne b (List.mem_cons_of_mem _ hb)) h.2 (by simp; omega)
    rw [List.map_cons, validateDeclaredFrom, hrange]
    simp only [if_neg hle]
    exact bind_eq_ok_iff.2 ⟨(), hfollows, hrest⟩

theorem lastVersionOf_le {txs : List Transaction} (htxs : txs ∈ ledger.files) :
    (lastVersionOf txs).toNat + 1 ≤ ledger.next := by
  obtain ⟨start, hstart, -, hle⟩ := chunk_consecutive htxs
  rw [toNat_lastVersionOf hstart (ledger.nonempty txs htxs)]
  exact hle

/-- The greatest last version that a name declares is the last version of the archive. -/
theorem max?_lastVersionOf (hne : ledger.files ≠ []) :
    ∃ last : UInt64, ((ledger.files.map rangeOf).map (fun range => range.2.1)).max? = some last ∧
      last.toNat + 1 = ledger.next := by
  obtain ⟨init, txs, hchunks⟩ := List.eq_nil_or_concat ledger.files |>.resolve_left hne
  rw [List.concat_eq_append] at hchunks
  have htxs : txs ∈ ledger.files := by simp [hchunks]
  -- the last chunk ends right before the next version
  have hlast : (lastVersionOf txs).toNat + 1 = ledger.next := by
    have h := ledger.consecutive_files
    rw [hchunks, List.flatten_append, List.flatten_singleton, versionsOf_append,
      ConsecutiveFrom.append_iff, length_versionsOf] at h
    rw [toNat_lastVersionOf h.2 (ledger.nonempty txs htxs)]
    unfold next
    rw [hchunks, List.flatten_append, List.flatten_singleton, List.length_append]
    omega
  refine ⟨lastVersionOf txs, List.max?_eq_some_iff.2 ⟨?_, ?_⟩, hlast⟩
  · rw [List.map_map]
    exact List.mem_map_of_mem htxs
  · -- and no other chunk ends behind it
    intro last hmem
    rw [List.map_map] at hmem
    obtain ⟨other, hother, rfl⟩ := List.mem_map.1 hmem
    have hle := lastVersionOf_le hother
    show lastVersionOf other ≤ _
    rw [UInt64.le_iff_toNat_le]
    omega

/-- What a name says about its chunk. -/
theorem inferredChunk_of (dir : OutDir) {txs : List Transaction} (htxs : txs ∈ ledger.files)
    (hnext : ledger.next < UInt64.size) :
    ∃ record, inferredChunk dir (rangeOf txs) = .ok record ∧ record.Of txs := by
  obtain ⟨start, hstart, -, hle⟩ := chunk_consecutive htxs
  have hne := ledger.nonempty txs htxs
  have hpos := List.length_pos_iff.2 hne
  have hfirst := toNat_firstVersionOf hstart hne
  have hlast := toNat_lastVersionOf hstart hne
  simp only [UInt64.size] at hnext
  -- the count that the name implies is the number of transactions, and it does not wrap
  have hsub : (lastVersionOf txs - firstVersionOf txs).toNat = txs.length - 1 := by
    rw [UInt64.toNat_sub_of_le _ _ (UInt64.le_iff_toNat_le.2 (by omega))]
    omega
  have hvalid : ¬ (lastVersionOf txs < firstVersionOf txs ∨
      lastVersionOf txs - firstVersionOf txs = u64Max) := by
    rw [not_or, UInt64.lt_iff_toNat_lt, ← UInt64.toNat_inj, hsub, toNat_u64Max]
    omega
  refine ⟨_, if_neg hvalid, rfl, rfl, rfl, ?_⟩
  show (lastVersionOf txs - firstVersionOf txs + 1).toNat = txs.length
  rw [UInt64.toNat_add, hsub]
  show (txs.length - 1 + 1) % 2 ^ 64 = txs.length
  rw [Nat.mod_eq_of_lt (by omega)]
  omega

/-- The names alone lead behind the archive and to records of its chunks. -/
theorem OnDisk.infer_ok (h : ledger.OnDisk dir) (hne : ledger.files ≠ [])
    (hnext : ledger.next < UInt64.size) :
    ∃ last next records, inferRecordResumeStateFromChunks dir = .ok (some {
        lastSuccessVersion := some last
        nextStartVersion := some next
        chunks := records }) ∧
      last.toNat + 1 = ledger.next ∧ next.toNat = ledger.next ∧
      ledger.relist.Recorded records := by
  obtain ⟨last, hmax, hlast⟩ := max?_lastVersionOf hne
  -- the records are those that the names declare, chunk by chunk
  choose! record hrecord hof using
    fun txs (htxs : txs ∈ ledger.files) => inferredChunk_of dir htxs hnext
  have hvalid : validateDeclaredRawChunkSequence
      ((ledger.files.map rangeOf).map (fun range => dir.namedChunk range.2.2)) true =
        .ok () := by
    rw [List.map_map]
    exact validateDeclaredFrom_chunks dir ledger.nonempty ledger.consecutive (by simp)
  have hchunks : (ledger.files.map rangeOf).mapM (inferredChunk dir) =
      .ok (ledger.files.map record) := by
    rw [List.mapM_map]
    exact mapM_eq_ok hrecord
  -- a version follows the archive, so the cursor does not wrap
  have hlt : last.toNat + 1 < 2 ^ 64 := by
    rw [hlast]
    exact hnext
  have hsucc : (last + 1).toNat = last.toNat + 1 := by
    rw [UInt64.toNat_add]
    exact Nat.mod_eq_of_lt hlt
  refine ⟨last, last + 1, ledger.files.map record, ?_, hlast, hsucc.trans hlast, ?_⟩
  · unfold inferRecordResumeStateFromChunks
    rw [h.declaredRanges_eq]
    simp only [hmax]
    exact bind_eq_ok_iff.2 ⟨(), hvalid, bind_eq_ok_iff.2 ⟨_, hchunks, bind_eq_ok_iff.2
      ⟨last + 1, checkedNextVersion_eq_ok_iff.2 hsucc, rfl⟩⟩⟩
  · show List.Forall₂ ChunkRecord.Of (ledger.files.map record) ledger.files
    rw [List.forall₂_map_left_iff, List.forall₂_same]
    exact hof

/-- An archive that ends with the last version of all has no version behind it. -/
theorem OnDisk.infer_next_lt (h : ledger.OnDisk dir) (hne : ledger.files ≠ [])
    {state : Option RecordResumeState}
    (hinfer : inferRecordResumeStateFromChunks dir = .ok state) : ledger.next < UInt64.size := by
  obtain ⟨last, hmax, hlast⟩ := max?_lastVersionOf hne
  unfold inferRecordResumeStateFromChunks at hinfer
  rw [h.declaredRanges_eq] at hinfer
  simp only [hmax] at hinfer
  obtain ⟨⟨⟩, -, hinfer⟩ := bind_eq_ok_iff.1 hinfer
  obtain ⟨chunks, -, hinfer⟩ := bind_eq_ok_iff.1 hinfer
  obtain ⟨next, hnext, -⟩ := bind_eq_ok_iff.1 hinfer
  rw [← hlast, ← checkedNextVersion_eq_ok_iff.1 hnext]
  exact next.toNat_lt

theorem OnDisk.infer_none (h : ledger.OnDisk dir) (hnil : ledger.files = []) :
    inferRecordResumeStateFromChunks dir = .ok none := by
  unfold inferRecordResumeStateFromChunks
  rw [h.declaredRanges_eq, hnil]
  rfl

/-! ## The resume state -/

/-- The directory represents the ledger: in its files, and in its checkpoint if it has one. -/
structure Settled (ledger : Ledger) (dir : OutDir) : Prop where
  onDisk : ledger.OnDisk dir
  lists : ∀ checkpoint ∈ dir.checkpoint, ledger.Lists checkpoint
  /-- Without a checkpoint the names list everything -/
  unlisted : dir.checkpoint = none → ledger.older = []

/-- Without a checkpoint, the names list everything. -/
theorem OnDisk.relist_settled (h : ledger.OnDisk dir)
    (hnone : dir.checkpoint = none) : ledger.relist.Settled dir where
  onDisk := h
  lists := by
    intro checkpoint hcheckpoint
    rw [hnone] at hcheckpoint
    cases hcheckpoint
  unlisted := fun _ => rfl

/-- The checkpoint lists the archive, or the last chunks of it. -/
theorem OnDisk.settled_of_lists {listed : Ledger} {checkpoint : RecordCheckpoint}
    (h : ledger.OnDisk dir) (hfiles : listed.files = ledger.files)
    (hlists : listed.Lists checkpoint) (hcheckpoint : dir.checkpoint = some checkpoint) :
    listed.Settled dir where
  onDisk := h.of_files hfiles
  lists := by
    rw [hcheckpoint]
    rintro _ ⟨⟩
    exact hlists
  unlisted := by
    intro hnone
    rw [hcheckpoint] at hnone
    cases hnone

/-- What resuming needs to know of an archive: where it ends and what it holds. -/
structure Resumes (ledger : Ledger) (state : RecordResumeState) : Prop where
  nextStartVersion : state.nextStartVersion.map UInt64.toNat = some ledger.next
  lastSuccessVersion : ledger.files ≠ [] →
    state.lastSuccessVersion.map (fun last => last.toNat + 1) = some ledger.next
  chunks : ledger.Recorded state.chunks

/-- **The cursor.** A settled directory with a checkpoint or with chunks resumes behind its
archive, unless the archive ends with the last version of all and there is no checkpoint. -/
theorem Settled.load_ok (h : ledger.Settled dir)
    (hsome : dir.checkpoint ≠ none ∨ ledger.files ≠ [] ∧ ledger.next < UInt64.size) :
    ∃ state, loadRecordResumeState dir = .ok state ∧ ledger.Resumes state := by
  unfold loadRecordResumeState resumeStateFromCheckpoint
  cases hcheckpoint : dir.checkpoint with
  | some checkpoint =>
    obtain ⟨hchunks, hnext, hlast, -⟩ := h.lists checkpoint hcheckpoint
    obtain ⟨next, hnextVersion, -⟩ := Option.map_eq_some_iff.1 hnext
    simp only [hnextVersion, Option.some_or, withInferredCursor]
    exact ⟨_, rfl, by rwa [hnextVersion] at hnext, hlast, hchunks⟩
  | none =>
    obtain ⟨hne, hnext⟩ := hsome.resolve_left (not_not.2 hcheckpoint)
    obtain ⟨last, next, records, hinfer, hlast, hnextNat, hrecords⟩ := h.onDisk.infer_ok hne hnext
    simp only [withInferredCursor, hinfer]
    refine ⟨_, rfl, by simp [hnextNat], by simp [hlast], ?_⟩
    -- nothing is older than what the names list
    show List.Forall₂ ChunkRecord.Of records ledger.chunks
    rw [← files_eq_chunks (h.unlisted hcheckpoint)]
    exact hrecords

/-- Without checkpoint and chunks there is nothing to resume. -/
theorem Settled.load_nothing (h : ledger.Settled dir) (hcheckpoint : dir.checkpoint = none)
    (hnil : ledger.files = []) {state : RecordResumeState}
    (hload : loadRecordResumeState dir = .ok state) :
    state.nextStartVersion = none ∧ state.lastSuccessVersion = none ∧ state.chunks = [] := by
  unfold loadRecordResumeState resumeStateFromCheckpoint at hload
  rw [hcheckpoint] at hload
  simp only [withInferredCursor, h.onDisk.infer_none hnil] at hload
  obtain rfl := Except.ok.inj hload
  exact ⟨rfl, rfl, rfl⟩

/-- An archive that ends with the last version of all cannot be resumed by its names. -/
theorem Settled.next_lt_of_load (h : ledger.Settled dir) (hcheckpoint : dir.checkpoint = none)
    (hne : ledger.files ≠ []) {state : RecordResumeState}
    (hload : loadRecordResumeState dir = .ok state) : ledger.next < UInt64.size := by
  unfold loadRecordResumeState resumeStateFromCheckpoint at hload
  rw [hcheckpoint] at hload
  obtain ⟨inferred, hinferred, -⟩ := bind_eq_ok_iff.1 hload
  obtain ⟨found, hinfer, -⟩ := bind_eq_ok_iff.1 hinferred
  exact h.onDisk.infer_next_lt hne hinfer

/-- A settled directory with a checkpoint or with chunks resumes behind its archive if it
resumes at all. -/
theorem Settled.of_load (h : ledger.Settled dir)
    (hsome : dir.checkpoint ≠ none ∨ ledger.files ≠ []) {state : RecordResumeState}
    (hload : loadRecordResumeState dir = .ok state) : ledger.Resumes state := by
  have hsome' : dir.checkpoint ≠ none ∨ ledger.files ≠ [] ∧ ledger.next < UInt64.size := by
    by_cases hcheckpoint : dir.checkpoint = none
    · have hne := hsome.resolve_left (not_not.2 hcheckpoint)
      exact .inr ⟨hne, h.next_lt_of_load hcheckpoint hne hload⟩
    · exact .inl hcheckpoint
  obtain ⟨state', hload', hresumes⟩ := h.load_ok hsome'
  rw [hload] at hload'
  exact Except.ok.inj hload' ▸ hresumes

end Ledger

end HotIndex
