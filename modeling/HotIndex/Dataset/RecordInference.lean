import HotIndex.Dataset.RecordCrash
import HotIndex.Dataset.RecordSteps

/-!
# Two Accounts of One Archive

`record_checkpoint.json` and the names of the chunk files lead to the same cursor. The names
are found among whatever else lies in the directory (`OutDir.Enumerates`), in the order of
`read_dir`. A temporary chunk has a name that declares no range, and the names of the chunks
are told apart by their first versions, so the sorted ranges are those of the ledger. The
checkpoint lists the last of them, and all of them unless a session without `--resume` went on
behind chunks of earlier ones (`inference_agrees`). Names that leave a gap or overlap are
refused, in whatever order they come.
-/

namespace HotIndex

open Lib RustText

/-! ## The entries of the directory -/

/-- A name that does not end in `t`, as `.pb.zst` does, declares no range. -/
theorem rawChunkVersionRange_of_getLast?_ne {name : String}
    (h : name.toList.getLast? ≠ some 't') : rawChunkVersionRange (some name) = none := by
  unfold rawChunkVersionRange
  cases hrest : stripPrefix name "transactions_" with
  | none => simp [hrest]
  -- what is left behind the prefix ends as the name does
  | some rest =>
    have hdrop : rest.toList <:+ name.toList := by
      unfold stripPrefix at hrest
      split_ifs at hrest
      rw [← Option.some.inj hrest, String.toList_ofList]
      exact List.drop_suffix _ _
    have hsuffix : stripSuffix rest ".pb.zst" = none := by
      unfold stripSuffix
      apply if_neg
      rw [List.isSuffixOf_iff_suffix]
      intro hends
      apply h
      obtain ⟨start, hname⟩ := hends.trans hdrop
      rw [← hname, List.getLast?_append]
      simp
    simp [hrest, hsuffix]

theorem rawChunkVersionRange_tmpChunkName (firstVersion : UInt64) (pid : Nat) :
    rawChunkVersionRange (some (tmpChunkName firstVersion pid)) = none := by
  apply rawChunkVersionRange_of_getLast?_ne
  unfold tmpChunkName
  simp only [String.toList_append, List.getLast?_append]
  simp

/-- What else lies in the directory: the checkpoint, the file that becomes the next one, and
the key files with their directory. -/
inductive SideName : Text → Prop
  | checkpoint : SideName ⟨"record_checkpoint.json"⟩
  | checkpointTmp : SideName ⟨"record_checkpoint.json.tmp"⟩
  | keysDir : SideName ⟨"keys"⟩
  | keyFile (startVersion lastVersion : UInt64) : SideName ⟨keyFileName startVersion lastVersion⟩

theorem SideName.rawChunkVersionRange {name : Text} (h : SideName name) :
    rawChunkVersionRange (some name.str) = none := by
  apply rawChunkVersionRange_of_getLast?_ne
  cases h with
  | checkpoint => simp
  | checkpointTmp => simp
  | keysDir => simp
  | keyFile startVersion lastVersion =>
    unfold keyFileName
    simp only [String.toList_append, List.getLast?_append]
    simp

/-- An enumeration of the directory, in any order. -/
def OutDir.Enumerates (dir : OutDir) (entries : List Text) : Prop :=
  ∃ side : List Text, (∀ name ∈ side, SideName name) ∧
    entries.Perm (dir.chunkFiles.entries.map Prod.fst ++ dir.tmpChunks ++ side)

/-! ## Inference -/

/-- The range that the name of an entry declares. -/
def declaredEntry (name : Text) : Option (UInt64 × UInt64 × Text) :=
  (rawChunkVersionRange (some name.str)).map (fun range => (range.1, range.2, name))

/-- The ranges that the names of the entries declare, ascending. -/
def declaredRangesOf (entries : List Text) : List (UInt64 × UInt64 × Text) :=
  sortOn (fun range => toLex (range.1, range.2.1)) (entries.filterMap declaredEntry)

/-- `infer_record_resume_state_from_chunks` on the entries that `read_dir` yields -/
def inferFromEntries (dir : OutDir) (entries : List Text) :
    Except HotIndexError (Option RecordResumeState) :=
  let ranges := declaredRangesOf entries
  match (ranges.map (fun range => range.2.1)).max? with
  | none => .ok none
  | some lastSuccessVersion => do
    validateDeclaredRawChunkSequence (ranges.map (fun range => dir.namedChunk range.2.2)) true
    let chunks ← ranges.mapM (inferredChunk dir)
    let nextStartVersion ← checkedNextVersion lastSuccessVersion
    return some {
      lastSuccessVersion := some lastSuccessVersion
      nextStartVersion := some nextStartVersion
      chunks := chunks }

/-- The chunk files alone, in the order of their names. -/
theorem inferFromEntries_chunkFiles (dir : OutDir) :
    inferFromEntries dir (dir.chunkFiles.entries.map Prod.fst) =
      inferRecordResumeStateFromChunks dir := by
  unfold inferFromEntries declaredRangesOf
  rw [List.filterMap_map]
  rfl

/-- The name is one that the recorder gives to a temporary chunk. -/
def TmpNamed (name : Text) : Prop :=
  ∃ firstVersion pid, name = ⟨tmpChunkName firstVersion pid⟩

/-- Of all entries, only the chunk files declare ranges. -/
theorem OutDir.Enumerates.filterMap_declaredEntry {dir : OutDir} {entries : List Text}
    (h : dir.Enumerates entries) (htmp : ∀ name ∈ dir.tmpChunks, TmpNamed name) :
    (entries.filterMap declaredEntry).Perm
      ((dir.chunkFiles.entries.map Prod.fst).filterMap declaredEntry) := by
  obtain ⟨side, hside, hperm⟩ := h
  -- temporary chunks and side files have no range in their names
  have htmpNone : dir.tmpChunks.filterMap declaredEntry = [] := by
    apply List.filterMap_eq_nil_iff.2
    intro name hname
    obtain ⟨firstVersion, pid, rfl⟩ := htmp name hname
    simp [declaredEntry, rawChunkVersionRange_tmpChunkName]
  have hsideNone : side.filterMap declaredEntry = [] := by
    apply List.filterMap_eq_nil_iff.2
    intro name hname
    simp [declaredEntry, (hside name hname).rawChunkVersionRange]
  have hall := hperm.filterMap declaredEntry
  rw [List.filterMap_append, List.filterMap_append, htmpNone, hsideNone, List.append_nil,
    List.append_nil] at hall
  exact hall

namespace Ledger

variable {ledger : Ledger} {dir : OutDir} {entries : List Text}

/-- The order of the entries does not matter. -/
theorem OnDisk.inferFromEntries_eq (h : ledger.OnDisk dir) (hentries : dir.Enumerates entries)
    (htmp : ∀ name ∈ dir.tmpChunks, TmpNamed name) :
    inferFromEntries dir entries = inferRecordResumeStateFromChunks dir := by
  have hsorted : declaredRangesOf (dir.chunkFiles.entries.map Prod.fst) =
      ledger.files.map rangeOf := by
    unfold declaredRangesOf
    rw [List.filterMap_map]
    exact h.declaredRanges_eq
  have hperm : (entries.filterMap declaredEntry).Perm (ledger.files.map rangeOf) := by
    rw [← hsorted]
    exact (hentries.filterMap_declaredEntry htmp).trans (sortOn_perm _ _).symm
  -- the ranges are sorted, so the order of the directory does not matter
  have hranges : declaredRangesOf entries =
      declaredRangesOf (dir.chunkFiles.entries.map Prod.fst) := by
    rw [hsorted]
    exact sortOn_eq_of_perm hperm ledger.pairwise_rangeOf
  rw [← inferFromEntries_chunkFiles]
  unfold inferFromEntries
  rw [hranges]

end Ledger

/-! ## Temporary names -/

/-- A step creates no temporary chunk under another name. -/
def FsStep.TmpNamed : FsStep → Prop
  | .createTmpChunk tmp => HotIndex.TmpNamed ⟨tmp⟩
  | .writeTmpChunk _ _ | .renameChunk _ _ _ | .renameKeys _ _ | .replaceCheckpoint _ => True

/-- A session names its temporary chunks in one way. -/
theorem recordsFiles_tmpNamed (env : RecordEnv) : RecordsFiles env FsStep.TmpNamed where
  renameChunk := fun _ _ _ => trivial
  renameKeys := fun _ _ => trivial
  replaceCheckpoint := fun _ => trivial
  createTmpChunk := fun firstVersion => ⟨firstVersion, env.processId, rfl⟩
  writeTmpChunk := fun _ _ => trivial

theorem tmpNamed_of_steps {display : String} {steps : List FsStep}
    (h : ∀ step ∈ steps, step.TmpNamed) :
    ∀ name ∈ (Store.applyAll (OutDir.empty display) steps).tmpChunks, TmpNamed name := by
  induction steps using List.reverseRecOn with
  | nil => simp [OutDir.empty]
  | append_singleton steps step ih =>
    have ih := ih (fun step hstep => h step (List.mem_append_left _ hstep))
    -- a rename only takes temporary names away
    rw [Store.applyAll_append, Store.applyAll_singleton]
    cases step with
    | createTmpChunk tmp =>
      intro name hname
      rcases List.mem_append.1 hname with hname | hname
      · exact ih name (List.mem_filter.1 hname).1
      · rw [List.mem_singleton.1 hname]
        exact h (.createTmpChunk tmp) (by simp)
    | writeTmpChunk tmp transaction => exact ih
    | renameChunk tmp final txs =>
      intro name hname
      exact ih name (List.mem_filter.1 hname).1
    | renameKeys final versions => exact ih
    | replaceCheckpoint checkpoint => exact ih

/-! ## Rejection -/

/-- The versions that the names of the entries declare. -/
def declaredVersions (entries : List Text) : List (Nat × Nat) :=
  (entries.filterMap declaredEntry).map (fun range => (range.1.toNat, range.2.1.toNat))

/-- Chunks that the check accepts tile the versions from the first on. -/
theorem tiles_of_validateDeclared {dir : OutDir} {ranges : List (UInt64 × UInt64 × Text)}
    {previousLast : Option UInt64}
    (hranges : ∀ range ∈ ranges, declaredEntry range.2.2 = some range)
    (h : validateDeclaredFrom true true previousLast
      (ranges.map (fun range => dir.namedChunk range.2.2)) = .ok ()) :
    ∃ start stop, Tiles start (ranges.map (fun range => (range.1.toNat, range.2.1.toNat))) stop ∧
      ∀ p ∈ previousLast, start = p.toNat + 1 := by
  induction ranges generalizing previousLast with
  | nil =>
    cases previousLast with
    | none => exact ⟨0, 0, .nil 0, nofun⟩
    | some p => exact ⟨p.toNat + 1, p.toNat + 1, .nil _, by simp⟩
  | cons range rest ih =>
    obtain ⟨first, last, name⟩ := range
    have hdeclared : (dir.namedChunk name).declaredRange = some (first, last) := by
      have hname := hranges _ List.mem_cons_self
      simp only [declaredEntry, Option.map_eq_some_iff, Prod.mk.injEq] at hname
      obtain ⟨⟨first', last'⟩, hrange, rfl, rfl, -⟩ := hname
      exact hrange
    rw [List.map_cons, validateDeclaredFrom, hdeclared] at h
    simp only at h
    split_ifs at h with hle
    obtain ⟨⟨⟩, hfollows, hrest⟩ := bind_eq_ok_iff.1 h
    obtain ⟨start, stop, htiles, hstart⟩ :=
      ih (fun range hmem => hranges range (List.mem_cons_of_mem _ hmem)) hrest
    -- the next chunk starts behind this one, so this one can be put in front of the tiling
    obtain rfl := hstart last rfl
    rw [gt_iff_lt, not_lt, UInt64.le_iff_toNat_le] at hle
    refine ⟨first.toNat, stop, .cons hle htiles, ?_⟩
    intro p hp
    rw [Option.mem_def.1 hp, checkFollows, bind_eq_ok_iff] at hfollows
    obtain ⟨expected, hexpected, hfirst⟩ := hfollows
    split_ifs at hfirst with hne
    rw [not_not.1 hne, checkedNextVersion_eq_ok_iff.1 hexpected]

/-- Names that inference accepts declare each version between them once. -/
theorem gapless_of_inferFromEntries {dir : OutDir} {entries : List Text}
    {found : Option RecordResumeState} (h : inferFromEntries dir entries = .ok found) :
    ¬ LeavesGap (declaredVersions entries) ∧ ¬ Overlaps (declaredVersions entries) := by
  have hperm : (declaredRangesOf entries).Perm (entries.filterMap declaredEntry) :=
    sortOn_perm _ _
  have hversions := hperm.map (fun range => (range.1.toNat, range.2.1.toNat))
  obtain ⟨start, stop, htiles⟩ : ∃ start stop, Tiles start ((declaredRangesOf entries).map
      (fun range => (range.1.toNat, range.2.1.toNat))) stop := by
    unfold inferFromEntries at h
    dsimp only at h
    split at h
    · next hmax =>
      rw [List.max?_eq_none_iff, List.map_eq_nil_iff] at hmax
      rw [hmax]
      exact ⟨0, 0, .nil 0⟩
    · obtain ⟨⟨⟩, hvalid, -⟩ := bind_eq_ok_iff.1 h
      -- each range is the one that its own name declares
      have hranges : ∀ range ∈ declaredRangesOf entries,
          declaredEntry range.2.2 = some range := by
        intro range hmem
        obtain ⟨name, -, hname⟩ := List.mem_filterMap.1 (hperm.mem_iff.1 hmem)
        have hsame : range.2.2 = name := by
          simp only [declaredEntry, Option.map_eq_some_iff] at hname
          obtain ⟨_, -, rfl⟩ := hname
          rfl
        rw [hsame, hname]
      obtain ⟨start, stop, htiles, -⟩ := tiles_of_validateDeclared hranges hvalid
      exact ⟨start, stop, htiles⟩
  exact ⟨fun hgap => htiles.not_leavesGap (hgap.perm hversions.symm),
    fun hoverlap => htiles.not_overlaps (hoverlap.perm hversions.symm)⟩

/-! ## Agreement -/

/-- The steps of sessions on a new directory, of the kind that `may` take place there, which are
cut off at points that keep the cursor. -/
inductive RecordedSteps (may : RecordOptions → OutDir → Prop) (display : String) :
    List FsStep → Prop
  | nil : RecordedSteps may display []
  | session {env : RecordEnv} {server : TransactionServer} {opts : RecordOptions}
      {steps taken : List FsStep} (hsteps : RecordedSteps may display steps)
      (hserver : server.Consecutive)
      (hmode : may opts (Store.applyAll (.empty display) steps))
      (htaken : taken <+:
        (recordCommand env server opts (Store.applyAll (.empty display) steps)).steps)
      (hcrash : CrashKeepsCursor (Store.applyAll (.empty display) steps) taken) :
      RecordedSteps may display (steps ++ taken)

namespace RecordedSteps

variable {may : RecordOptions → OutDir → Prop} {display : String} {steps : List FsStep}

/-- **The invariant of the steps**, by induction on the sessions: the directory represents an
archive, and lists all of it if no session leaves out what it finds. -/
theorem settled (h : RecordedSteps may display steps)
    (hfollows : ∀ opts dir, may opts dir → opts.Follows dir) :
    ∃ ledger : Ledger, ledger.Settled (Store.applyAll (.empty display) steps) ∧
      ((∀ opts dir, may opts dir → opts.KeepsList dir) → ledger.older = []) := by
  induction h with
  | nil => exact ⟨_, Ledger.settled_empty 0 display, fun _ => rfl⟩
  -- the session was cut off with some ledger in force, which its crash settles
  | session hsteps hserver hmode htaken hcrash ih =>
    obtain ⟨ledger, hsettled, holder⟩ := ih
    obtain ⟨base, ledger', hkeeps, hconsistent⟩ :=
      session_consistent hsettled hserver (hfollows _ _ hmode) htaken
    obtain ⟨settled, hsettled', -, hlisted⟩ := hconsistent.settled_of_crash hcrash
    rw [Store.applyAll_append]
    refine ⟨settled, hsettled', fun hall => hlisted ?_⟩
    rw [hconsistent.extends_.older]
    exact hkeeps.older (hall _ _ hmode) (holder hall)

theorem tmpNamed (h : RecordedSteps may display steps) : ∀ step ∈ steps, step.TmpNamed := by
  induction h with
  | nil => simp
  | session hsteps hserver hmode htaken hcrash ih =>
    intro step hstep
    rcases List.mem_append.1 hstep with hstep | hstep
    · exact ih step hstep
    · exact takes_recordCommand _ _ (recordsFiles_tmpNamed _) _ _ step (htaken.subset hstep)

end RecordedSteps

/-- A chunk without a checkpoint is one whose rename is pending. -/
theorem checkpoint_ne_none_of_finished {display : String} {steps : List FsStep}
    (hfinished : pendingRename steps = false)
    (hchunks : (Store.applyAll (OutDir.empty display) steps).chunkFiles.entries ≠ []) :
    (Store.applyAll (OutDir.empty display) steps).checkpoint ≠ none := by
  induction steps using List.reverseRecOn with
  | nil => exact absurd rfl hchunks
  | append_singleton steps step ih =>
    rw [Store.applyAll_append, Store.applyAll_singleton] at hchunks ⊢
    cases step with
    | createTmpChunk tmp =>
      rw [pendingRename_createTmpChunk] at hfinished
      exact ih hfinished hchunks
    | writeTmpChunk tmp transaction =>
      rw [pendingRename_writeTmpChunk] at hfinished
      exact ih hfinished hchunks
    -- a rename asks for a checkpoint, so it is not the last step
    | renameChunk tmp final txs =>
      rw [pendingRename_renameChunk] at hfinished
      cases hfinished
    | renameKeys final versions =>
      rw [pendingRename_renameKeys] at hfinished
      exact ih hfinished hchunks
    | replaceCheckpoint checkpoint => exact Option.some_ne_none checkpoint

/-- What the name of a chunk tells of it. -/
def ChunkRecord.extent (record : ChunkRecord) : String × UInt64 × UInt64 × UInt64 :=
  (record.path, record.firstVersion, record.lastVersion, record.transactionCount)

theorem ChunkRecord.Of.extent_eq {record record' : ChunkRecord} {txs : List Transaction}
    (h : record.Of txs) (h' : record'.Of txs) : record.extent = record'.extent := by
  unfold ChunkRecord.extent
  rw [h.path, h.firstVersion, h.lastVersion, h'.path, h'.firstVersion, h'.lastVersion,
    UInt64.toNat_inj.1 (h.transactionCount.trans h'.transactionCount.symm)]

/-- The state has the cursor of the checkpoint, and its chunks in the same order behind what
else there is. -/
structure RecordResumeState.EndsWith (state : RecordResumeState)
    (checkpoint : RecordCheckpoint) : Prop where
  lastSuccessVersion : state.lastSuccessVersion = checkpoint.lastSuccessVersion
  nextStartVersion : state.nextStartVersion = checkpoint.nextStartVersion
  chunks : checkpoint.chunks.map ChunkRecord.extent <:+ state.chunks.map ChunkRecord.extent

/-- The state has the cursor of the checkpoint, and its chunks in the same order. -/
structure RecordResumeState.AgreesWith (state : RecordResumeState)
    (checkpoint : RecordCheckpoint) : Prop where
  lastSuccessVersion : state.lastSuccessVersion = checkpoint.lastSuccessVersion
  nextStartVersion : state.nextStartVersion = checkpoint.nextStartVersion
  chunks : state.chunks.map ChunkRecord.extent = checkpoint.chunks.map ChunkRecord.extent

/-- The directory has a checkpoint, and in whatever order it is enumerated, the names of its
chunks lead to a state that relates to the checkpoint in this way. -/
def OutDir.Infers (dir : OutDir) (relates : RecordResumeState → RecordCheckpoint → Prop) : Prop :=
  ∃ checkpoint, dir.checkpoint = some checkpoint ∧
    ∀ entries, dir.Enumerates entries →
      ∃ state, inferFromEntries dir entries = .ok (some state) ∧ relates state checkpoint

theorem OutDir.Infers.imp {dir : OutDir}
    {relates relates' : RecordResumeState → RecordCheckpoint → Prop} (h : dir.Infers relates)
    (himp : ∀ state checkpoint, relates state checkpoint → relates' state checkpoint) :
    dir.Infers relates' := by
  obtain ⟨checkpoint, hcheckpoint, hentries⟩ := h
  refine ⟨checkpoint, hcheckpoint, fun entries hperm => ?_⟩
  obtain ⟨state, hinfer, hrelates⟩ := hentries entries hperm
  exact ⟨state, hinfer, himp _ _ hrelates⟩

namespace Ledger

variable {ledger : Ledger}

/-- Two lists of records of the same chunks. -/
theorem map_extent_eq {records records' : List ChunkRecord} {chunks : List (List Transaction)}
    (h : List.Forall₂ ChunkRecord.Of records chunks)
    (h' : List.Forall₂ ChunkRecord.Of records' chunks) :
    records.map ChunkRecord.extent = records'.map ChunkRecord.extent := by
  induction h generalizing records' with
  | nil =>
    cases h'
    rfl
  | cons hrecord _ ih =>
    cases h' with
    | cons hrecord' hrest' =>
      rw [List.map_cons, List.map_cons, hrecord.extent_eq hrecord', ih hrest']

/-- A number is told by the number behind it. -/
theorem eq_of_map_succ_eq {a b : Option UInt64}
    (h : a.map (fun last => last.toNat + 1) = b.map (fun last => last.toNat + 1)) : a = b := by
  refine Option.map_injective (fun m n hmn => ?_) h
  exact UInt64.toNat_inj.1 (Nat.succ_injective hmn)

/-- The names of an archive on disk say what its checkpoint lists, and what is older. -/
theorem Settled.infer_endsWith {dir : OutDir} {checkpoint : RecordCheckpoint}
    (h : ledger.Settled dir) (hne : ledger.files ≠ [])
    (hcheckpoint : checkpoint ∈ dir.checkpoint) :
    ∃ state, inferRecordResumeStateFromChunks dir = .ok (some state) ∧
      state.EndsWith checkpoint ∧ (ledger.older = [] → state.AgreesWith checkpoint) := by
  have hlists := h.lists checkpoint hcheckpoint
  obtain ⟨cursor, hcursor, hcursorNat⟩ := Option.map_eq_some_iff.1 hlists.nextStartVersion
  -- the checkpoint has a cursor, so a version follows the archive
  have hsize : ledger.next < UInt64.size := by
    rw [← hcursorNat]
    exact cursor.toNat_lt
  obtain ⟨last, next, records, hinfer, hlast, hnext, hrecords⟩ := h.onDisk.infer_ok hne hsize
  have hlastSame : some last = checkpoint.lastSuccessVersion := by
    apply eq_of_map_succ_eq
    rw [hlists.lastSuccessVersion hne, ← hlast]
    rfl
  have hnextSame : some next = checkpoint.nextStartVersion := by
    rw [hcursor, UInt64.toNat_inj.1 (hnext.trans hcursorNat.symm)]
  -- behind the records of the older chunks are those that the checkpoint lists
  have hdrop : List.Forall₂ ChunkRecord.Of (records.drop ledger.older.length) ledger.chunks :=
    List.forall₂_drop_append records ledger.older ledger.chunks hrecords
  have hextents := map_extent_eq hdrop hlists.chunks
  refine ⟨_, hinfer, ⟨hlastSame, hnextSame, ?_⟩, fun holder => ⟨hlastSame, hnextSame, ?_⟩⟩
  · rw [← hextents]
    exact (List.drop_suffix _ _).map _
  · rw [← hextents, holder]
    rfl

end Ledger

/-- Behind finished steps there is a checkpoint to compare with. -/
theorem RecordedSteps.infers {may : RecordOptions → OutDir → Prop} {display : String}
    {steps : List FsStep} (hsteps : RecordedSteps may display steps)
    (hfollows : ∀ opts dir, may opts dir → opts.Follows dir)
    (hfinished : pendingRename steps = false)
    (hchunks : (Store.applyAll (OutDir.empty display) steps).chunkFiles.entries ≠ []) :
    (Store.applyAll (OutDir.empty display) steps).Infers (fun state checkpoint =>
      state.EndsWith checkpoint ∧
        ((∀ opts dir, may opts dir → opts.KeepsList dir) → state.AgreesWith checkpoint)) := by
  obtain ⟨ledger, hsettled, holder⟩ := hsteps.settled hfollows
  -- no step is pending, so there is a checkpoint behind the last chunk
  obtain ⟨checkpoint, hcheckpoint⟩ :=
    Option.ne_none_iff_exists'.1 (checkpoint_ne_none_of_finished hfinished hchunks)
  have hne : ledger.files ≠ [] :=
    fun hnil => hchunks (hsettled.onDisk.files_eq_nil_iff.2 hnil)
  refine ⟨checkpoint, hcheckpoint, fun entries hentries => ?_⟩
  rw [hsettled.onDisk.inferFromEntries_eq hentries (tmpNamed_of_steps hsteps.tmpNamed)]
  obtain ⟨state, hinfer, hends, hagrees⟩ := hsettled.infer_endsWith hne hcheckpoint
  exact ⟨state, hinfer, hends, fun hall => hagrees (holder hall)⟩

/-- **Two accounts of one archive.** Behind any steps of recorder sessions over consecutive
versions of which none is left unfinished, the names of the completed chunks lead to the
cursor of the checkpoint and to a list of chunks that ends with those of the checkpoint, in
whatever order the directory is enumerated. If each session resumes, only plans, or finds no
chunks, the two lists are the same. In any directory, names that leave a gap between them or
overlap lead to an error. -/
theorem inference_agrees :
    (∀ (display : String) (steps : List FsStep),
      RecordedSteps RecordOptions.Follows display steps → pendingRename steps = false →
      (Store.applyAll (OutDir.empty display) steps).chunkFiles.entries ≠ [] →
      (Store.applyAll (OutDir.empty display) steps).Infers RecordResumeState.EndsWith) ∧
    (∀ (display : String) (steps : List FsStep),
      RecordedSteps RecordOptions.KeepsList display steps → pendingRename steps = false →
      (Store.applyAll (OutDir.empty display) steps).chunkFiles.entries ≠ [] →
      (Store.applyAll (OutDir.empty display) steps).Infers RecordResumeState.AgreesWith) ∧
    ∀ (dir : OutDir) (entries : List Text),
      LeavesGap (declaredVersions entries) ∨ Overlaps (declaredVersions entries) →
        ∃ error, inferFromEntries dir entries = .error error := by
  refine ⟨?_, ?_, ?_⟩
  · intro display steps hsteps hfinished hchunks
    exact (hsteps.infers (fun _ _ => id) hfinished hchunks).imp (fun _ _ h => h.1)
  · intro display steps hsteps hfinished hchunks
    have hinfers := hsteps.infers (fun _ _ => RecordOptions.KeepsList.follows) hfinished hchunks
    exact hinfers.imp (fun _ _ h => h.2 (fun _ _ => id))
  · intro dir entries hbad
    cases hinfer : inferFromEntries dir entries with
    | error error => exact ⟨error, rfl⟩
    -- what is inferred has been checked for gaps and overlaps
    | ok found =>
      obtain ⟨hgap, hoverlap⟩ := gapless_of_inferFromEntries hinfer
      exact absurd hbad (not_or.2 ⟨hgap, hoverlap⟩)

/-- A session that records versions 7 to 10 into a new directory, one a chunk. -/
def firstSession : List FsStep :=
  (recordCommand sampleEnv shortServer (crashOptions false) (.empty "raw")).steps

/-- Versions 11 and 12: from the cursor on, but without `--resume`. -/
def freshOptions : RecordOptions := { crashOptions false with startVersion := some 11 }

/-- A session without `--resume` behind the chunks of the first one. -/
def freshSteps : List FsStep :=
  firstSession ++ (recordCommand sampleEnv shortServer freshOptions
    (Store.applyAll (.empty "raw") firstSession)).steps

/-- The first session ends behind the rename of its first chunk, before there is a checkpoint;
a second one resumes from the names. -/
def resumedSteps : List FsStep :=
  firstSession.take 3 ++ (recordCommand sampleEnv shortServer (crashOptions true)
    (Store.applyAll (.empty "raw") (firstSession.take 3))).steps

/-- Version 9 is missing. -/
def gapEntries : List Text :=
  [⟨"transactions_10_12.pb.zst"⟩, ⟨"record_checkpoint.json"⟩, ⟨"transactions_7_8.pb.zst"⟩]

theorem recordedSteps_fresh : RecordedSteps RecordOptions.Follows "raw" freshSteps := by
  have hfirst : RecordedSteps RecordOptions.Follows "raw" ([] ++ firstSession) :=
    .session .nil shortServer_consecutive (.inr rfl) (List.prefix_refl _)
      (fun hpending => absurd hpending (by decide +kernel))
  refine .session hfirst shortServer_consecutive (.inl (.inr (.inr ?_))) (List.prefix_refl _)
    (fun hpending => absurd hpending (by decide +kernel))
  -- the checkpoint of the first session points to version 11
  have hcursor : (loadRecordResumeState (Store.applyAll (.empty "raw") firstSession)).toOption.map
      RecordResumeState.nextStartVersion = some (some 11) := by decide +kernel
  intro state cursor hload hnext
  rw [hload] at hcursor
  exact Option.some.inj ((Option.some.inj hcursor).symm.trans hnext)

theorem recordedSteps_resumed : RecordedSteps RecordOptions.KeepsList "raw" resumedSteps := by
  have hfirst : RecordedSteps RecordOptions.KeepsList "raw" ([] ++ firstSession.take 3) :=
    .session .nil shortServer_consecutive (.inr (.inr rfl)) (List.take_prefix 3 _) (fun _ => rfl)
  exact .session hfirst shortServer_consecutive (.inl rfl) (List.prefix_refl _)
    (fun hpending => absurd hpending (by decide +kernel))

/-- Two lists that are not the same: the checkpoint of the second session leaves out the four
chunks of the first, the names do not. -/
theorem fresh_session_hides_chunks_shortServer :
    RecordedSteps RecordOptions.Follows "raw" freshSteps ∧ pendingRename freshSteps = false ∧
      (Store.applyAll (OutDir.empty "raw") freshSteps).chunkFiles.entries.length = 6 ∧
      (Store.applyAll (OutDir.empty "raw") freshSteps).checkpoint.map
          (fun checkpoint => checkpoint.chunks.map ChunkRecord.path) =
        some ["transactions_11_11.pb.zst", "transactions_12_12.pb.zst"] ∧
      ¬ (Store.applyAll (OutDir.empty "raw") freshSteps).Infers RecordResumeState.AgreesWith := by
  have hpaths : (Store.applyAll (OutDir.empty "raw") freshSteps).checkpoint.map
      (fun checkpoint => checkpoint.chunks.map ChunkRecord.path) =
        some ["transactions_11_11.pb.zst", "transactions_12_12.pb.zst"] := by decide +kernel
  -- the chunk files alone, in the order of their names, are one way to enumerate
  set dir := Store.applyAll (OutDir.empty "raw") freshSteps with hdir
  set entries := dir.chunkFiles.entries.map Prod.fst ++ dir.tmpChunks ++ [] with hentries
  have hinferred : (inferFromEntries dir entries).toOption.map
      (fun found => found.map (fun state => state.chunks.length)) = some (some 6) := by
    rw [hentries, hdir]
    decide +kernel
  refine ⟨recordedSteps_fresh, by decide +kernel, by rw [hdir]; decide +kernel, hpaths, ?_⟩
  rintro ⟨checkpoint, hcheckpoint, hall⟩
  obtain ⟨state, hinfer, hagrees⟩ := hall entries ⟨[], nofun, List.Perm.refl _⟩
  -- six chunks are inferred and two are listed
  have hlengths := congrArg List.length hagrees.chunks
  rw [List.length_map, List.length_map] at hlengths
  rw [hinfer] at hinferred
  rw [hcheckpoint] at hpaths
  have hlisted := congrArg List.length (Option.some.inj hpaths)
  have hfound : state.chunks.length = 6 := Option.some.inj (Option.some.inj hinferred)
  rw [List.length_map] at hlisted
  rw [hfound, hlisted] at hlengths
  cases hlengths

theorem inference_agrees_shortServer :
    (Store.applyAll (OutDir.empty "raw") freshSteps).Infers RecordResumeState.EndsWith ∧
      (Store.applyAll (OutDir.empty "raw") resumedSteps).Infers RecordResumeState.AgreesWith ∧
      ∃ error, inferFromEntries (.empty "raw") gapEntries = .error error := by
  have hfresh : (Store.applyAll (OutDir.empty "raw") freshSteps).chunkFiles.entries ≠ [] := by
    apply List.ne_nil_of_length_pos
    decide +kernel
  have hresumed : (Store.applyAll (OutDir.empty "raw") resumedSteps).chunkFiles.entries ≠ [] := by
    apply List.ne_nil_of_length_pos
    decide +kernel
  have hranges : declaredVersions gapEntries = [(10, 12), (7, 8)] := by decide +kernel
  refine ⟨?_, ?_, ?_⟩
  · -- the second session does not resume, and lists only its own chunks
    exact inference_agrees.1 "raw" freshSteps recordedSteps_fresh (by decide +kernel) hfresh
  · -- the second session resumes, and lists what the first one left as well
    exact inference_agrees.2.1 "raw" resumedSteps recordedSteps_resumed (by decide +kernel)
      hresumed
  · -- a gap between the two names
    apply inference_agrees.2.2
    rw [hranges]
    exact .inl ⟨9, by simp [InRange], by simp, by simp⟩

end HotIndex
