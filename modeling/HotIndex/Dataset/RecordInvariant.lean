import HotIndex.Dataset.RecordResume

/-!
# What a Recorder Run Preserves

Every step of a run leaves the directory consistent with a ledger: the chunk files are
those of the ledger, and the checkpoint lists the last of them, except that between the rename
of a chunk and the next checkpoint it lags behind (`Ledger.Consistent`). One lemma for each part
of the recorder says what the part adds to the ledger; all ways to close a chunk, the flush
of a full one, the end of the stream, its failure and the byte limit, go through
`finishActiveChunk_runs` and `writeRecordCheckpoint_runs`.
-/

namespace HotIndex

open Lib

/-! ## Cut points -/

/-- A chunk was renamed and no checkpoint was written since. -/
def pendingRename (taken : List FsStep) : Bool :=
  taken.foldl (fun pending step =>
    match step with
    | .renameChunk _ _ _ => true
    | .replaceCheckpoint _ => false
    | .createTmpChunk _ | .writeTmpChunk _ _ | .renameKeys _ _ => pending) false

@[simp] theorem pendingRename_nil : pendingRename [] = false := rfl

@[simp] theorem pendingRename_createTmpChunk (taken : List FsStep) (tmp : String) :
    pendingRename (taken ++ [.createTmpChunk tmp]) = pendingRename taken := by
  simp [pendingRename]

@[simp] theorem pendingRename_writeTmpChunk (taken : List FsStep) (tmp : String)
    (transaction : Transaction) :
    pendingRename (taken ++ [.writeTmpChunk tmp transaction]) = pendingRename taken := by
  simp [pendingRename]

@[simp] theorem pendingRename_renameChunk (taken : List FsStep) (tmp final : String)
    (txs : List Transaction) : pendingRename (taken ++ [.renameChunk tmp final txs]) = true := by
  simp [pendingRename]

@[simp] theorem pendingRename_renameKeys (taken : List FsStep) (final : String)
    (versions : List UInt64) :
    pendingRename (taken ++ [.renameKeys final versions]) = pendingRename taken := by
  simp [pendingRename]

@[simp] theorem pendingRename_replaceCheckpoint (taken : List FsStep)
    (checkpoint : RecordCheckpoint) :
    pendingRename (taken ++ [.replaceCheckpoint checkpoint]) = false := by
  simp [pendingRename]

/-- Where a session starts: the archive that it goes on with, and the cursor of the checkpoint
that it finds. -/
structure SessionStart where
  archive : Ledger
  cursor : Nat

/-- A point of a run: the chunk files are those of a ledger that extends the archive of the
start, and the checkpoint lists the last of them, or fewer while a rename is pending. -/
structure Ledger.Consistent (ledger : Ledger) (base : SessionStart)
    (point : Traced OutDir FsStep) : Prop where
  extends_ : ledger.Extends base.archive
  onDisk : ledger.OnDisk point.store
  /-- A session that does not resume may have listed no chunk of its own yet -/
  lists : pendingRename point.taken = false →
    ∀ checkpoint ∈ point.store.checkpoint, ∃ listed : Ledger, listed.files = ledger.files ∧
      listed.Lists checkpoint ∧ (ledger.older = [] → listed.older = []) ∧
      (listed.next = ledger.next ∨ listed.next = base.cursor)
  behind : pendingRename point.taken = true → base.archive.next < ledger.next ∧
    ∀ checkpoint ∈ point.store.checkpoint, ∃ earlier : Ledger, earlier.Lists checkpoint ∧
      (earlier.next < ledger.next ∨ earlier.next = base.cursor)

namespace Ledger.Consistent

variable {ledger : Ledger} {base : SessionStart} {point : Traced OutDir FsStep}

/-- A step that touches neither the chunk files nor the checkpoint. -/
theorem keep (h : ledger.Consistent base point) {step : FsStep}
    (hfiles : (point.store.apply step).chunkFiles = point.store.chunkFiles)
    (hcheckpoint : (point.store.apply step).checkpoint = point.store.checkpoint)
    (hpending : pendingRename (point.taken ++ [step]) = pendingRename point.taken) :
    ledger.Consistent base (point.after [step]) where
  -- neither the chunk files nor the checkpoint have changed
  extends_ := h.extends_
  onDisk := by
    show (point.store.apply step).chunkFiles.entries.Perm _
    rw [hfiles]
    exact h.onDisk
  lists := by
    rw [Traced.taken_after, hpending]
    show _ → ∀ checkpoint ∈ (point.store.apply step).checkpoint, _
    rw [hcheckpoint]
    exact h.lists
  behind := by
    rw [Traced.taken_after, hpending]
    show _ → _ ∧ ∀ checkpoint ∈ (point.store.apply step).checkpoint, _
    rw [hcheckpoint]
    exact h.behind

theorem createTmpChunk (h : ledger.Consistent base point) (tmp : String) :
    ledger.Consistent base (point.after [.createTmpChunk tmp]) :=
  h.keep rfl rfl (pendingRename_createTmpChunk _ _)

theorem writeTmpChunk (h : ledger.Consistent base point) (tmp : String)
    (transaction : Transaction) :
    ledger.Consistent base (point.after [.writeTmpChunk tmp transaction]) :=
  h.keep rfl rfl (pendingRename_writeTmpChunk _ _ _)

theorem renameKeys (h : ledger.Consistent base point) (final : String)
    (versions : List UInt64) :
    ledger.Consistent base (point.after [.renameKeys final versions]) :=
  h.keep rfl rfl (pendingRename_renameKeys _ _ _)

/-- A renamed chunk extends the ledger, and the checkpoint falls behind. -/
theorem renameChunk (h : ledger.Consistent base point) {txs : List Transaction}
    (hne : txs ≠ []) (hnext : ConsecutiveFrom ledger.next (versionsOf txs)) (tmp : String) :
    (ledger.concat txs hne hnext).Consistent base (point.after [.renameChunk tmp
      (chunkFileName (firstVersionOf txs) (lastVersionOf txs)) txs]) where
  extends_ := h.extends_.concat txs hne hnext
  onDisk := h.onDisk.renameChunk hne hnext tmp
  lists := by simp
  -- until the next checkpoint, the cursor is behind the new chunk
  behind := by
    intro _
    have hpos := List.length_pos_iff.2 hne
    have hextends := h.extends_.next_le
    rw [next_concat]
    refine ⟨by omega, fun checkpoint hcheckpoint => ?_⟩
    have hcheckpoint : checkpoint ∈ point.store.checkpoint := hcheckpoint
    -- a chunk may also come behind another one that no checkpoint lists yet
    cases hpending : pendingRename point.taken with
    | false =>
      obtain ⟨listed, -, hlists, -, hnext | hcursor⟩ := h.lists hpending checkpoint hcheckpoint
      · exact ⟨listed, hlists, .inl (by omega)⟩
      · exact ⟨listed, hlists, .inr hcursor⟩
    | true =>
      obtain ⟨earlier, hlists, hlt | hcursor⟩ := (h.behind hpending).2 checkpoint hcheckpoint
      · exact ⟨earlier, hlists, .inl (by omega)⟩
      · exact ⟨earlier, hlists, .inr hcursor⟩

/-- A checkpoint that lists the ledger catches up. -/
theorem replaceCheckpoint (h : ledger.Consistent base point) {checkpoint : RecordCheckpoint}
    (hlists : ledger.Lists checkpoint) :
    ledger.Consistent base (point.after [.replaceCheckpoint checkpoint]) where
  extends_ := h.extends_
  onDisk := h.onDisk
  lists := by
    intro _ other hother
    obtain rfl : checkpoint = other := Option.some.inj hother
    exact ⟨ledger, rfl, hlists, id, .inl rfl⟩
  behind := by simp

end Ledger.Consistent

/-- What every step of a live run satisfies: a renamed chunk holds no version of the archive
that the run started with, and a checkpoint lists chunks of an archive with the same start. -/
def StepOk (base : SessionStart) : FsStep → Prop
  | .renameChunk _ _ txs => ∀ tx ∈ txs, base.archive.next ≤ tx.version.toNat
  | .replaceCheckpoint checkpoint =>
    ∃ ledger : Ledger, ledger.Extends base.archive ∧ ledger.chunks ≠ [] ∧
      ledger.Lists checkpoint
  | .createTmpChunk _ | .writeTmpChunk _ _ | .renameKeys _ _ => True

/-- What holds at every point where a live run can be cut off. -/
structure RecordCut (base : SessionStart) (point : Traced OutDir FsStep) : Prop where
  consistent : ∃ ledger : Ledger, ledger.Consistent base point
  steps : ∀ step ∈ point.taken, StepOk base step

theorem RecordCut.step {base : SessionStart} {ledger : Ledger} {point : Traced OutDir FsStep}
    {step : FsStep}
    (hcut : RecordCut base point)
    (hconsistent : ledger.Consistent base (point.after [step]))
    (hstep : StepOk base step) : RecordCut base (point.after [step]) := by
  refine ⟨⟨ledger, hconsistent⟩, fun other hother => ?_⟩
  rw [Traced.taken_after] at hother
  -- only the new step has to be looked at
  rcases List.mem_append.1 hother with hother | hother
  · exact hcut.steps other hother
  · exact List.mem_singleton.1 hother ▸ hstep

/-- A run never refuses to overwrite a chunk. -/
def NotRefused (error : RecordError) : Prop := ∀ path, error ≠ .refuseChunk path

theorem lift_notRefused {α : Type} {x : Except HotIndexError α} (error : RecordError)
    (h : x.mapError RecordError.other = .error error) : NotRefused error := by
  cases x with
  | ok a => cases h
  | error e =>
    cases h
    exact fun path => nofun

theorem lift_ok {α : Type} {x : Except HotIndexError α} {a : α}
    (h : x.mapError RecordError.other = .ok a) : x = .ok a := by
  cases x with
  | ok b =>
    cases h
    rfl
  | error e => cases h

/-- A fallible computation beside the directory. -/
theorem RecordM.lift_bind {α β : Type} {base : SessionStart}
    {point : Traced OutDir FsStep} (hcut : RecordCut base point)
    {x : Except HotIndexError α} {f : α → RecordM β} {post : β → Traced OutDir FsStep → Prop}
    (h : ∀ a, x = .ok a → Runs (RecordCut base) NotRefused (f a) point post) :
    Runs (RecordCut base) NotRefused (RecordM.lift x >>= f) point post :=
  .ofExcept_bind hcut lift_notRefused (fun a ha => h a (lift_ok ha))

/-! ## Writing a checkpoint -/

theorem totalTransactionCount_ok {chunks : List ChunkRecord} {total : UInt64}
    (h : totalTransactionCount chunks = .ok total) :
    total.toNat = (chunks.map (fun chunk => chunk.transactionCount.toNat)).sum := by
  refine foldlM_induction (P := fun done acc =>
    acc.toNat = (done.map (fun chunk => chunk.transactionCount.toNat)).sum) h rfl ?_
  intro done chunk acc acc' _ hacc hstep
  -- each addition is checked, so none of them wraps
  split_ifs at hstep with hlt
  cases hstep
  rw [UInt64.toNat_add, Nat.mod_eq_of_lt hlt, hacc]
  simp

theorem Ledger.Recorded.sum_transactionCount {ledger : Ledger} {records : List ChunkRecord}
    (h : ledger.Recorded records) :
    (records.map (fun record => record.transactionCount.toNat)).sum =
      ledger.chunks.flatten.length := by
  -- record by record
  have hsum : ∀ {records : List ChunkRecord} {chunks : List (List Transaction)},
      List.Forall₂ ChunkRecord.Of records chunks →
      (records.map (fun record => record.transactionCount.toNat)).sum =
        chunks.flatten.length := by
    intro records chunks h
    induction h with
    | nil => rfl
    | cons hrecord _ ih =>
      rw [List.map_cons, List.sum_cons, ih, hrecord.transactionCount, List.flatten_cons,
        List.length_append]
  exact hsum h

section Record

variable {env : RecordEnv} {base : SessionStart} {ledger : Ledger} {request : LiveRecordRequest}
  {loop : RecordLoop} {point : Traced OutDir FsStep}

/-- A checkpoint that is written behind an archive lists it. -/
theorem writeRecordCheckpoint_runs (hcut : RecordCut base point)
    (hconsistent : ledger.Consistent base point) (hrecorded : ledger.Recorded loop.chunks)
    (hne : ledger.chunks ≠ []) {last : UInt64} (hlast : last.toNat + 1 = ledger.next)
    (status : RecordStatus) (message : String) (streamError : Option String) :
    Runs (RecordCut base) NotRefused
      (writeRecordCheckpoint request loop status message last streamError) point
      (fun _ next => ledger.Consistent base next ∧
        ∃ checkpoint, next.store.checkpoint = some checkpoint ∧ ledger.Lists checkpoint) := by
  unfold writeRecordCheckpoint
  refine RecordM.lift_bind hcut (fun total htotal => ?_)
  refine RecordM.lift_bind hcut (fun next hnext => ?_)
  -- cursor, last version and count are those of the ledger
  have hlists : ledger.Lists (liveCheckpoint request loop status message streamError total last
      next) := by
    refine ⟨hrecorded, ?_, fun _ => ?_, ?_⟩
    · show some next.toNat = _
      rw [checkedNextVersion_eq_ok_iff.1 hnext, hlast]
    · show some (last.toNat + 1) = _
      rw [hlast]
    · show total.toNat = _
      rw [totalTransactionCount_ok htotal, hrecorded.sum_transactionCount]
  have hafter := hconsistent.replaceCheckpoint hlists
  exact .perform hcut (hcut.step hafter ⟨ledger, hconsistent.extends_, hne, hlists⟩)
    ⟨hafter, _, rfl, hlists⟩

/-! ## Closing a chunk -/

/-- The active chunk holds the versions from `start` up to `reached`. -/
structure ActiveChunk.Holds (chunk : ActiveChunk) (start reached : Nat) : Prop where
  consecutive : ConsecutiveFrom start (versionsOf chunk.written)
  reached_eq : start + chunk.written.length = reached
  firstVersion : chunk.firstVersion.toNat = start
  lastVersion : chunk.lastVersion = chunk.written.getLast?.map Transaction.version
  transactionCount : chunk.transactionCount.toNat = chunk.written.length

/-- The chunks of the loop are those of the ledger, and with the active chunk they hold the
versions up to `reached`. -/
structure RecordLoop.Archives (loop : RecordLoop) (ledger : Ledger) (reached : Nat) : Prop where
  recorded : ledger.Recorded loop.chunks
  idle : loop.activeChunk = none → ledger.next = reached
  active : ∀ chunk ∈ loop.activeChunk, chunk.Holds ledger.next reached ∧ chunk.written ≠ []

/-- A chunk that follows the archive is not refused; its file becomes part of the archive. -/
theorem ActiveChunk.finish_runs {chunk : ActiveChunk} {records : List ChunkRecord} {reached : Nat}
    (hcut : RecordCut base point) (hconsistent : ledger.Consistent base point)
    (hrecorded : ledger.Recorded records) (hholds : chunk.Holds ledger.next reached)
    (hne : chunk.written ≠ []) :
    Runs (RecordCut base) NotRefused (chunk.finish env) point
      (fun record next => ∃ ledger' : Ledger, ledger'.Consistent base next ∧
        ledger'.Recorded (records ++ [record]) ∧ ledger'.next = reached) := by
  have hfirst : chunk.firstVersion = firstVersionOf chunk.written := by
    rw [← UInt64.toNat_inj, hholds.firstVersion, toNat_firstVersionOf hholds.consecutive hne]
  have hlast : chunk.lastVersion = some (lastVersionOf chunk.written) := by
    obtain ⟨init, tx, hwritten⟩ := List.eq_nil_or_concat chunk.written |>.resolve_left hne
    rw [hholds.lastVersion, hwritten]
    simp [lastVersionOf]
  have hafter := hconsistent.renameChunk hne hholds.consecutive chunk.tmpName
  have hrenamed : StepOk base (.renameChunk chunk.tmpName (chunkFileName
      (firstVersionOf chunk.written) (lastVersionOf chunk.written)) chunk.written) := by
    intro tx htx
    have hmem := (hholds.consecutive.mem_iff tx.version.toNat).1
      (List.mem_map.2 ⟨tx, htx, rfl⟩)
    exact hconsistent.extends_.next_le.trans hmem.1
  unfold ActiveChunk.finish
  simp only [hlast]
  refine .read_bind hcut ?_
  -- the archive ends where the chunk starts, so no file of it has this name
  have hfree : ¬ (point.store.chunkFiles.get? ⟨chunkFileName (firstVersionOf chunk.written)
      (lastVersionOf chunk.written)⟩).isSome := by
    rw [show point.store.chunkFiles.get? ⟨chunkFileName (firstVersionOf chunk.written)
      (lastVersionOf chunk.written)⟩ = none from hconsistent.onDisk.fresh hne hholds.consecutive]
    simp
  unfold ActiveChunk.rename
  simp only [hfirst, if_neg hfree]
  refine .perform_bind hcut (.pure (hcut.step hafter hrenamed) ?_)
  refine ⟨_, hafter, hrecorded.concat ⟨rfl, rfl, rfl, hholds.transactionCount⟩ hne _, ?_⟩
  rw [Ledger.next_concat, hholds.reached_eq]

/-- Closing the active chunk moves it into the ledger. -/
theorem finishActiveChunk_runs {reached : Nat} (hcut : RecordCut base point)
    (hconsistent : ledger.Consistent base point) (h : loop.Archives ledger reached) :
    Runs (RecordCut base) NotRefused (finishActiveChunk env loop) point
      (fun loop' next => ∃ ledger' : Ledger, ledger'.Consistent base next ∧
        ledger'.Recorded loop'.chunks ∧ ledger'.next = reached ∧
        loop' = { loop with activeChunk := none, chunks := loop'.chunks }) := by
  unfold finishActiveChunk
  cases hactive : loop.activeChunk with
  -- without an active chunk, everything is archived already
  | none =>
    refine .pure hcut ⟨ledger, hconsistent, h.recorded, h.idle hactive, ?_⟩
    rw [← hactive]
  | some chunk =>
    obtain ⟨hholds, hne⟩ := h.active chunk hactive
    refine (ActiveChunk.finish_runs hcut hconsistent h.recorded hholds hne).bind ?_
    rintro record next hcut' ⟨ledger', hconsistent', hrecorded', hreached⟩
    exact .pure hcut' ⟨ledger', hconsistent', hrecorded', hreached, rfl⟩

theorem finishKeys_runs (hcut : RecordCut base point)
    (hconsistent : ledger.Consistent base point) (last : UInt64) (dir : OutDir) :
    Runs (RecordCut base) NotRefused (finishKeys request loop last dir) point
      (fun _ next => ledger.Consistent base next) := by
  unfold finishKeys
  simp only
  split_ifs
  · -- a key file that exists is refused, which is no refusal of a chunk
    exact .fail hcut (fun path => nofun)
  · have hafter := hconsistent.renameKeys (keyFileName request.startVersion last)
      loop.keyVersions
    exact .perform hcut (hcut.step hafter trivial) hafter

/-! ## The loop -/

/-- What the loop notes about the transactions it consumed. -/
structure RecordLoop.Counts (loop : RecordLoop) (consumed : List Transaction) : Prop where
  lastVersion : loop.lastVersion = consumed.getLast?.map Transaction.version
  count : loop.count = UInt64.ofNat consumed.length

/-- Once a transaction was consumed, the last version is that of the last one. -/
theorem RecordLoop.Counts.lastVersion_getD {consumed : List Transaction}
    (h : loop.Counts consumed) (hcount : loop.count ≠ 0) (startVersion : UInt64) :
    consumed ≠ [] ∧ loop.lastVersion.getD startVersion = lastVersionOf consumed := by
  -- a count that is not zero has counted something
  have hne : consumed ≠ [] := by
    rintro rfl
    exact hcount h.count
  obtain ⟨init, tx, rfl⟩ := List.eq_nil_or_concat consumed |>.resolve_left hne
  refine ⟨hne, ?_⟩
  rw [h.lastVersion]
  simp [lastVersionOf]

/-- The state of the loop behind the transactions `consumed` of a stream: they are in the
ledger or in the active chunk, which is not full. -/
structure Recording (base : SessionStart) (ledger : Ledger) (request : LiveRecordRequest)
    (consumed : List Transaction) (loop : RecordLoop) (point : Traced OutDir FsStep) : Prop where
  consistent : ledger.Consistent base point
  archives : loop.Archives ledger (request.startVersion.toNat + consumed.length)
  room : ∀ chunk ∈ loop.activeChunk, chunk.transactionCount < request.chunkTransactionCount
  counts : loop.Counts consumed
  consecutive : ConsecutiveFrom request.startVersion.toNat (versionsOf consumed)
  next_le : base.archive.next ≤ request.startVersion.toNat

/-- An active chunk with the next transaction in it. -/
theorem ActiveChunk.Holds.push {chunk : ActiveChunk} {start reached : Nat}
    {tx : Transaction} (h : chunk.Holds start reached) (htx : tx.version.toNat = reached)
    (hroom : chunk.transactionCount.toNat + 1 < UInt64.size) :
    (chunk.push tx).Holds start (reached + 1) where
  consecutive := by
    show ConsecutiveFrom start (versionsOf (chunk.written ++ [tx]))
    rw [versionsOf_append, ConsecutiveFrom.append_iff, length_versionsOf]
    refine ⟨h.consecutive, ?_⟩
    rw [h.reached_eq, ← htx]
    exact ConsecutiveFrom.cons_iff.2 ⟨rfl, ConsecutiveFrom.nil _⟩
  reached_eq := by
    show start + (chunk.written ++ [tx]).length = _
    rw [List.length_append, List.length_singleton, ← Nat.add_assoc, h.reached_eq]
  firstVersion := h.firstVersion
  lastVersion := by
    show some tx.version = ((chunk.written ++ [tx]).getLast?).map _
    simp
  -- by `hroom` the counter does not wrap
  transactionCount := by
    show (chunk.transactionCount + 1).toNat = (chunk.written ++ [tx]).length
    rw [UInt64.toNat_add, List.length_append, List.length_singleton, ← h.transactionCount]
    exact Nat.mod_eq_of_lt hroom

/-- The active chunk is there, with room for a transaction, or is created at it. -/
theorem openActiveChunk_runs {consumed : List Transaction} {tx : Transaction}
    (hcut : RecordCut base point)
    (h : Recording base ledger request consumed loop point)
    (htx : tx.version.toNat = request.startVersion.toNat + consumed.length) :
    Runs (RecordCut base) NotRefused (openActiveChunk env loop tx.version) point
      (fun chunk next => ledger.Consistent base next ∧
        chunk.Holds ledger.next (request.startVersion.toNat + consumed.length) ∧
        chunk.transactionCount.toNat + 1 < UInt64.size) := by
  unfold openActiveChunk
  cases hactive : loop.activeChunk with
  | none =>
    -- a new chunk begins where the archive ends
    have hidle := h.archives.idle hactive
    have hafter := h.consistent.createTmpChunk (tmpChunkName tx.version env.processId)
    refine .perform_bind hcut (.pure (hcut.step hafter trivial) ⟨hafter, ⟨?_, ?_, ?_, ?_, ?_⟩, ?_⟩)
    · exact ConsecutiveFrom.nil _
    · exact hidle
    · rw [hidle]
      exact htx
    · rfl
    · rfl
    · show (0 : UInt64).toNat + 1 < UInt64.size
      decide
  | some chunk =>
    refine .pure hcut ⟨h.consistent, (h.archives.active chunk hactive).1, ?_⟩
    have hroom := UInt64.lt_iff_toNat_lt.1 (h.room chunk hactive)
    have hlimit := request.chunkTransactionCount.toNat_lt
    simp only [UInt64.size]
    omega

/-- A flush keeps the loop as it is but for the chunk it closes. -/
theorem flushFullChunk_runs {consumed : List Transaction} {tx : Transaction}
    {writer : ActiveChunk} (hcut : RecordCut base point)
    (hconsistent : ledger.Consistent base point)
    (harchives : loop.Archives ledger (request.startVersion.toNat + (consumed ++ [tx]).length))
    (hactive : loop.activeChunk = some writer) (hlast : loop.lastVersion = some tx.version)
    (hcount : loop.count = UInt64.ofNat (consumed ++ [tx]).length)
    (hconsecutive : ConsecutiveFrom request.startVersion.toNat (versionsOf (consumed ++ [tx])))
    (hstart : base.archive.next ≤ request.startVersion.toNat) :
    Runs (RecordCut base) NotRefused (flushFullChunk env request writer loop) point
      (fun loop' next => loop'.stoppedAtByteLimit = loop.stoppedAtByteLimit ∧
        ∃ ledger', Recording base ledger' request (consumed ++ [tx]) loop' next) := by
  have hlastVersion : loop.lastVersion =
      (consumed ++ [tx]).getLast?.map Transaction.version := by
    rw [hlast]
    simp
  unfold flushFullChunk
  split_ifs with hfull
  · refine (finishActiveChunk_runs hcut hconsistent harchives).bind ?_
    rintro loop' next hcut' ⟨ledger', hconsistent', hrecorded', hnext', hloop'⟩
    -- the version just written is the last of the archive, which is therefore not empty
    have htx : tx.version.toNat + 1 = request.startVersion.toNat + (consumed ++ [tx]).length := by
      rw [← toNat_lastVersionOf hconsecutive (by simp), lastVersionOf_concat]
    have hlast' : tx.version.toNat + 1 = ledger'.next := htx.trans hnext'.symm
    have hne' : ledger'.chunks ≠ [] := by
      apply hconsistent'.extends_.chunks_ne_nil
      rw [← hlast', htx, List.length_append, List.length_singleton]
      omega
    have hversion : loop'.lastVersion.getD request.startVersion = tx.version := by
      rw [hloop', hlast]
      rfl
    rw [hversion]
    refine (writeRecordCheckpoint_runs hcut' hconsistent' hrecorded' hne' hlast' .recording
      _ _).bind ?_
    rintro _ next' hcut'' ⟨hconsistent'', -⟩
    rw [hloop'] at hrecorded' ⊢
    exact .pure hcut'' ⟨rfl, ledger', hconsistent'', ⟨hrecorded', fun _ => hnext', nofun⟩, nofun,
      ⟨hlastVersion, hcount⟩, hconsecutive, hstart⟩
  · refine .pure hcut ⟨rfl, ledger, hconsistent, harchives, ?_, ⟨hlastVersion, hcount⟩,
      hconsecutive, hstart⟩
    -- the chunk stays open because it has room
    intro chunk hchunk
    obtain rfl := Option.some.inj (hactive.symm.trans hchunk)
    exact not_le.1 hfull

/-- The step: one more transaction. -/
theorem writeTransaction_runs {consumed : List Transaction} {tx : Transaction}
    (hcut : RecordCut base point)
    (h : Recording base ledger request consumed loop point)
    (htx : tx.version.toNat = request.startVersion.toNat + consumed.length) :
    Runs (RecordCut base) NotRefused (writeTransaction env request loop tx) point
      (fun loop' next => loop'.stoppedAtByteLimit = loop.stoppedAtByteLimit ∧
        ∃ ledger', Recording base ledger' request (consumed ++ [tx]) loop' next) := by
  unfold writeTransaction
  refine (openActiveChunk_runs hcut h htx).bind ?_
  rintro chunk next hcut' ⟨hconsistent, hholds, hroom⟩
  have hafter := hconsistent.writeTmpChunk chunk.tmpName tx
  have hcut'' := hcut'.step hafter trivial
  unfold ActiveChunk.writeTransaction
  rw [StoreM.bind_assoc]
  refine .perform_bind hcut' (RecordM.lift_bind hcut'' (fun rawBytes _ => ?_))
  -- the chunk holds one more version, and the flush closes it if it is full
  have hwritten := hholds.push htx hroom
  refine flushFullChunk_runs hcut'' hafter ?_ rfl rfl ?_ ?_ h.next_le
  · refine ⟨h.archives.recorded, nofun, ?_⟩
    rintro _ ⟨⟩
    refine ⟨?_, by simp [ActiveChunk.push]⟩
    rw [List.length_append, List.length_singleton, ← Nat.add_assoc]
    exact hwritten
  · rw [h.counts.count, List.length_append, List.length_singleton, UInt64.ofNat_add]
    rfl
  · rw [versionsOf_append, ConsecutiveFrom.append_iff, length_versionsOf]
    exact ⟨h.consecutive, ConsecutiveFrom.cons_iff.2 ⟨htx, ConsecutiveFrom.nil _⟩⟩

theorem Recording.stopAtByteLimit {consumed : List Transaction}
    (h : Recording base ledger request consumed loop point) :
    Recording base ledger request consumed (stopAtByteLimit request loop) point :=
  ⟨h.consistent, ⟨h.archives.recorded, h.archives.idle, h.archives.active⟩, h.room,
    ⟨h.counts.lastVersion, h.counts.count⟩, h.consecutive, h.next_le⟩

theorem Recording.withChainId {consumed : List Transaction}
    (h : Recording base ledger request consumed loop point) (chainId : Option UInt64) :
    Recording base ledger request consumed { loop with chainId := chainId } point :=
  ⟨h.consistent, ⟨h.archives.recorded, h.archives.idle, h.archives.active⟩, h.room,
    ⟨h.counts.lastVersion, h.counts.count⟩, h.consecutive, h.next_le⟩

/-- The transactions of a response: all of them, unless the byte limit stops the loop. -/
theorem recordTransactions_runs {txs consumed : List Transaction}
    (hcut : RecordCut base point)
    (h : Recording base ledger request consumed loop point)
    (htxs : ConsecutiveFrom (request.startVersion.toNat + consumed.length) (versionsOf txs))
    (hrunning : loop.stoppedAtByteLimit = false) :
    Runs (RecordCut base) NotRefused (recordTransactions env request loop txs) point
      (fun loop' next => ∃ ledger' consumed',
        Recording base ledger' request consumed' loop' next ∧
          (loop'.stoppedAtByteLimit = false → consumed' = consumed ++ txs)) := by
  induction txs generalizing consumed loop ledger point with
  | nil => exact .pure hcut ⟨ledger, consumed, h, fun _ => by simp⟩
  | cons tx rest ih =>
    obtain ⟨htx, hrest⟩ := ConsecutiveFrom.cons_iff.1 htxs
    have hstop : ∀ {loop : RecordLoop}, byteLimitReached request loop = true →
        ¬ (stopAtByteLimit request loop).stoppedAtByteLimit = false := by
      intro loop hlimit hfalse
      rw [show (HotIndex.stopAtByteLimit request loop).stoppedAtByteLimit =
        byteLimitReached request loop from rfl, hlimit] at hfalse
      cases hfalse
    unfold recordTransactions
    -- the byte limit is checked before the transaction and behind it
    split_ifs with hbefore
    · exact .pure hcut ⟨ledger, consumed, h.stopAtByteLimit, fun hf => absurd hf (hstop hbefore)⟩
    · refine (writeTransaction_runs hcut h htx).bind ?_
      rintro loop' next hcut' ⟨hstopped, ledger', h'⟩
      split_ifs with hafter
      · exact .pure hcut' ⟨ledger', _, h'.stopAtByteLimit, fun hf => absurd hf (hstop hafter)⟩
      · refine (ih hcut' h' ?_ (hstopped.trans hrunning)).imp ?_
        · rw [List.length_append, List.length_singleton, ← Nat.add_assoc]
          exact hrest
        · rintro loop₂ last - ⟨ledger₂, consumed₂, h₂, hall⟩
          exact ⟨ledger₂, consumed₂, h₂, fun hf => by rw [hall hf]; simp⟩

/-- The responses of a stream. -/
theorem recordResponses_runs {responses : List StreamResponse} {consumed : List Transaction}
    (hcut : RecordCut base point)
    (h : Recording base ledger request consumed loop point)
    (hresponses : ConsecutiveFrom (request.startVersion.toNat + consumed.length)
      (versionsOf (responses.flatMap StreamResponse.transactions)))
    (hrunning : loop.stoppedAtByteLimit = false) :
    Runs (RecordCut base) NotRefused (recordResponses env request loop responses) point
      (fun loop' next => ∃ ledger' consumed',
        Recording base ledger' request consumed' loop' next ∧
          (loop'.stoppedAtByteLimit = false →
            consumed' = consumed ++ responses.flatMap StreamResponse.transactions)) := by
  induction responses generalizing consumed loop ledger point with
  | nil => exact .pure hcut ⟨ledger, consumed, h, fun _ => by simp⟩
  | cons response rest ih =>
    -- the versions of one response end where those of the next one start
    rw [List.flatMap_cons, versionsOf_append, ConsecutiveFrom.append_iff, length_versionsOf]
      at hresponses
    unfold recordResponses
    refine (recordTransactions_runs hcut (h.withChainId (response.chainId.or loop.chainId))
      hresponses.1 hrunning).bind ?_
    rintro loop' next hcut' ⟨ledger', consumed', h', hall⟩
    split_ifs with hstopped
    · refine .pure hcut' ⟨ledger', consumed', h', fun hf => ?_⟩
      rw [hstopped] at hf
      cases hf
    · have hrunning' : loop'.stoppedAtByteLimit = false := by simpa using hstopped
      have hconsumed := hall hrunning'
      refine (ih hcut' h' ?_ hrunning').imp ?_
      · rw [hconsumed, List.length_append, ← Nat.add_assoc]
        exact hresponses.2
      · rintro loop₂ last - ⟨ledger₂, consumed₂, h₂, hall₂⟩
        refine ⟨ledger₂, consumed₂, h₂, fun hf => ?_⟩
        rw [hall₂ hf, hconsumed, List.flatMap_cons, List.append_assoc]

/-! ## The end of a stream -/

/-- The saving part that the two ends of a stream share: after the active chunk is closed, the
key file and a checkpoint follow. -/
theorem saveCheckpoint_runs {consumed : List Transaction} {α : Type}
    (hcut : RecordCut base point) (hconsistent : ledger.Consistent base point)
    (hrecorded : ledger.Recorded loop.chunks)
    (hnext : ledger.next = request.startVersion.toNat + consumed.length)
    (hconsecutive : ConsecutiveFrom request.startVersion.toNat (versionsOf consumed))
    (hstart : base.archive.next ≤ request.startVersion.toNat) (hne : consumed ≠ [])
    {status : RecordStatus} {message : String} {streamError : Option String}
    {f : UInt64 → RecordM α}
    {post : α → Traced OutDir FsStep → Prop}
    (h : ∀ next nextStartVersion, RecordCut base next →
      nextStartVersion.toNat = ledger.next → ledger.Consistent base next →
      (∃ checkpoint, next.store.checkpoint = some checkpoint ∧ ledger.Lists checkpoint) →
      Runs (RecordCut base) NotRefused (f nextStartVersion) next post) :
    Runs (RecordCut base) NotRefused (do
      let dir ← StoreM.read
      finishKeys request loop (lastVersionOf consumed) dir
      writeRecordCheckpoint request loop status message (lastVersionOf consumed) streamError
      let nextStartVersion ← RecordM.lift (checkedNextVersion (lastVersionOf consumed))
      f nextStartVersion) point post := by
  have hlast := toNat_lastVersionOf hconsecutive hne
  have hpos := List.length_pos_iff.2 hne
  -- something was consumed, so there is a chunk for the checkpoint to list
  have hchunks : ledger.chunks ≠ [] := by
    refine hconsistent.extends_.chunks_ne_nil ?_
    rw [hnext]
    omega
  refine .read_bind hcut ((finishKeys_runs hcut hconsistent _ _).bind ?_)
  rintro _ keys hcutKeys hkeys
  refine (writeRecordCheckpoint_runs hcutKeys hkeys hrecorded hchunks (hlast.trans hnext.symm)
    status _ _).bind ?_
  rintro _ saved hcutSaved ⟨hsaved, hcheckpoint⟩
  refine RecordM.lift_bind hcutSaved (fun nextStartVersion hnextStart => ?_)
  refine h saved nextStartVersion hcutSaved ?_ hsaved hcheckpoint
  rw [checkedNextVersion_eq_ok_iff.1 hnextStart, hlast, hnext]

/-- What is left of an interrupted attempt: a checkpoint from which the next one resumes. -/
def Interrupted (base : SessionStart) (nextStartVersion : UInt64) (point : Traced OutDir FsStep) :
    Prop :=
  ∃ ledger : Ledger, ledger.Consistent base point ∧ ledger.next = nextStartVersion.toNat ∧
    ∃ checkpoint, point.store.checkpoint = some checkpoint ∧ ledger.Lists checkpoint

theorem finishInterrupted_runs {consumed : List Transaction}
    (hcut : RecordCut base point)
    (h : Recording base ledger request consumed loop point) (streamError : String) :
    Runs (RecordCut base) NotRefused (finishInterrupted env request loop streamError)
      point (fun outcome next => ∃ nextStartVersion rawBytes,
        outcome = .interrupted nextStartVersion rawBytes streamError ∧
          Interrupted base nextStartVersion next) := by
  unfold finishInterrupted
  split_ifs with hcount
  · -- an attempt without a transaction is not retried
    exact .fail hcut (fun path => nofun)
  · obtain ⟨hne, hlast⟩ := h.counts.lastVersion_getD hcount request.startVersion
    refine (finishActiveChunk_runs hcut h.consistent h.archives).bind ?_
    rintro loop' next hcut' ⟨ledger', hconsistent', hrecorded', hnext', hloop'⟩
    have hlast' : loop'.lastVersion.getD request.startVersion = lastVersionOf consumed := by
      rw [hloop']
      exact hlast
    simp only [hlast']
    refine saveCheckpoint_runs hcut' hconsistent' hrecorded' hnext' h.consecutive h.next_le hne
      ?_
    intro saved nextStartVersion hcutSaved hnextStart hsaved hcheckpoint
    exact .pure hcutSaved ⟨nextStartVersion, _, rfl, ledger', hsaved, hnextStart.symm, hcheckpoint⟩

theorem finishComplete_runs {consumed : List Transaction}
    (hcut : RecordCut base point)
    (h : Recording base ledger request consumed loop point) :
    Runs (RecordCut base) NotRefused (finishComplete env request loop) point
      (fun outcome _ => ∃ nextStartVersion rawBytes stopped,
        outcome = .complete nextStartVersion rawBytes stopped) := by
  unfold finishComplete
  refine (finishActiveChunk_runs hcut h.consistent h.archives).bind ?_
  rintro loop' next hcut' ⟨ledger', hconsistent', hrecorded', hnext', hloop'⟩
  unfold saveComplete
  split_ifs with hcount'
  · exact .fail hcut' (fun path => nofun)
  · -- closing the last chunk changes neither the count nor the last version
    have hcount : loop.count ≠ 0 := by
      rw [hloop'] at hcount'
      exact hcount'
    obtain ⟨hne, hlast⟩ := h.counts.lastVersion_getD hcount request.startVersion
    have hlast' : loop'.lastVersion.getD request.startVersion = lastVersionOf consumed := by
      rw [hloop']
      exact hlast
    simp only [hlast']
    refine saveCheckpoint_runs hcut' hconsistent' hrecorded' hnext' h.consecutive h.next_le hne
      ?_
    intro saved nextStartVersion hcutSaved _ _ _
    exact .pure hcutSaved ⟨_, _, _, rfl⟩

end Record

end HotIndex
