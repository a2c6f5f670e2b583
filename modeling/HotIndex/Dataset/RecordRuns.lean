import HotIndex.Dataset.RecordInvariant

/-!
# Whole Recorder Runs

An attempt records one stream; a run repeats attempts behind the last recorded version
while streams break off. Over a server that delivers consecutive versions, every checkpoint
of a run lists a contiguous archive from the start version on (`recorded_contiguously`).
-/

namespace HotIndex

open Lib

/-! ## The server's part -/

namespace TransactionServer

/-- Every stream delivers consecutive versions from the requested one on. -/
def Consecutive (server : TransactionServer) : Prop :=
  ∀ attempt startingVersion transactionsCount stream,
    server attempt startingVersion transactionsCount = .ok stream →
      ConsecutiveFrom startingVersion.toNat (versionsOf stream.delivered)

end TransactionServer

/-! ## One attempt -/

section Runs

variable {env : RecordEnv} {server : TransactionServer} {base : SessionStart} {ledger : Ledger}
  {point : Traced OutDir FsStep}

/-- An attempt that starts behind the archive. -/
theorem recordLiveTransactionStream_runs (hserver : server.Consecutive) {attempt : Nat}
    {request : LiveRecordRequest} (hcut : RecordCut base point)
    (hconsistent : ledger.Consistent base point)
    (hrecorded : ledger.Recorded request.previousChunks)
    (hnext : ledger.next = request.startVersion.toNat) :
    Runs (RecordCut base) NotRefused
      (recordLiveTransactionStream env server attempt request) point
      (fun outcome next => ∀ nextStartVersion rawBytes streamError,
        outcome = .interrupted nextStartVersion rawBytes streamError →
          Interrupted base nextStartVersion next) := by
  unfold recordLiveTransactionStream
  split_ifs
  · exact .fail hcut (fun path => nofun)
  · refine RecordM.lift_bind hcut (fun stream hstream => ?_)
    refine RecordM.lift_bind hcut (fun _ _ => ?_)
    have hstart : Recording base ledger request [] { chunks := request.previousChunks } point :=
      { consistent := hconsistent
        archives := ⟨hrecorded, fun _ => hnext, nofun⟩
        room := nofun
        counts := ⟨rfl, rfl⟩
        consecutive := ConsecutiveFrom.nil _
        next_le := by
          rw [← hnext]
          exact hconsistent.extends_.next_le }
    refine (recordResponses_runs hcut hstart (hserver _ _ _ _ hstream) rfl).bind ?_
    rintro loop next hcut' ⟨ledger', consumed, hrecording, -⟩
    -- only an interrupted attempt says where the next one starts
    unfold finishStream
    split
    · refine (finishInterrupted_runs hcut' hrecording _).imp ?_
      rintro _ next' - ⟨nextStartVersion, rawBytes, rfl, hinterrupted⟩ _ _ _ ⟨⟩
      exact hinterrupted
    · refine (finishComplete_runs hcut' hrecording).imp ?_
      rintro _ next' - ⟨_, _, _, rfl⟩ _ _ _ ⟨⟩

/-- If there is another attempt, it starts behind the archive, with the chunks of the
checkpoint that the last one wrote. -/
theorem nextAttempt_runs {initialMaxRawBytes : Option UInt64} {retriesLeft : Nat} {st : RetryState}
    {outcome : RecordRunOutcome} (hcut : RecordCut base point)
    (hinterrupted : ∀ nextStartVersion rawBytes streamError,
      outcome = .interrupted nextStartVersion rawBytes streamError →
        Interrupted base nextStartVersion point) :
    Runs (RecordCut base) NotRefused (nextAttempt initialMaxRawBytes retriesLeft st outcome) point
      (fun found next => ∀ st' ∈ found, ∃ ledger : Ledger, ledger.Consistent base next ∧
        ledger.Recorded st'.request.previousChunks ∧
        ledger.next = st'.request.startVersion.toNat) := by
  unfold nextAttempt
  cases outcome with
  | complete nextStartVersion rawBytes stopped =>
    exact RecordM.lift_bind hcut (fun _ _ => .pure hcut nofun)
  | interrupted nextStartVersion rawBytes streamError =>
    obtain ⟨ledger, hconsistent, hledger, checkpoint, hcheckpoint, hlists⟩ :=
      hinterrupted _ _ _ rfl
    refine RecordM.lift_bind hcut (fun totalRawBytes _ => ?_)
    split_ifs
    · exact .pure hcut nofun
    · cases remainingRawBytes initialMaxRawBytes st.request totalRawBytes with
      | none => exact .pure hcut nofun
      | some request =>
        unfold retryFrom
        simp only
        split_ifs
        · exact .fail hcut (fun path => nofun)
        · refine .read_bind hcut (RecordM.lift_bind hcut (fun resumeState hload => ?_))
          -- the next attempt reads back the checkpoint that this one wrote
          have hsettled : ledger.Settled point.store :=
            hconsistent.onDisk.settled_of_lists rfl hlists hcheckpoint
          have hresumes : ledger.Resumes resumeState :=
            hsettled.of_load (.inl (by simp [hcheckpoint])) hload
          refine .pure hcut ?_
          rintro _ ⟨⟩
          exact ⟨ledger, hconsistent, hresumes.chunks, hledger⟩

/-- **The run rule.** All attempts of a run together, by induction on the retries left. -/
theorem recordWithRetries_runs (hserver : server.Consecutive)
    (initialMaxRawBytes : Option UInt64) {retriesLeft : Nat} {st : RetryState}
    (hcut : RecordCut base point) (hconsistent : ledger.Consistent base point)
    (hrecorded : ledger.Recorded st.request.previousChunks)
    (hnext : ledger.next = st.request.startVersion.toNat) :
    Runs (RecordCut base) NotRefused
      (recordWithRetries env server initialMaxRawBytes retriesLeft st) point
      (fun _ _ => True) := by
  -- an attempt leaves a ledger from which the next one starts
  induction retriesLeft generalizing st ledger point with
  | zero =>
    refine (recordLiveTransactionStream_runs hserver hcut hconsistent hrecorded hnext).bind ?_
    intro outcome next hcut' hinterrupted
    refine (nextAttempt_runs hcut' hinterrupted).bind ?_
    exact fun _ next' hcut'' _ => .pure hcut'' trivial
  | succ retriesLeft ih =>
    refine (recordLiveTransactionStream_runs hserver hcut hconsistent hrecorded hnext).bind ?_
    intro outcome next hcut' hinterrupted
    refine (nextAttempt_runs hcut' hinterrupted).bind ?_
    rintro found next' hcut'' hfound
    cases found with
    | none => exact .pure hcut'' trivial
    | some st' =>
      obtain ⟨ledger', hconsistent', hrecorded', hnext'⟩ := hfound st' rfl
      exact ih hcut'' hconsistent' hrecorded' hnext'

end Runs

/-! ## What the checkpoints say -/

/-- The checkpoint lists non-empty version ranges from `startVersion` to `lastVersion` that
follow on each other, counts their versions, and points behind them. -/
structure RecordCheckpoint.Covers (checkpoint : RecordCheckpoint)
    (startVersion lastVersion : UInt64) : Prop where
  ranges : ∀ chunk ∈ checkpoint.chunks, chunk.firstVersion ≤ chunk.lastVersion
  first : checkpoint.chunks.head?.map ChunkRecord.firstVersion = some startVersion
  follows : checkpoint.chunks.IsChain
    (fun chunk next => next.firstVersion.toNat = chunk.lastVersion.toNat + 1)
  last : checkpoint.chunks.getLast?.map ChunkRecord.lastVersion = some lastVersion
  lastSuccessVersion : checkpoint.lastSuccessVersion = some lastVersion
  nextStartVersion :
    checkpoint.nextStartVersion.map UInt64.toNat = some (lastVersion.toNat + 1)
  transactionCount :
    checkpoint.transactionCount.toNat + startVersion.toNat = lastVersion.toNat + 1

namespace Ledger

/-- The records of consecutive chunks start at their start, follow on each other and end at
their end. -/
theorem chain_of_recorded {start : Nat} {records : List ChunkRecord}
    {chunks : List (List Transaction)} (h : List.Forall₂ ChunkRecord.Of records chunks)
    (hne : ∀ txs ∈ chunks, txs ≠ [])
    (hconsecutive : ConsecutiveFrom start (versionsOf chunks.flatten)) :
    (∀ record ∈ records, record.firstVersion ≤ record.lastVersion) ∧
      (∀ record ∈ records.head?, record.firstVersion.toNat = start) ∧
      records.IsChain (fun record next =>
        next.firstVersion.toNat = record.lastVersion.toNat + 1) ∧
      ∀ record ∈ records.getLast?, record.lastVersion.toNat + 1 =
        start + chunks.flatten.length := by
  induction h generalizing start with
  | nil => exact ⟨nofun, nofun, .nil, nofun⟩
  | @cons record txs records chunks hrecord hrest ih =>
    -- the other chunks start behind the last version of the first
    rw [List.flatten_cons, versionsOf_append, ConsecutiveFrom.append_iff, length_versionsOf]
      at hconsecutive
    have htxs := hne txs List.mem_cons_self
    have hpos := List.length_pos_iff.2 htxs
    have hfirst : record.firstVersion.toNat = start := by
      rw [hrecord.firstVersion, toNat_firstVersionOf hconsecutive.1 htxs]
    have hlast : record.lastVersion.toNat + 1 = start + txs.length := by
      rw [hrecord.lastVersion, toNat_lastVersionOf hconsecutive.1 htxs]
    obtain ⟨hranges, hhead, hchain, hend⟩ :=
      ih (fun b hb => hne b (List.mem_cons_of_mem _ hb)) hconsecutive.2
    refine ⟨?_, ?_, ?_, ?_⟩
    · intro other hother
      rcases List.mem_cons.1 hother with rfl | hother
      · rw [UInt64.le_iff_toNat_le]
        omega
      · exact hranges other hother
    · rintro _ ⟨⟩
      exact hfirst
    · refine List.isChain_cons.2 ⟨fun next hnext => ?_, hchain⟩
      rw [hhead next hnext, hlast]
    · intro final hfinal
      rw [List.flatten_cons, List.length_append, ← Nat.add_assoc]
      cases hrest with
      | nil =>
        obtain rfl : record = final := by simpa using hfinal
        simpa using hlast
      | cons _ _ => exact hend final (by simpa using hfinal)

theorem Lists.covers {ledger : Ledger} {checkpoint : RecordCheckpoint} {startVersion : UInt64}
    (h : ledger.Lists checkpoint) (hstart : ledger.start = startVersion.toNat)
    (holder : ledger.older = []) (hne : ledger.chunks ≠ []) :
    ∃ lastVersion, checkpoint.Covers startVersion lastVersion := by
  have hfiles := files_eq_chunks holder
  have hnonempty := ledger.nonempty
  have hconsecutive := ledger.consecutive_files
  rw [holder, List.nil_append] at hnonempty
  rw [hfiles] at hconsecutive
  obtain ⟨hranges, hfirst, hchain, hend⟩ := chain_of_recorded h.chunks hnonempty hconsecutive
  -- the listed chunks are those of the session, since the directory had none before
  have hrecords : checkpoint.chunks ≠ [] := by
    intro hnil
    have hlength := h.chunks.length_eq
    rw [hnil] at hlength
    exact hne (List.length_eq_zero_iff.1 hlength.symm)
  obtain ⟨last, hlast, hlastNext⟩ :=
    Option.map_eq_some_iff.1 (h.lastSuccessVersion (files_ne_nil hne))
  refine ⟨last, hranges, ?_, hchain, ?_, hlast, ?_, ?_⟩
  · have hhead := List.head?_eq_some_head hrecords
    rw [hhead, Option.map_some, Option.some.injEq, ← UInt64.toNat_inj, hfirst _ hhead, hstart]
  · -- the chain of the chunks ends where the ledger continues
    have hfinal := List.getLast?_eq_some_getLast hrecords
    have hfinalNext := hend _ hfinal
    rw [hfinal, Option.map_some, Option.some.injEq, ← UInt64.toNat_inj]
    unfold next at hlastNext
    rw [hfiles] at hlastNext
    omega
  · rw [h.nextStartVersion, hlastNext]
  · rw [h.transactionCount, hlastNext, ← hstart, Nat.add_comm, ← hfiles]
    rfl

end Ledger

/-- A session may go on with the archive of its directory under whatever listing: the
checkpoint that it finds lists the same files. -/
theorem Ledger.Settled.consistent {ledger : Ledger} {dir : OutDir} (h : ledger.Settled dir)
    {archive : Ledger} (hfiles : archive.files = ledger.files)
    (holder : archive.older = [] → ledger.older = []) {cursor : Nat}
    (hcursor : dir.checkpoint ≠ none → cursor = ledger.next) :
    archive.Consistent ⟨archive, cursor⟩ ⟨dir, []⟩ where
  extends_ := .refl archive
  onDisk := h.onDisk.of_files hfiles
  lists := by
    intro _ checkpoint hcheckpoint
    have hsome : dir.checkpoint = some checkpoint := hcheckpoint
    have hnext := hcursor (by simp [hsome])
    exact ⟨ledger, hfiles.symm, h.lists checkpoint hcheckpoint, holder, .inr hnext.symm⟩
  behind := by simp

theorem Ledger.Consistent.recordCut {ledger : Ledger} {base : SessionStart} {dir : OutDir}
    (h : ledger.Consistent base ⟨dir, []⟩) : RecordCut base ⟨dir, []⟩ :=
  ⟨⟨ledger, h⟩, by simp⟩

/-- An empty directory represents an archive that is about to start. -/
theorem Ledger.settled_empty (start : Nat) (display : String) :
    (Ledger.empty start).Settled (.empty display) where
  onDisk := List.Perm.refl _
  lists := by
    intro checkpoint hcheckpoint
    cases hcheckpoint
  unlisted := fun _ => rfl

/-- **The recorder's invariant.** A run on an empty directory, over a server that delivers
consecutive versions, writes only checkpoints of a contiguous archive from its start version
on, whatever the chunk size, the byte limit, the responses and the interruptions. -/
theorem recorded_contiguously (env : RecordEnv) {server : TransactionServer}
    (hserver : server.Consecutive) {request : LiveRecordRequest}
    (hfirst : request.previousChunks = []) (maxStreamRetries : UInt64) (display : String) :
    ∀ checkpoint, .replaceCheckpoint checkpoint ∈
        (recordLiveTransactionStreamWithRetries env server request maxStreamRetries
          (.empty display)).steps →
      ∃ lastVersion, checkpoint.Covers request.startVersion lastVersion := by
  have hconsistent :=
    (Ledger.settled_empty request.startVersion.toNat display).consistent rfl id
      (fun _ => rfl)
  -- the session starts from an empty ledger, at its own start version
  have hrun : Runs (RecordCut ⟨.empty request.startVersion.toNat, request.startVersion.toNat⟩)
      NotRefused (recordLiveTransactionStreamWithRetries env server request maxStreamRetries)
      ⟨.empty display, []⟩ (fun _ _ => True) := by
    refine recordWithRetries_runs hserver _ hconsistent.recordCut hconsistent ?_ rfl
    rw [hfirst]
    exact .nil
  intro checkpoint hcheckpoint
  obtain ⟨ledger, hextends, hne, hlists⟩ := hrun.cut_end.steps (.replaceCheckpoint checkpoint)
    (by
      rw [Traced.taken_after]
      exact List.mem_append_right _ hcheckpoint)
  exact hlists.covers hextends.start hextends.older hne

/-- Every transaction takes nine bytes. -/
def sampleEnv : RecordEnv where
  encodedLen := fun _ => 9
  chunkDigest := fun _ => ""
  processId := 1

/-- A transaction that is known by its version alone. -/
def bareTransaction (version : UInt64) : Transaction where
  version := version
  infoHash := none
  timestamp := none
  type := 0
  epoch := 0
  blockHeight := 0
  txnData := none

/-- Two versions, in a response each, as long as there are two below 100. -/
def shortResponses (startingVersion : UInt64) : List StreamResponse :=
  if startingVersion < 100 then
    [{ chainId := some 2, transactions := [bareTransaction startingVersion] },
      { chainId := none, transactions := [bareTransaction (startingVersion + 1)] }]
  else []

theorem shortResponses_consecutive (startingVersion : UInt64) :
    ConsecutiveFrom startingVersion.toNat
      (versionsOf ((shortResponses startingVersion).flatMap StreamResponse.transactions)) := by
  unfold shortResponses
  split_ifs with hlt
  · have hsucc : (startingVersion + 1).toNat = startingVersion.toNat + 1 := by
      rw [UInt64.lt_iff_toNat_lt] at hlt
      rw [UInt64.toNat_add]
      exact Nat.mod_eq_of_lt (lt_of_lt_of_le (Nat.succ_lt_succ hlt) (by decide))
    show ConsecutiveFrom _ [startingVersion.toNat, (startingVersion + 1).toNat]
    simp [hsucc]
  · exact ConsecutiveFrom.nil _

/-- A server that sends two versions a stream. The first stream breaks off, the later ones
are closed. -/
def shortServer : TransactionServer := fun attempt startingVersion _ =>
  .ok {
    responses := shortResponses startingVersion
    ending := if attempt = 0 then .failed "connection reset" else .closed }

theorem shortServer_consecutive : shortServer.Consecutive := by
  rintro attempt startingVersion transactionsCount _ ⟨⟩
  exact shortResponses_consecutive startingVersion

/-- Versions 7 to 12, three a chunk. -/
def shortRequest : LiveRecordRequest where
  startVersion := 7
  endVersion := 12
  resume := false
  maxRawBytes := none
  chunkTransactionCount := 3
  previousChunks := []

/-- The last checkpoint of the run: the first stream brings 7 and 8, the second 9 and 10. -/
def shortCheckpoint : RecordCheckpoint where
  status := .complete
  message := "recorded Aptos Transaction Stream raw protobuf chunks"
  startVersion := 9
  endVersion := some 12
  resume := true
  chainId := some 2
  runTransactionCount := some 2
  transactionCount := 4
  uncompressedRawBytes := some 18
  maxRawBytes := none
  chunkTransactionCount := 3
  lastSuccessVersion := some 10
  nextStartVersion := some 11
  stoppedAtByteLimit := some false
  chunks := [
    { path := "transactions_7_8.pb.zst", firstVersion := 7, lastVersion := 8,
      transactionCount := 2, sha256 := some "", resumeInferredFromFilename := false },
    { path := "transactions_9_10.pb.zst", firstVersion := 9, lastVersion := 10,
      transactionCount := 2, sha256 := some "", resumeInferredFromFilename := false }]
  streamError := none

theorem shortCheckpoint_written : .replaceCheckpoint shortCheckpoint ∈
    (recordLiveTransactionStreamWithRetries sampleEnv shortServer shortRequest 1
      (.empty "raw")).steps := by
  decide +kernel

theorem recorded_contiguously_shortServer :
    ∃ lastVersion, shortCheckpoint.Covers 7 lastVersion :=
  @recorded_contiguously sampleEnv shortServer shortServer_consecutive shortRequest rfl 1 "raw"
    shortCheckpoint shortCheckpoint_written

end HotIndex
