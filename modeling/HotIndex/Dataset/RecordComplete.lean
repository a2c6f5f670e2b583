import HotIndex.Dataset.RecordRuns

/-!
# What "complete" Means

A checkpoint says "complete" when the server closed a stream, not when the archive reached
the end version: a stream that breaks off is requested again from the next version on, but
one that is closed early is taken for the whole range. So a checkpoint that says "complete"
reaches the end version if and only if the first stream that the server closed did
(`complete_iff_closed_at_end`). This holds of any directory and any server.
-/

namespace HotIndex

open Lib

/-! ## The server's part -/

/-- The last version of the first stream that the server closes, when each stream that
breaks off is followed by a request for what it left, up to `endVersion`. -/
def TransactionServer.closingVersion (server : TransactionServer) (endVersion : UInt64) :
    (retriesLeft attempt : Nat) → (startVersion : UInt64) → Option UInt64
  | retriesLeft, attempt, startVersion =>
    match server attempt startVersion (endVersion - startVersion + 1) with
    | .error _ => none
    | .ok stream =>
      match stream.ending, retriesLeft with
      | .closed, _ => stream.delivered.getLast?.map Transaction.version
      | .failed _, 0 => none
      | .failed _, retriesLeft + 1 =>
        server.closingVersion endVersion retriesLeft (attempt + 1)
          (lastVersionOf stream.delivered + 1)

namespace TransactionServer

variable {server : TransactionServer} {endVersion startVersion : UInt64} {attempt : Nat}
  {stream : TransactionStream}

theorem closingVersion_of_closed (retriesLeft : Nat)
    (hstream : server attempt startVersion (endVersion - startVersion + 1) = .ok stream)
    (hending : stream.ending = .closed) (hne : stream.delivered ≠ []) :
    server.closingVersion endVersion retriesLeft attempt startVersion =
      some (lastVersionOf stream.delivered) := by
  have hlast : stream.delivered.getLast?.map Transaction.version =
      some (lastVersionOf stream.delivered) := by
    obtain ⟨init, tx, hdelivered⟩ := List.eq_nil_or_concat stream.delivered |>.resolve_left hne
    rw [hdelivered]
    simp [lastVersionOf]
  unfold closingVersion
  simp only [hstream, hending]
  cases retriesLeft <;> exact hlast

theorem closingVersion_of_failed {streamError : String} (retriesLeft : Nat)
    (hstream : server attempt startVersion (endVersion - startVersion + 1) = .ok stream)
    (hending : stream.ending = .failed streamError) :
    server.closingVersion endVersion (retriesLeft + 1) attempt startVersion =
      server.closingVersion endVersion retriesLeft (attempt + 1)
        (lastVersionOf stream.delivered + 1) := by
  conv_lhs => unfold closingVersion
  simp only [hstream, hending]

end TransactionServer

/-! ## Steps -/

/-- The checkpoint says that everything was recorded. -/
def RecordCheckpoint.SaysComplete (checkpoint : RecordCheckpoint) : Prop :=
  checkpoint.status = .complete ∧ checkpoint.stoppedAtByteLimit = some false

/-- A checkpoint that says "complete" ends with a version that closes a stream. -/
def StepCloses (closing : UInt64 → Prop) : FsStep → Prop
  | .replaceCheckpoint checkpoint => checkpoint.SaysComplete →
    ∃ lastVersion, checkpoint.lastSuccessVersion = some lastVersion ∧ closing lastVersion
  | .createTmpChunk _ | .writeTmpChunk _ _ | .renameChunk _ _ _ | .renameKeys _ _ => True

/-- What holds at every point of a run. -/
def ClosingCut (closing : UInt64 → Prop) (point : Traced OutDir FsStep) : Prop :=
  ∀ step ∈ point.taken, StepCloses closing step

/-- The specifications of this module allow every error. -/
def AnyError (_ : RecordError) : Prop := True

section Closing

variable {env : RecordEnv} {server : TransactionServer} {closing : UInt64 → Prop}
  {point : Traced OutDir FsStep} {request : LiveRecordRequest} {loop : RecordLoop}
  {consumed : List Transaction}

theorem ClosingCut.step (hcut : ClosingCut closing point) {step : FsStep}
    (hstep : StepCloses closing step) : ClosingCut closing (point.after [step]) := by
  intro other hother
  rw [Traced.taken_after] at hother
  rcases List.mem_append.1 hother with hother | hother
  · exact hcut other hother
  · exact List.mem_singleton.1 hother ▸ hstep

/-- A fallible computation beside the directory. -/
theorem ClosingCut.lift_bind {α β : Type} (hcut : ClosingCut closing point)
    {x : Except HotIndexError α} {f : α → RecordM β} {post : β → Traced OutDir FsStep → Prop}
    (h : ∀ a, x = .ok a → Runs (ClosingCut closing) AnyError (f a) point post) :
    Runs (ClosingCut closing) AnyError (RecordM.lift x >>= f) point post :=
  .ofExcept_bind hcut (fun _ _ => trivial) (fun a ha => h a (lift_ok ha))

theorem finishActiveChunk_closing (hcut : ClosingCut closing point) :
    Runs (ClosingCut closing) AnyError (finishActiveChunk env loop) point
      (fun loop' _ => loop' = { loop with activeChunk := none, chunks := loop'.chunks }) := by
  unfold finishActiveChunk
  cases hactive : loop.activeChunk with
  | none =>
    refine .pure hcut ?_
    rw [← hactive]
  | some chunk =>
    -- the only step of it is the rename of the chunk, which `ClosingCut` does not see
    have hfinish : Runs (ClosingCut closing) AnyError (chunk.finish env) point
        (fun _ _ => True) := by
      unfold ActiveChunk.finish
      cases chunk.lastVersion with
      | none => exact .fail hcut trivial
      | some lastVersion =>
        refine .read_bind hcut ?_
        unfold ActiveChunk.rename
        simp only
        split_ifs
        · exact .fail hcut trivial
        · exact .perform_bind hcut (.pure (hcut.step trivial) trivial)
    exact hfinish.bind (fun record next hcut' _ => .pure hcut' rfl)

theorem finishKeys_closing (hcut : ClosingCut closing point) (last : UInt64) (dir : OutDir) :
    Runs (ClosingCut closing) AnyError (finishKeys request loop last dir) point
      (fun _ _ => True) := by
  unfold finishKeys
  simp only
  split_ifs
  · exact .fail hcut trivial
  · exact .perform hcut (hcut.step trivial) trivial

/-- A checkpoint with this status may be written if it closes what it has to. -/
theorem writeRecordCheckpoint_closing (hcut : ClosingCut closing point) {status : RecordStatus}
    (message : String) {last : UInt64} (streamError : Option String)
    (hclosing : status = .complete → loop.stoppedAtByteLimit = false → closing last) :
    Runs (ClosingCut closing) AnyError
      (writeRecordCheckpoint request loop status message last streamError) point
      (fun _ _ => True) := by
  unfold writeRecordCheckpoint
  refine hcut.lift_bind (fun total _ => hcut.lift_bind (fun next _ => ?_))
  refine .perform hcut (hcut.step ?_) trivial
  rintro ⟨hstatus, hstopped⟩
  exact ⟨last, rfl, hclosing hstatus (Option.some.inj hstopped)⟩

/-! ## The loop -/

/-- The step: one more transaction is counted. -/
theorem writeTransaction_closing (hcut : ClosingCut closing point) (h : loop.Counts consumed)
    (tx : Transaction) :
    Runs (ClosingCut closing) AnyError (writeTransaction env request loop tx) point
      (fun loop' _ => loop'.stoppedAtByteLimit = loop.stoppedAtByteLimit ∧
        loop'.Counts (consumed ++ [tx])) := by
  -- opening a chunk counts nothing and writes no checkpoint
  have hopen : Runs (ClosingCut closing) AnyError (openActiveChunk env loop tx.version) point
      (fun _ _ => True) := by
    unfold openActiveChunk
    cases loop.activeChunk with
    | none => exact .perform_bind hcut (.pure (hcut.step trivial) trivial)
    | some chunk => exact .pure hcut trivial
  unfold writeTransaction
  refine hopen.bind (fun opened next hopened _ => ?_)
  unfold ActiveChunk.writeTransaction
  rw [StoreM.bind_assoc]
  refine .perform_bind hopened ?_
  have hcut' : ClosingCut closing (next.after [.writeTmpChunk opened.tmpName tx]) :=
    hopened.step trivial
  refine hcut'.lift_bind (fun rawBytes _ => ?_)
  have hcount : loop.count + 1 = UInt64.ofNat (consumed ++ [tx]).length := by
    rw [h.count, List.length_append, List.length_singleton, UInt64.ofNat_add]
    rfl
  have hlast : some tx.version = (consumed ++ [tx]).getLast?.map Transaction.version := by simp
  unfold flushFullChunk
  split_ifs
  · refine (finishActiveChunk_closing hcut').bind ?_
    rintro loop' next' hcut'' hloop'
    refine (writeRecordCheckpoint_closing hcut'' _ _ (by nofun)).bind ?_
    intro _ _ hcut''' _
    rw [hloop']
    exact .pure hcut''' ⟨rfl, hlast, hcount⟩
  · exact .pure hcut' ⟨rfl, hlast, hcount⟩

theorem recordTransactions_closing {txs : List Transaction} (hcut : ClosingCut closing point)
    (h : loop.Counts consumed) :
    Runs (ClosingCut closing) AnyError (recordTransactions env request loop txs) point
      (fun loop' _ => ∃ consumed', loop'.Counts consumed' ∧
        (loop'.stoppedAtByteLimit = false → consumed' = consumed ++ txs)) := by
  induction txs generalizing consumed loop point with
  | nil => exact .pure hcut ⟨consumed, h, fun _ => by simp⟩
  | cons tx rest ih =>
    have hstop : ∀ {loop : RecordLoop}, byteLimitReached request loop = true →
        (stopAtByteLimit request loop).stoppedAtByteLimit = true := fun hlimit => hlimit
    unfold recordTransactions
    split_ifs with hlimit
    -- the byte limit is tested before each transaction and behind it
    · refine .pure hcut ⟨consumed, ⟨h.lastVersion, h.count⟩, fun hfalse => ?_⟩
      rw [hstop hlimit] at hfalse
      cases hfalse
    · refine (writeTransaction_closing hcut h tx).bind ?_
      rintro loop' next hcut' ⟨-, h'⟩
      split_ifs with hlimit'
      · refine .pure hcut' ⟨consumed ++ [tx], ⟨h'.lastVersion, h'.count⟩, fun hfalse => ?_⟩
        rw [hstop hlimit'] at hfalse
        cases hfalse
      · refine (ih hcut' h').imp ?_
        rintro loop'' _ - ⟨consumed', h'', hall⟩
        exact ⟨consumed', h'', fun hf => by rw [hall hf, List.append_assoc]; rfl⟩

/-- A stream that does not reach the byte limit is counted to its end. -/
theorem recordResponses_closing {responses : List StreamResponse}
    (hcut : ClosingCut closing point) (h : loop.Counts consumed) :
    Runs (ClosingCut closing) AnyError (recordResponses env request loop responses) point
      (fun loop' _ => ∃ consumed', loop'.Counts consumed' ∧
        (loop'.stoppedAtByteLimit = false →
          consumed' = consumed ++ responses.flatMap StreamResponse.transactions)) := by
  induction responses generalizing consumed loop point with
  | nil => exact .pure hcut ⟨consumed, h, fun _ => by simp⟩
  | cons response rest ih =>
    unfold recordResponses
    have hstart : ({ loop with chainId := response.chainId.or loop.chainId } :
        RecordLoop).Counts consumed := ⟨h.lastVersion, h.count⟩
    refine (recordTransactions_closing hcut hstart).bind ?_
    rintro loop' next hcut' ⟨consumed', h', hall⟩
    -- behind the limit, the rest of the stream is not read
    split_ifs with hstopped
    · refine .pure hcut' ⟨consumed', h', fun hf => ?_⟩
      rw [hstopped] at hf
      cases hf
    · refine (ih hcut' h').imp ?_
      rintro loop'' _ - ⟨consumed'', h'', hall'⟩
      refine ⟨consumed'', h'', fun hf => ?_⟩
      rw [hall' hf, hall (by simpa using hstopped), List.flatMap_cons, List.append_assoc]

/-! ## The end of a stream -/

theorem finishInterrupted_closing (hcut : ClosingCut closing point) (h : loop.Counts consumed)
    (streamError : String) :
    Runs (ClosingCut closing) AnyError (finishInterrupted env request loop streamError) point
      (fun outcome _ => ∀ nextStartVersion rawBytes message,
        outcome = .interrupted nextStartVersion rawBytes message →
          checkedNextVersion (lastVersionOf consumed) = .ok nextStartVersion) := by
  unfold finishInterrupted
  split_ifs with hcount
  · exact .fail hcut trivial
  · obtain ⟨-, hlast⟩ := h.lastVersion_getD hcount request.startVersion
    refine (finishActiveChunk_closing hcut).bind ?_
    rintro loop' next hcut' hloop'
    -- closing the chunk leaves the loop's counters as they were
    have hlast' : loop'.lastVersion.getD request.startVersion = lastVersionOf consumed := by
      rw [hloop']
      exact hlast
    simp only [hlast']
    refine .read_bind hcut' ((finishKeys_closing hcut' _ _).bind ?_)
    intro _ _ hcutKeys _
    -- an interrupted checkpoint does not say that it is complete
    refine (writeRecordCheckpoint_closing hcutKeys _ _ (by nofun)).bind ?_
    intro _ _ hcutSaved _
    refine hcutSaved.lift_bind (fun nextStartVersion hnext => .pure hcutSaved ?_)
    rintro _ _ _ ⟨⟩
    exact hnext

/-- The branch that writes "complete". -/
theorem finishComplete_closing (hcut : ClosingCut closing point) (h : loop.Counts consumed)
    (hclosing : loop.stoppedAtByteLimit = false → consumed ≠ [] →
      closing (lastVersionOf consumed)) :
    Runs (ClosingCut closing) AnyError (finishComplete env request loop) point
      (fun outcome _ => ∀ nextStartVersion rawBytes message,
        outcome ≠ .interrupted nextStartVersion rawBytes message) := by
  unfold finishComplete
  refine (finishActiveChunk_closing hcut).bind ?_
  rintro loop' next hcut' hloop'
  unfold saveComplete
  split_ifs with hcount'
  · exact .fail hcut' trivial
  · have hcount : loop.count ≠ 0 := by
      rw [hloop'] at hcount'
      exact hcount'
    obtain ⟨hne, hlast⟩ := h.lastVersion_getD hcount request.startVersion
    have hlast' : loop'.lastVersion.getD request.startVersion = lastVersionOf consumed := by
      rw [hloop']
      exact hlast
    simp only [hlast']
    refine .read_bind hcut' ((finishKeys_closing hcut' _ _).bind ?_)
    intro _ _ hcutKeys _
    -- it says complete only where no byte limit stopped the loop
    refine (writeRecordCheckpoint_closing hcutKeys _ _ ?_).bind ?_
    · intro _ hstopped
      refine hclosing ?_ hne
      rw [hloop'] at hstopped
      exact hstopped
    · intro _ _ hcutSaved _
      exact hcutSaved.lift_bind (fun _ _ => .pure hcutSaved nofun)

/-! ## Attempts and runs -/

/-- An attempt writes "complete" only behind a stream that the server closed, and is followed
by another one only behind a stream that broke off. -/
theorem recordLiveTransactionStream_closing (hcut : ClosingCut closing point) {attempt : Nat}
    (hclosing : ∀ stream, server attempt request.startVersion
        (request.endVersion - request.startVersion + 1) = .ok stream →
      stream.ending = .closed → stream.delivered ≠ [] →
        closing (lastVersionOf stream.delivered)) :
    Runs (ClosingCut closing) AnyError
      (recordLiveTransactionStream env server attempt request) point
      (fun outcome _ => ∀ nextStartVersion rawBytes message,
        outcome = .interrupted nextStartVersion rawBytes message →
          ∃ stream streamError, server attempt request.startVersion
              (request.endVersion - request.startVersion + 1) = .ok stream ∧
            stream.ending = .failed streamError ∧
            checkedNextVersion (lastVersionOf stream.delivered) = .ok nextStartVersion) := by
  unfold recordLiveTransactionStream
  split_ifs
  · exact .fail hcut trivial
  · refine hcut.lift_bind (fun stream hstream => hcut.lift_bind (fun _ _ => ?_))
    have hstart : ({ chunks := request.previousChunks } : RecordLoop).Counts [] := ⟨rfl, rfl⟩
    refine (recordResponses_closing hcut hstart).bind ?_
    rintro loop next hcut' ⟨consumed, h, hall⟩
    rw [List.nil_append] at hall
    unfold finishStream
    split
    -- the stream broke off, and what was read of it is all that it delivered
    · rename_i streamError hstopped hending
      refine (finishInterrupted_closing hcut' h streamError).imp ?_
      intro outcome _ _ hnext nextStartVersion rawBytes message houtcome
      refine ⟨stream, streamError, hstream, hending, ?_⟩
      rw [TransactionStream.delivered, ← hall hstopped]
      exact hnext _ _ _ houtcome
    -- the byte limit was reached, or the server closed the stream
    · rename_i hnot
      refine (finishComplete_closing hcut' h ?_).imp ?_
      · intro hstopped hne
        rw [hall hstopped] at hne ⊢
        refine hclosing stream hstream ?_ hne
        cases hending : stream.ending with
        | closed => rfl
        | failed streamError => exact absurd hending (hnot streamError hstopped)
      · intro outcome _ _ hcomplete nextStartVersion rawBytes message houtcome
        exact absurd houtcome (hcomplete _ _ _)

/-- Another attempt starts at the version that the last one reports. -/
theorem nextAttempt_closing {initialMaxRawBytes : Option UInt64} {retriesLeft : Nat}
    {st : RetryState} {outcome : RecordRunOutcome} (hcut : ClosingCut closing point) :
    Runs (ClosingCut closing) AnyError (nextAttempt initialMaxRawBytes retriesLeft st outcome)
      point (fun found _ => ∀ st' ∈ found, retriesLeft ≠ 0 ∧ st'.attempt = st.attempt + 1 ∧
        st'.request.endVersion = st.request.endVersion ∧ ∃ rawBytes message,
          outcome = .interrupted st'.request.startVersion rawBytes message) := by
  unfold nextAttempt
  cases outcome with
  | complete nextStartVersion rawBytes stopped =>
    exact hcut.lift_bind (fun _ _ => .pure hcut nofun)
  | interrupted nextStartVersion rawBytes streamError =>
    refine hcut.lift_bind (fun totalRawBytes _ => ?_)
    split_ifs
    · exact .pure hcut nofun
    · cases hrequest : remainingRawBytes initialMaxRawBytes st.request totalRawBytes with
      | none => exact .pure hcut nofun
      | some request =>
        -- only the byte limit of the request changes
        have hend : request.endVersion = st.request.endVersion := by
          unfold remainingRawBytes at hrequest
          split at hrequest
          · rw [Option.some.inj hrequest]
          · split_ifs at hrequest
            rw [← Option.some.inj hrequest]
        unfold retryFrom
        simp only
        split_ifs with hretries
        · exact .fail hcut trivial
        · refine .read_bind hcut (hcut.lift_bind (fun resumeState _ => .pure hcut ?_))
          rintro _ ⟨⟩
          exact ⟨hretries, rfl, hend, rawBytes, streamError, rfl⟩

/-- **The run rule**, by induction on the retries left. -/
theorem recordWithRetries_closing (initialMaxRawBytes : Option UInt64) {retriesLeft : Nat}
    {st : RetryState} (hcut : ClosingCut closing point)
    (hclosing : ∀ last, server.closingVersion st.request.endVersion retriesLeft st.attempt
      st.request.startVersion = some last → closing last) :
    Runs (ClosingCut closing) AnyError
      (recordWithRetries env server initialMaxRawBytes retriesLeft st) point
      (fun _ _ => True) := by
  induction retriesLeft generalizing st point with
  | zero =>
    refine (recordLiveTransactionStream_closing hcut ?_).bind ?_
    · intro stream hstream hending hne
      exact hclosing _ (TransactionServer.closingVersion_of_closed 0 hstream hending hne)
    · intro outcome next hcut' _
      exact (nextAttempt_closing hcut').bind (fun _ _ hcut'' _ => .pure hcut'' trivial)
  | succ retriesLeft ih =>
    refine (recordLiveTransactionStream_closing hcut ?_).bind ?_
    · intro stream hstream hending hne
      exact hclosing _ (TransactionServer.closingVersion_of_closed _ hstream hending hne)
    · intro outcome next hcut' hinterrupted
      refine (nextAttempt_closing hcut').bind ?_
      rintro found next' hcut'' hfound
      cases found with
      | none => exact .pure hcut'' trivial
      | some st' =>
        obtain ⟨-, hattempt, hend, rawBytes, message, houtcome⟩ := hfound st' rfl
        obtain ⟨stream, streamError, hstream, hending, hnext⟩ := hinterrupted _ _ _ houtcome
        -- the next attempt starts where `closingVersion` looks next
        have hstart : st'.request.startVersion = lastVersionOf stream.delivered + 1 := by
          have hnext := checkedNextVersion_eq_ok_iff.1 hnext
          rw [← UInt64.toNat_inj, UInt64.toNat_add, ← Nat.mod_eq_of_lt (UInt64.toNat_lt _),
            hnext]
          rfl
        refine ih hcut'' (fun last hlast => hclosing last ?_)
        rw [TransactionServer.closingVersion_of_failed retriesLeft hstream hending]
        rwa [hattempt, hend, hstart] at hlast

end Closing

/-! ## The result -/

/-- **What "complete" says.** A checkpoint of a run that says "complete", and that the byte
limit did not stop it, reaches the end version if and only if the first stream that the server
closed did. -/
theorem complete_iff_closed_at_end (env : RecordEnv) (server : TransactionServer)
    (request : LiveRecordRequest) (maxStreamRetries : UInt64) (dir : OutDir)
    (checkpoint : RecordCheckpoint)
    (hwritten : .replaceCheckpoint checkpoint ∈
      (recordLiveTransactionStreamWithRetries env server request maxStreamRetries dir).steps)
    (hcomplete : checkpoint.SaysComplete) :
    checkpoint.lastSuccessVersion = some request.endVersion ↔
      server.closingVersion request.endVersion maxStreamRetries.toNat 0 request.startVersion =
        some request.endVersion := by
  -- every complete checkpoint of the run names the version at which the streams closed
  have hrun : Runs (ClosingCut (fun last => server.closingVersion request.endVersion
        maxStreamRetries.toNat 0 request.startVersion = some last)) AnyError
      (recordLiveTransactionStreamWithRetries env server request maxStreamRetries)
      ⟨dir, []⟩ (fun _ _ => True) :=
    recordWithRetries_closing _ (by simp [ClosingCut]) (fun _ hlast => hlast)
  obtain ⟨lastVersion, hlast, hclosing⟩ := hrun.cut_end (.replaceCheckpoint checkpoint) (by
    rw [Traced.taken_after]
    exact List.mem_append_right _ hwritten) hcomplete
  rw [hlast, hclosing]

theorem complete_iff_closed_at_end_shortServer :
    shortCheckpoint.lastSuccessVersion = some 12 ↔
      shortServer.closingVersion 12 1 0 7 = some 12 :=
  complete_iff_closed_at_end sampleEnv shortServer shortRequest 1 (.empty "raw") shortCheckpoint
    shortCheckpoint_written ⟨rfl, rfl⟩

/-- A short archive that is labelled complete: versions 7 to 12 were asked for, the server
closed its second stream behind version 10, and the run ended well. -/
theorem complete_but_short_shortServer :
    shortServer.Consecutive ∧
      (recordLiveTransactionStreamWithRetries sampleEnv shortServer shortRequest 1
        (.empty "raw")).result = .ok () ∧
      .replaceCheckpoint shortCheckpoint ∈
        (recordLiveTransactionStreamWithRetries sampleEnv shortServer shortRequest 1
          (.empty "raw")).steps ∧
      shortCheckpoint.SaysComplete ∧
      shortCheckpoint.lastSuccessVersion ≠ some shortRequest.endVersion := by
  refine ⟨shortServer_consecutive, ?_, shortCheckpoint_written, ⟨rfl, rfl⟩, ?_⟩
  · decide +kernel
  · decide

end HotIndex
