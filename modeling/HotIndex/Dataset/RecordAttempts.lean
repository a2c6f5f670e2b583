import HotIndex.Dataset.RecordAccount

/-!
# Attempts and Retries

What an attempt reports and what it leaves for the next one, in terms of the transactions
that it writes; and what the retry loop makes of that: the range, the byte limit and the
chunks of the next attempt, or the end of the run.
-/

namespace HotIndex

open Lib

section Accounts

variable {env : RecordEnv} {server : TransactionServer} {request : LiveRecordRequest}
  {origin point : Traced OutDir FsStep} {loop : RecordLoop} {written : List Transaction}
  {fits : Prop}

/-! ## The end of a stream -/

/-- The key file of the attempt is not in the way. -/
theorem finishKeys_accounts {last : UInt64} {dir : OutDir} (hcut : WritesFirst origin point)
    (hfree : fits → dir.keyFiles.get? ⟨keyFileName request.startVersion last⟩ = none) :
    Runs (WritesFirst origin) (Excused fits) (finishKeys request loop last dir) point
      (fun _ next => next = point.after
        [.renameKeys (keyFileName request.startVersion last) loop.keyVersions]) := by
  unfold finishKeys
  simp only
  split_ifs with hsome
  · -- the name of the key file is free
    refine .fail hcut (fun hf => ?_)
    rw [hfree hf] at hsome
    cases hsome
  · exact .perform hcut (hcut.keep rfl rfl) rfl

/-- The saving part that the two ends of a stream share. -/
theorem saveCheckpoint_accounts {α : Type} {status : RecordStatus} {message : String}
    {last : UInt64} {streamError : Option String} {f : UInt64 → RecordM α}
    {post : α → Traced OutDir FsStep → Prop} (hcut : WritesFirst origin point)
    (hfree : fits → point.store.keyFiles.get? ⟨keyFileName request.startVersion last⟩ = none)
    (hcount : fits → transactionsIn loop.chunks < UInt64.size)
    (hlast : fits → last.toNat + 1 < UInt64.size)
    (h : ∀ nextStartVersion checkpoint, nextStartVersion.toNat = last.toNat + 1 →
      checkpoint.chunks = loop.chunks → checkpoint.nextStartVersion ≠ none →
      Runs (WritesFirst origin) (Excused fits) (f nextStartVersion)
        ((point.after [.renameKeys (keyFileName request.startVersion last)
          loop.keyVersions]).after [.replaceCheckpoint checkpoint]) post) :
    Runs (WritesFirst origin) (Excused fits) (do
      let dir ← StoreM.read
      finishKeys request loop last dir
      writeRecordCheckpoint request loop status message last streamError
      let nextStartVersion ← RecordM.lift (checkedNextVersion last)
      f nextStartVersion) point post := by
  -- the key file comes first, the checkpoint behind it
  refine .read_bind hcut ((finishKeys_accounts hcut hfree).bind ?_)
  rintro _ _ hkeys rfl
  refine (writeRecordCheckpoint_accounts hkeys hcount hlast).bind ?_
  rintro _ _ hsaved ⟨checkpoint, rfl, hchunks, hnext⟩
  refine Excused.lift_bind hsaved (fun hf => checkedNextVersion_of_lt (hlast hf)) ?_
  intro nextStartVersion hnextStart
  exact h nextStartVersion checkpoint (checkedNextVersion_eq_ok_iff.1 hnextStart) hchunks hnext

/-- What an attempt that broke off leaves for the next one. -/
structure LeavesCursor (request : LiveRecordRequest) (origin : Traced OutDir FsStep)
    (written : List Transaction) (nextStartVersion : UInt64) (next : Traced OutDir FsStep) :
    Prop where
  nextStartVersion : nextStartVersion.toNat = (lastVersionOf written).toNat + 1
  checkpoint : ∃ checkpoint, next.store.checkpoint = some checkpoint ∧
    checkpoint.nextStartVersion ≠ none ∧
    transactionsIn checkpoint.chunks ≤ transactionsIn request.previousChunks + written.length
  keys : ∃ versions, next.store.keyFiles = origin.store.keyFiles.insert
    ⟨keyFileName request.startVersion (lastVersionOf written)⟩ versions

/-- The files hold what was written, once the active chunk is closed. -/
theorem RecordLoop.Accounts.inFiles_of_closed
    (h : loop.Accounts env request origin written point) (hclosed : loop.activeChunk = none) :
    InFiles origin written point where
  inSteps := h.inSteps
  renamed := by
    have := h.inFiles
    unfold RecordLoop.activeTransactions at this
    rwa [hclosed, Option.elim_none, List.append_nil] at this

/-- Something was counted if something was written. -/
theorem RecordLoop.Counts.count_ne_zero (h : loop.Counts written) (hne : written ≠ [])
    (hlt : written.length < UInt64.size) : loop.count ≠ 0 := by
  intro hcount
  have hlength : (UInt64.ofNat written.length).toNat = written.length := by
    rw [UInt64.toNat_ofNat']
    exact Nat.mod_eq_of_lt hlt
  rw [← h.count, hcount] at hlength
  exact hne (List.length_eq_zero_iff.1 hlength.symm)

/-- A stream that broke off behind its first transaction. -/
theorem finishInterrupted_accounts {streamError : String}
    (h : loop.Accounts env request origin written point)
    (hne : fits → written ≠ []) (hfits : fits → request.Fits env written)
    (hfree : fits → ∀ last, origin.store.keyFiles.get?
      ⟨keyFileName request.startVersion last⟩ = none) :
    Runs (WritesFirst origin) (Excused fits) (finishInterrupted env request loop streamError)
      point (fun outcome next => written ≠ [] ∧ InFiles origin written next ∧
        ∃ nextStartVersion rawBytes,
          outcome = .interrupted nextStartVersion rawBytes streamError ∧
          rawBytes.toNat = env.encodedBytes written ∧
          LeavesCursor request origin written nextStartVersion next) := by
  unfold finishInterrupted
  split_ifs with hcount
  · -- nothing was written, against `hne`
    refine .fail h.writesFirst (fun hf => ?_)
    have hlength := (hfits hf).count
    exact absurd hcount (h.counts.count_ne_zero (hne hf) (by omega))
  · obtain ⟨hwritten, hlast⟩ := h.counts.lastVersion_getD hcount request.startVersion
    refine (finishActiveChunk_accounts h).bind ?_
    rintro loop' next - ⟨h', hloop'⟩
    have hlast' : loop'.lastVersion.getD request.startVersion = lastVersionOf written := by
      rw [hloop']
      exact hlast
    -- no chunk is open any more, so all that was written is in files
    have hclosed : loop'.activeChunk = none := by rw [hloop']
    simp only [hlast']
    have hinFiles := h'.inFiles_of_closed hclosed
    refine saveCheckpoint_accounts h'.writesFirst ?_ ?_ ?_ ?_
    · intro hf
      rw [h'.keys]
      exact hfree hf _
    · exact fun hf => lt_of_le_of_lt h'.transactionsIn_le (hfits hf).count
    · intro hf
      refine (hfits hf).versions_last hwritten
    · intro nextStartVersion checkpoint hnext hchunks hcursor
      refine .pure ((h'.writesFirst.keep rfl rfl).keep rfl rfl) ⟨hwritten,
        (hinFiles.keep rfl rfl).keep rfl rfl, nextStartVersion, _, rfl, h'.rawBytes, hnext,
        ⟨checkpoint, rfl, hcursor, ?_⟩, loop'.keyVersions, ?_⟩
      · rw [hchunks]
        exact h'.transactionsIn_le
      · rw [← h'.keys]
        rfl

/-- A stream that was closed, or stopped at the byte limit, behind its first transaction. -/
theorem finishComplete_accounts (h : loop.Accounts env request origin written point)
    (hne : fits → written ≠ []) (hfits : fits → request.Fits env written)
    (hfree : fits → ∀ last, origin.store.keyFiles.get?
      ⟨keyFileName request.startVersion last⟩ = none) :
    Runs (WritesFirst origin) (Excused fits) (finishComplete env request loop) point
      (fun outcome next => written ≠ [] ∧ InFiles origin written next ∧
        ∃ nextStartVersion rawBytes,
          outcome = .complete nextStartVersion rawBytes loop.stoppedAtByteLimit ∧
          rawBytes.toNat = env.encodedBytes written) := by
  unfold finishComplete
  refine (finishActiveChunk_accounts h).bind ?_
  rintro loop' next - ⟨h', hloop'⟩
  unfold saveComplete
  split_ifs with hcount
  · refine .fail h'.writesFirst (fun hf => ?_)
    have hlength := (hfits hf).count
    exact absurd hcount (h'.counts.count_ne_zero (hne hf) (by omega))
  · obtain ⟨hwritten, hlast⟩ := h'.counts.lastVersion_getD hcount request.startVersion
    -- no chunk is open any more, so all that was written is in files
    have hclosed : loop'.activeChunk = none := by rw [hloop']
    have hstopped : loop'.stoppedAtByteLimit = loop.stoppedAtByteLimit := by rw [hloop']
    simp only [hlast]
    have hinFiles := h'.inFiles_of_closed hclosed
    refine saveCheckpoint_accounts h'.writesFirst ?_ ?_ ?_ ?_
    · intro hf
      rw [h'.keys]
      exact hfree hf _
    · exact fun hf => lt_of_le_of_lt h'.transactionsIn_le (hfits hf).count
    · exact fun hf => (hfits hf).versions_last hwritten
    · intro nextStartVersion checkpoint _ _ _
      exact .pure ((h'.writesFirst.keep rfl rfl).keep rfl rfl) ⟨hwritten,
        (hinFiles.keep rfl rfl).keep rfl rfl, nextStartVersion, _, by rw [hstopped], h'.rawBytes⟩

/-! ## Attempts -/

theorem byteLimitReached_eq_true_iff :
    byteLimitReached request loop = true ↔
      ∃ limit, request.maxRawBytes = some limit ∧ limit ≤ loop.uncompressedRawBytes := by
  unfold byteLimitReached
  cases request.maxRawBytes <;> simp

/-- The bytes that an attempt reports. -/
def RecordRunOutcome.rawBytes : RecordRunOutcome → UInt64
  | .complete _ rawBytes _ | .interrupted _ rawBytes _ => rawBytes

/-- How an attempt ends that wrote these transactions of a stream. -/
inductive AttemptEnds (env : RecordEnv) (request : LiveRecordRequest)
    (stream : TransactionStream) (origin : Traced OutDir FsStep) (written : List Transaction) :
    RecordRunOutcome → Traced OutDir FsStep → Prop
  | complete {nextStartVersion rawBytes : UInt64} {stopped : Bool}
      {next : Traced OutDir FsStep} (hraw : rawBytes.toNat = env.encodedBytes written)
      (hclosed : stopped = false → stream.ending = .closed)
      (hlimit : stopped = true →
        ∃ limit, request.maxRawBytes = some limit ∧ limit.toNat ≤ env.encodedBytes written) :
      AttemptEnds env request stream origin written
        (.complete nextStartVersion rawBytes stopped) next
  | interrupted {nextStartVersion rawBytes : UInt64} {streamError : String}
      {next : Traced OutDir FsStep} (hraw : rawBytes.toNat = env.encodedBytes written)
      (hfailed : stream.ending = .failed streamError) (hall : written = stream.delivered)
      (hcursor : LeavesCursor request origin written nextStartVersion next) :
      AttemptEnds env request stream origin written
        (.interrupted nextStartVersion rawBytes streamError) next

theorem AttemptEnds.rawBytes_eq {stream : TransactionStream} {outcome : RecordRunOutcome}
    (h : AttemptEnds env request stream origin written outcome point) :
    outcome.rawBytes.toNat = env.encodedBytes written := by
  cases h with
  | complete hraw _ _ => exact hraw
  | interrupted hraw _ _ _ => exact hraw

/-- **An attempt.** What it reports and leaves, of the transactions that it writes. It fails
only if it cannot write any, or overflows, or a file is in the way. -/
theorem recordLiveTransactionStream_accounts {attempt : Nat}
    (hordered : fits → request.startVersion ≤ request.endVersion)
    (hstream : fits → ∃ stream, server attempt request.startVersion
        (request.endVersion - request.startVersion + 1) = .ok stream ∧
      stream.delivered ≠ [] ∧ request.Fits env stream.delivered)
    (hfree : fits → ∀ last, point.store.keyFiles.get?
      ⟨keyFileName request.startVersion last⟩ = none)
    (hlimit : fits → request.maxRawBytes ≠ some 0) :
    Runs (WritesFirst point) (Excused fits)
      (recordLiveTransactionStream env server attempt request) point
      (fun outcome next => ∃ stream, server attempt request.startVersion
          (request.endVersion - request.startVersion + 1) = .ok stream ∧
        ∃ written, written ≠ [] ∧ written <+: stream.delivered ∧ InFiles point written next ∧
          AttemptEnds env request stream point written outcome next) := by
  have hcut := WritesFirst.refl point
  unfold recordLiveTransactionStream
  split_ifs with hbackwards
  · refine .fail hcut (fun hf => ?_)
    exact absurd (hordered hf) (not_le.2 hbackwards)
  · refine Excused.lift_bind hcut (fun hf => (hstream hf).imp (fun _ h => h.1)) ?_
    intro stream hanswer
    have hdelivered : fits → stream.delivered ≠ [] ∧ request.Fits env stream.delivered := by
      intro hf
      obtain ⟨other, hother, hne, hfits⟩ := hstream hf
      obtain rfl : stream = other := Except.ok.inj (hanswer.symm.trans hother)
      exact ⟨hne, hfits⟩
    refine Excused.lift_bind hcut (fun hf => totalTransactionCount_of_lt ?_) ?_
    · have := (hdelivered hf).2.count
      omega
    · intro total htotal
      have hstart : RecordLoop.Accounts env request point { chunks := request.previousChunks } []
          point :=
        ⟨⟨rfl, rfl⟩, rfl, le_refl _, nofun, (List.append_nil _).symm, rfl, rfl⟩
      refine (recordResponses_accounts hstart rfl (fun hf => (hdelivered hf).2)).bind ?_
      rintro loop next - ⟨written, h, hreaches⟩
      rw [List.nil_append] at h
      have hfits : fits → request.Fits env written := by
        intro hf
        obtain ⟨rest, hrest⟩ := hreaches.isPrefix
        have hall := (hdelivered hf).2
        rw [TransactionStream.delivered, ← hrest] at hall
        exact hall.of_append
      -- behind the limit something was written, because the limit is not zero
      have hreached : loop.stoppedAtByteLimit = true → ∃ limit,
          request.maxRawBytes = some limit ∧ limit.toNat ≤ env.encodedBytes written := by
        intro hstopped
        obtain ⟨limit, hsome, hle⟩ := byteLimitReached_eq_true_iff.1 (hreaches.stopped hstopped)
        rw [UInt64.le_iff_toNat_le, h.rawBytes] at hle
        exact ⟨limit, hsome, hle⟩
      have hne : fits → written ≠ [] := by
        intro hf
        cases hstopped : loop.stoppedAtByteLimit with
        | false =>
          rw [hreaches.all hstopped]
          exact (hdelivered hf).1
        | true =>
          rintro rfl
          obtain ⟨limit, hsome, hle⟩ := hreached hstopped
          refine hlimit hf (hsome.trans (congrArg some ?_))
          rw [← UInt64.toNat_inj]
          exact Nat.le_zero.1 hle
      unfold finishStream
      split
      · rename_i streamError hstopped hfailed
        refine (finishInterrupted_accounts h hne hfits hfree).imp ?_
        rintro _ next' - ⟨hsome, hinFiles, _, _, rfl, hraw, hcursor⟩
        exact ⟨stream, hanswer, written, hsome, hreaches.isPrefix, hinFiles,
          .interrupted hraw hfailed (hreaches.all hstopped) hcursor⟩
      · rename_i hnot
        refine (finishComplete_accounts h hne hfits hfree).imp ?_
        rintro _ next' - ⟨hsome, hinFiles, _, _, rfl, hraw⟩
        refine ⟨stream, hanswer, written, hsome, hreaches.isPrefix, hinFiles,
          .complete hraw (fun hstopped => ?_) hreached⟩
        cases hending : stream.ending with
        | closed => rfl
        | failed streamError => exact absurd hending (hnot streamError hstopped)

/-! ## Retries -/

/-- The byte limit of the next attempt is what the earlier ones left of that of the run. -/
def RetryState.Within (st : RetryState) : (initialMaxRawBytes : Option UInt64) → Prop
  | none => st.request.maxRawBytes = none
  | some limit => ∃ remaining, st.request.maxRawBytes = some remaining ∧
    remaining.toNat + st.totalRawBytes.toNat = limit.toNat

/-- The limit of the run is reached at this total. -/
def LimitReached (initialMaxRawBytes : Option UInt64) (total : Nat) : Prop :=
  ∃ limit, initialMaxRawBytes = some limit ∧ limit.toNat ≤ total

/-- No other attempt follows: the stream ended well, or broke off behind the last version, or
at the byte limit. -/
inductive NoRetry (initialMaxRawBytes : Option UInt64) (st : RetryState) :
    RecordRunOutcome → Prop
  | complete {nextStartVersion rawBytes : UInt64} {stopped : Bool} :
      NoRetry initialMaxRawBytes st (.complete nextStartVersion rawBytes stopped)
  | atEnd {nextStartVersion rawBytes : UInt64} {streamError : String}
      (h : st.request.endVersion < nextStartVersion) :
      NoRetry initialMaxRawBytes st (.interrupted nextStartVersion rawBytes streamError)
  | atLimit {nextStartVersion rawBytes : UInt64} {streamError : String}
      (h : LimitReached initialMaxRawBytes (st.totalRawBytes.toNat + rawBytes.toNat)) :
      NoRetry initialMaxRawBytes st (.interrupted nextStartVersion rawBytes streamError)

/-- The next attempt, behind one that broke off: its range, its limit and its chunks. -/
structure Retries (initialMaxRawBytes : Option UInt64) (retriesLeft : Nat) (st : RetryState)
    (dir : OutDir) (outcome : RecordRunOutcome) (st' : RetryState) : Prop where
  retriesLeft : retriesLeft ≠ 0
  attempt : st'.attempt = st.attempt + 1
  endVersion : st'.request.endVersion = st.request.endVersion
  inRange : st'.request.startVersion ≤ st.request.endVersion
  within : st.Within initialMaxRawBytes → st'.Within initialMaxRawBytes
  notReached : ¬ LimitReached initialMaxRawBytes st'.totalRawBytes.toNat
  outcome : ∃ rawBytes streamError,
    outcome = .interrupted st'.request.startVersion rawBytes streamError ∧
      st'.totalRawBytes.toNat = st.totalRawBytes.toNat + rawBytes.toNat
  previousChunks : ∃ resumeState, loadRecordResumeState dir = .ok resumeState ∧
    st'.request.previousChunks = resumeState.chunks

/-- With a cursor in the checkpoint, its chunks are those to go on with. -/
theorem loadRecordResumeState_of_cursor {dir : OutDir} {checkpoint : RecordCheckpoint}
    (hcheckpoint : dir.checkpoint = some checkpoint)
    (hcursor : checkpoint.nextStartVersion ≠ none) :
    ∃ resumeState, loadRecordResumeState dir = .ok resumeState ∧
      resumeState.chunks = checkpoint.chunks := by
  obtain ⟨nextStartVersion, hnext⟩ := Option.ne_none_iff_exists'.1 hcursor
  unfold loadRecordResumeState resumeStateFromCheckpoint
  simp only [hcheckpoint, hnext, Option.some_or, withInferredCursor]
  exact ⟨_, rfl, rfl⟩

/-- The limit that is left is a difference that does not underflow. -/
theorem remainingRawBytes_within {st : RetryState} {initialMaxRawBytes : Option UInt64}
    {totalRawBytes : UInt64} {next : LiveRecordRequest}
    (h : remainingRawBytes initialMaxRawBytes st.request totalRawBytes = some next) :
    next.endVersion = st.request.endVersion ∧
      ¬ LimitReached initialMaxRawBytes totalRawBytes.toNat ∧
      (initialMaxRawBytes = none → next.maxRawBytes = st.request.maxRawBytes) ∧
      ∀ limit, initialMaxRawBytes = some limit → ∃ remaining,
        next.maxRawBytes = some remaining ∧
          remaining.toNat + totalRawBytes.toNat = limit.toNat := by
  unfold remainingRawBytes at h
  cases initialMaxRawBytes with
  | none =>
    obtain rfl := Option.some.inj h
    exact ⟨rfl, fun ⟨_, hnone, _⟩ => (by cases hnone), fun _ => rfl, nofun⟩
  | some limit =>
    simp only at h
    -- a retry has a limit that is not used up, so the remainder is exact
    split_ifs at h with hle
    obtain rfl := Option.some.inj h
    rw [UInt64.le_iff_toNat_le, not_le] at hle
    refine ⟨rfl, ?_, nofun, ?_⟩
    · rintro ⟨_, ⟨⟩, hreached⟩
      omega
    · rintro _ ⟨⟩
      refine ⟨_, rfl, ?_⟩
      rw [UInt64.toNat_sub_of_le _ _ (UInt64.le_iff_toNat_le.2 hle.le)]
      omega

/-- What follows an attempt. -/
theorem nextAttempt_accounts {initialMaxRawBytes : Option UInt64} {retriesLeft : Nat}
    {st : RetryState} {outcome : RecordRunOutcome} (hcut : WritesFirst origin point)
    (htotal : fits → st.totalRawBytes.toNat + outcome.rawBytes.toNat < UInt64.size)
    (hretry : fits → ∀ next rawBytes streamError,
      outcome = .interrupted next rawBytes streamError → next ≤ st.request.endVersion →
      retriesLeft ≠ 0)
    (hcursor : ∀ next rawBytes streamError,
      outcome = .interrupted next rawBytes streamError →
      ∃ checkpoint, point.store.checkpoint = some checkpoint ∧
        checkpoint.nextStartVersion ≠ none) :
    Runs (WritesFirst origin) (Excused fits)
      (nextAttempt initialMaxRawBytes retriesLeft st outcome) point
      (fun found next => next = point ∧
        (found = none → NoRetry initialMaxRawBytes st outcome) ∧
        ∀ st' ∈ found, Retries initialMaxRawBytes retriesLeft st point.store outcome st') := by
  unfold nextAttempt
  cases outcome with
  | complete nextStartVersion rawBytes stopped =>
    exact Excused.lift_bind hcut (fun hf => addRawBytes_of_lt (htotal hf))
      (fun total _ => .pure hcut ⟨rfl, fun _ => .complete, nofun⟩)
  | interrupted nextStartVersion rawBytes streamError =>
    refine Excused.lift_bind hcut (fun hf => addRawBytes_of_lt (htotal hf))
      (fun total hadd => ?_)
    have hsum := addRawBytes_eq_ok hadd
    split_ifs with hend
    · -- the stream broke off behind the last version asked for
      exact .pure hcut ⟨rfl, fun _ => .atEnd hend, nofun⟩
    · cases hrequest : remainingRawBytes initialMaxRawBytes st.request total with
      | none =>
        -- nothing is left of the limit of the run
        refine .pure hcut ⟨rfl, fun _ => .atLimit ?_, nofun⟩
        unfold remainingRawBytes at hrequest
        split at hrequest
        · cases hrequest
        · rename_i limit
          split_ifs at hrequest with hle
          refine ⟨limit, rfl, ?_⟩
          rw [← hsum]
          exact UInt64.le_iff_toNat_le.1 hle
      | some request =>
        obtain ⟨hendVersion, hnot, hnone, hsome⟩ := remainingRawBytes_within hrequest
        unfold retryFrom
        simp only
        split_ifs with hretries
        · refine .fail hcut (fun hf => ?_)
          exact absurd hretries (hretry hf _ _ _ rfl (not_lt.1 hend))
        · -- the cursor of the checkpoint is read back
          obtain ⟨checkpoint, hcheckpoint, hnext⟩ := hcursor _ _ _ rfl
          obtain ⟨resumeState, hload, -⟩ := loadRecordResumeState_of_cursor hcheckpoint hnext
          refine .read_bind hcut (Excused.lift_bind hcut (fun _ => ⟨_, hload⟩) ?_)
          intro resumeState' hload'
          refine .pure hcut ⟨rfl, nofun, ?_⟩
          rintro _ ⟨⟩
          refine ⟨hretries, rfl, hendVersion, not_lt.1 hend, ?_, hnot, ⟨_, _, rfl, hsum⟩, _, hload',
            rfl⟩
          intro hwithin
          cases initialMaxRawBytes with
          | none => exact (hnone rfl).trans hwithin
          | some limit => exact hsome limit rfl

/-- An attempt and what follows it, as in the loop of `recordWithRetries`. -/
def attemptStep (env : RecordEnv) (server : TransactionServer)
    (initialMaxRawBytes : Option UInt64) (retriesLeft : Nat) (st : RetryState) :
    RecordM (Option RetryState) := do
  let outcome ← recordLiveTransactionStream env server st.attempt st.request
  nextAttempt initialMaxRawBytes retriesLeft st outcome

/-- The loop of `recordWithRetries` in terms of its step. -/
theorem recordWithRetries_zero (initialMaxRawBytes : Option UInt64) (st : RetryState) :
    recordWithRetries env server initialMaxRawBytes 0 st =
      attemptStep env server initialMaxRawBytes 0 st >>= fun _ => pure () := by
  rw [attemptStep, StoreM.bind_assoc]
  rfl

theorem recordWithRetries_succ (initialMaxRawBytes : Option UInt64) (retriesLeft : Nat)
    (st : RetryState) :
    recordWithRetries env server initialMaxRawBytes (retriesLeft + 1) st =
      attemptStep env server initialMaxRawBytes (retriesLeft + 1) st >>= fun next =>
        next.elim (pure ()) (recordWithRetries env server initialMaxRawBytes retriesLeft) := by
  rw [attemptStep, StoreM.bind_assoc, recordWithRetries]
  refine congrArg (Bind.bind _) (funext fun outcome =>
    congrArg (Bind.bind _) (funext fun next => ?_))
  cases next with
  | none => rfl
  | some st => rfl

/-- What an attempt needs to end well: a stream that delivers something, no overflow, no file
in the way, and a retry if the stream breaks off before the end. -/
structure RetryState.CanAttempt (st : RetryState) (env : RecordEnv) (server : TransactionServer)
    (retriesLeft : Nat) (point : Traced OutDir FsStep) (stream : TransactionStream) : Prop where
  ordered : st.request.startVersion ≤ st.request.endVersion
  answer : server st.attempt st.request.startVersion
    (st.request.endVersion - st.request.startVersion + 1) = .ok stream
  delivers : stream.delivered ≠ []
  fits : st.request.Fits env stream.delivered
  totalFits : st.totalRawBytes.toNat + env.encodedBytes stream.delivered < UInt64.size
  free : ∀ last, point.store.keyFiles.get?
    ⟨keyFileName st.request.startVersion last⟩ = none
  limit : st.request.maxRawBytes ≠ some 0
  retry : ∀ streamError, stream.ending = .failed streamError →
    (lastVersionOf stream.delivered).toNat < st.request.endVersion.toNat → retriesLeft ≠ 0

/-- An attempt on a stream, and what follows it. -/
structure AttemptStep (env : RecordEnv) (initialMaxRawBytes : Option UInt64)
    (retriesLeft : Nat) (st : RetryState) (stream : TransactionStream)
    (origin : Traced OutDir FsStep) (written : List Transaction) (outcome : RecordRunOutcome)
    (found : Option RetryState) (next : Traced OutDir FsStep) : Prop where
  nonempty : written ≠ []
  isPrefix : written <+: stream.delivered
  inFiles : InFiles origin written next
  ends : AttemptEnds env st.request stream origin written outcome next
  noRetry : found = none → NoRetry initialMaxRawBytes st outcome
  retries : ∀ st' ∈ found, Retries initialMaxRawBytes retriesLeft st next.store outcome st'

/-- **The step of a run.** -/
theorem attemptStep_accounts {initialMaxRawBytes : Option UInt64} {retriesLeft : Nat}
    {st : RetryState}
    (hcan : fits → ∃ stream, st.CanAttempt env server retriesLeft point stream) :
    Runs (WritesFirst point) (Excused fits)
      (attemptStep env server initialMaxRawBytes retriesLeft st) point
      (fun found next => ∃ stream, server st.attempt st.request.startVersion
          (st.request.endVersion - st.request.startVersion + 1) = .ok stream ∧
        ∃ written outcome, AttemptStep env initialMaxRawBytes retriesLeft st stream point written
          outcome found next) := by
  unfold attemptStep
  refine (recordLiveTransactionStream_accounts (fun hf => ?_) (fun hf => ?_) (fun hf => ?_)
    (fun hf => ?_)).bind ?_
  · obtain ⟨stream, h⟩ := hcan hf
    exact h.ordered
  · obtain ⟨stream, h⟩ := hcan hf
    exact ⟨stream, h.answer, h.delivers, h.fits⟩
  · obtain ⟨stream, h⟩ := hcan hf
    exact h.free
  · obtain ⟨stream, h⟩ := hcan hf
    exact h.limit
  · rintro outcome next hcut ⟨stream, hanswer, written, hne, hprefix, hinFiles, hends⟩
    -- the server has one answer, the one that can be attempted
    have hstream : fits → st.CanAttempt env server retriesLeft point stream := by
      intro hf
      obtain ⟨other, h⟩ := hcan hf
      obtain rfl : stream = other := Except.ok.inj (hanswer.symm.trans h.answer)
      exact h
    refine (nextAttempt_accounts hcut (fun hf => ?_) (fun hf => ?_) ?_).imp ?_
    · -- the total has room for what this attempt wrote
      have htotal := (hstream hf).totalFits
      obtain ⟨rest, hrest⟩ := hprefix
      rw [← hrest, RecordEnv.encodedBytes_append] at htotal
      rw [hends.rawBytes_eq]
      omega
    · -- behind an interruption, the next attempt starts where this one stopped
      rintro nextStartVersion rawBytes streamError rfl hle
      cases hends with
      | interrupted _ hfailed hall hcursor =>
        refine (hstream hf).retry streamError hfailed ?_
        rw [← hall]
        have := hcursor.nextStartVersion
        rw [UInt64.le_iff_toNat_le] at hle
        omega
    · rintro nextStartVersion rawBytes streamError rfl
      cases hends with
      | interrupted _ _ _ hcursor =>
        obtain ⟨checkpoint, hcheckpoint, hsome, -⟩ := hcursor.checkpoint
        exact ⟨checkpoint, hcheckpoint, hsome⟩
    · rintro found _ - ⟨rfl, hnone, hretries⟩
      exact ⟨stream, hanswer, written, outcome, hne, hprefix, hinFiles, hends, hnone, hretries⟩

/-- The files of a run, by induction on the retries left: they hold the first of what it has
written, and all of it if the run ends well. -/
theorem recordWithRetries_inFiles (initialMaxRawBytes : Option UInt64) {retriesLeft : Nat}
    {st : RetryState} :
    Runs (WritesFirst point) (Excused False)
      (recordWithRetries env server initialMaxRawBytes retriesLeft st) point
      (fun _ next => ∃ written, InFiles point written next) := by
  induction retriesLeft generalizing st point with
  | zero =>
    rw [recordWithRetries_zero]
    refine (attemptStep_accounts nofun).bind ?_
    rintro found next hcut ⟨stream, -, written, outcome, h⟩
    exact .pure hcut ⟨written, h.inFiles⟩
  | succ retriesLeft ih =>
    rw [recordWithRetries_succ]
    refine (attemptStep_accounts nofun).bind ?_
    rintro found next hcut ⟨stream, -, written, outcome, h⟩
    cases found with
    | none => exact .pure hcut ⟨written, h.inFiles⟩
    | some st' =>
      -- the next attempt begins where everything is in files
      refine ((@ih next st').mono (fun _ hlater => hlater.behind h.inFiles)).imp ?_
      rintro _ last - ⟨later, hlater⟩
      refine ⟨written ++ later, ?_, ?_⟩
      · rw [hlater.inSteps, h.inFiles.inSteps, List.append_assoc]
      · rw [hlater.renamed, h.inFiles.renamed, List.append_assoc]

/-- **What is recorded is in the files.** Wherever a run is cut off, the chunk files that it has
completed hold the first of the transactions that it has written. -/
theorem renamedTransactions_prefix (env : RecordEnv) (server : TransactionServer)
    (request : LiveRecordRequest) (maxStreamRetries : UInt64) (dir : OutDir)
    {taken : List FsStep} (htaken : taken <+: (recordLiveTransactionStreamWithRetries env server
      request maxStreamRetries dir).steps) :
    renamedTransactions taken <+: writtenTransactions taken := by
  have hrun := @recordWithRetries_inFiles env server ⟨dir, []⟩ request.maxRawBytes
    maxStreamRetries.toNat { request := request, totalRawBytes := 0, attempt := 0 }
  -- at every cut, the files hold the first part of what was written
  obtain ⟨written, hwritten, hprefix⟩ := hrun.cuts taken htaken
  have hall : writtenTransactions taken = written := hwritten
  rw [hall]
  exact hprefix

/-- If a run ends well, the chunk files that it completes hold the recorded transactions. -/
theorem renamedTransactions_eq_recorded (env : RecordEnv) (server : TransactionServer)
    (request : LiveRecordRequest) (maxStreamRetries : UInt64) (dir : OutDir)
    (hok : (recordLiveTransactionStreamWithRetries env server request maxStreamRetries
      dir).result = .ok ()) :
    renamedTransactions (recordLiveTransactionStreamWithRetries env server request
        maxStreamRetries dir).steps =
      recordedTransactions env server request maxStreamRetries dir := by
  have hrun := @recordWithRetries_inFiles env server ⟨dir, []⟩ request.maxRawBytes
    maxStreamRetries.toNat { request := request, totalRawBytes := 0, attempt := 0 }
  obtain ⟨written, hinSteps, hrenamed⟩ := hrun.result () hok
  exact hrenamed.trans hinSteps.symm

end Accounts

end HotIndex
