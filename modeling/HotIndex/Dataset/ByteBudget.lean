import HotIndex.Dataset.RecordAttempts
import HotIndex.Lib.Budget

/-!
# The Byte Budget of a Run

The byte limit is tested before each transaction and behind it, against the bytes of the
attempt and what the earlier attempts left of the limit of the run. Together these tests keep
one law, wherever a run is cut off: just before each write of a transaction, the bytes that all
attempts have written so far are below the limit of the run
(`recordedTransactions_within_limit`). So the limit is exceeded by less than one transaction,
and there is always something to subtract from.
-/

namespace HotIndex

open Lib

/-- Before each of these transactions, `start` and the bytes of the ones before it are below
the limit. -/
abbrev RecordEnv.Budgets (env : RecordEnv) (limit start : Nat) (txs : List Transaction) : Prop :=
  StaysBelow (fun tx => (env.encodedLen tx).toNat) limit start txs

/-- What holds wherever a run is cut off: before each write of a transaction, the bytes written
so far were below the limit. -/
def BelowLimit (env : RecordEnv) (limit : Nat) (point : Traced OutDir FsStep) : Prop :=
  env.Budgets limit 0 (writtenTransactions point.taken)

/-- The step writes no transaction. -/
def WritesNothing (step : FsStep) : Prop := writtenTransactions [step] = []

theorem placesFiles_writesNothing : PlacesFiles WritesNothing where
  renameChunk := fun _ _ _ => rfl
  renameKeys := fun _ _ => rfl
  replaceCheckpoint := fun _ => rfl

section Budget

variable {env : RecordEnv} {server : TransactionServer} {request : LiveRecordRequest}
  {origin point : Traced OutDir FsStep} {loop : RecordLoop} {written : List Transaction}
  {limit remaining : UInt64}

/-- Parts of the recorder that write nothing keep what was written. -/
theorem BelowLimit.keeps {α : Type} {x : RecordM α} (h : BelowLimit env limit.toNat point)
    (htakes : Takes WritesNothing x) :
    Runs (BelowLimit env limit.toNat) (fun _ => True) x point
      (fun _ next => writtenTransactions next.taken = writtenTransactions point.taken) := by
  -- what is written stays the same at every cut
  have hsame : Runs
      (fun next => writtenTransactions next.taken = writtenTransactions point.taken)
      (fun _ => True) x point
      (fun _ next => writtenTransactions next.taken = writtenTransactions point.taken) := by
    refine htakes.runs (fun next step hstep hnext => ?_) rfl
    rw [Traced.taken_after, writtenTransactions_append, hstep, List.append_nil]
    exact hnext
  refine hsame.mono (fun next hnext => ?_)
  unfold BelowLimit
  rw [hnext]
  exact h

/-! ## One attempt -/

/-- **The step.** Below the limit, one more transaction may be written. -/
theorem writeTransaction_below (h : BelowLimit env limit.toNat point)
    (hbelow : env.encodedBytes (writtenTransactions point.taken) < limit.toNat)
    (tx : Transaction) :
    Runs (BelowLimit env limit.toNat) (fun _ => True) (writeTransaction env request loop tx) point
      (fun _ _ => True) := by
  unfold writeTransaction
  refine (h.keeps (takes_openActiveChunk env (fun _ => rfl) loop tx.version)).bind ?_
  rintro opened next hnext hsame
  unfold ActiveChunk.writeTransaction
  rw [StoreM.bind_assoc]
  -- the chunk is written first, so this is the cut that the limit has to allow
  have hafter : BelowLimit env limit.toNat (next.after [.writeTmpChunk opened.tmpName tx]) := by
    unfold BelowLimit
    rw [Traced.taken_after, writtenTransactions_append, hsame]
    refine h.append (.cons ?_ .nil)
    rw [Nat.zero_add]
    exact hbelow
  refine .perform_bind hnext (.ofExcept_bind
    (x := (addRawBytes loop.uncompressedRawBytes (env.encodedLen tx)).mapError
      RecordError.other)
    hafter (fun _ _ => trivial) (fun rawBytes _ => ?_))
  -- a full chunk is only put into place
  exact (hafter.keeps (takes_flushFullChunk env placesFiles_writesNothing _ _ _)).imp
    (fun _ _ _ _ => trivial)

/-- The loop tests the bytes of its attempt against its share of the limit. -/
theorem RecordLoop.Accounts.lt_limit (h : loop.Accounts env request origin written point)
    (hremaining : request.maxRawBytes = some remaining)
    (hshare : env.encodedBytes (writtenTransactions origin.taken) + remaining.toNat =
      limit.toNat)
    (hbelow : ¬ byteLimitReached request loop = true) :
    env.encodedBytes (writtenTransactions point.taken) < limit.toNat := by
  rw [byteLimitReached_eq_true_iff] at hbelow
  -- the attempt is below its share, so all attempts are below the limit
  have hlt : env.encodedBytes written < remaining.toNat := by
    rw [← h.rawBytes]
    by_contra hge
    exact hbelow ⟨remaining, hremaining, UInt64.le_iff_toNat_le.2 (not_lt.1 hge)⟩
  rw [h.inSteps, RecordEnv.encodedBytes_append]
  omega

/-- The transactions of a response, by induction: the test in front of each one is passed. -/
theorem recordTransactions_below (hremaining : request.maxRawBytes = some remaining)
    (hshare : env.encodedBytes (writtenTransactions origin.taken) + remaining.toNat =
      limit.toNat)
    {txs : List Transaction} (h : loop.Accounts env request origin written point)
    (hcut : BelowLimit env limit.toNat point) :
    Runs (BelowLimit env limit.toNat) (fun _ => True) (recordTransactions env request loop txs)
      point (fun _ _ => True) := by
  -- the counters of the loop account for what is written, so its test is one about that
  induction txs generalizing written loop point with
  | nil => exact .pure hcut trivial
  | cons tx rest ih =>
    unfold recordTransactions
    split_ifs with hbefore
    · exact .pure hcut trivial
    · have hwrite := @writeTransaction_below _ request _ loop _ hcut
        (h.lt_limit hremaining hshare hbefore) tx
      have haccounts := @writeTransaction_accounts _ _ _ _ _ _ False h tx False.elim
      refine (hwrite.and_post haccounts).bind ?_
      rintro loop' next hcut' ⟨-, h', -⟩
      split_ifs
      · exact .pure hcut' trivial
      · exact ih h' hcut'

theorem recordResponses_below (hremaining : request.maxRawBytes = some remaining)
    (hshare : env.encodedBytes (writtenTransactions origin.taken) + remaining.toNat =
      limit.toNat)
    {responses : List StreamResponse} (h : loop.Accounts env request origin written point)
    (hrunning : loop.stoppedAtByteLimit = false) (hcut : BelowLimit env limit.toNat point) :
    Runs (BelowLimit env limit.toNat) (fun _ => True)
      (recordResponses env request loop responses) point (fun _ _ => True) := by
  induction responses generalizing written loop point with
  | nil => exact .pure hcut trivial
  | cons response rest ih =>
    have hstart := h.withChainId (response.chainId.or loop.chainId)
    have haccounts := @recordTransactions_accounts _ _ _ _ _ _ False response.transactions hstart
      hrunning False.elim
    unfold recordResponses
    refine ((recordTransactions_below hremaining hshare hstart hcut).and_post haccounts).bind ?_
    rintro loop' next hcut' ⟨-, out, h', -⟩
    split_ifs with hstopped
    · exact .pure hcut' trivial
    · -- the next response starts with the bytes of this one
      exact ih h' (by simpa using hstopped) hcut'

/-- An attempt with its share of the limit. -/
theorem recordLiveTransactionStream_below {attempt : Nat}
    (hremaining : request.maxRawBytes = some remaining)
    (hshare : env.encodedBytes (writtenTransactions point.taken) + remaining.toNat =
      limit.toNat)
    (hcut : BelowLimit env limit.toNat point) :
    Runs (BelowLimit env limit.toNat) (fun _ => True)
      (recordLiveTransactionStream env server attempt request) point (fun _ _ => True) := by
  unfold recordLiveTransactionStream
  split_ifs
  · exact .fail hcut trivial
  · refine .ofExcept_bind hcut (fun _ _ => trivial) (fun stream _ => ?_)
    refine .ofExcept_bind hcut (fun _ _ => trivial) (fun _ _ => ?_)
    -- a stream starts with nothing counted, and its limit is its share of the budget
    have hstart : RecordLoop.Accounts env request point { chunks := request.previousChunks } []
        point :=
      ⟨⟨rfl, rfl⟩, rfl, le_refl _, nofun, (List.append_nil _).symm, rfl, rfl⟩
    refine (recordResponses_below hremaining hshare hstart rfl hcut).bind ?_
    intro loop next hcut' _
    exact (hcut'.keeps (takes_finishStream env placesFiles_writesNothing request _ loop)).imp
      (fun _ _ _ _ => trivial)

/-! ## All attempts -/

/-- The share of the next attempt is what this one left. -/
theorem AttemptStep.share {retriesLeft : Nat} {st st' : RetryState} {stream : TransactionStream}
    {outcome : RecordRunOutcome} {next : Traced OutDir FsStep}
    (h : AttemptStep env (some limit) retriesLeft st stream point written outcome (some st') next)
    (hwithin : st.Within (some limit)) :
    st'.Within (some limit) ∧
      st'.totalRawBytes.toNat = st.totalRawBytes.toNat + env.encodedBytes written := by
  have hretries := h.retries st' rfl
  obtain ⟨rawBytes, streamError, rfl, htotal⟩ := hretries.outcome
  -- an interrupted attempt reports the bytes that it wrote
  have hraw : rawBytes.toNat = env.encodedBytes written := h.ends.rawBytes_eq
  exact ⟨hretries.within hwithin, by rw [htotal, hraw]⟩

/-- An attempt knows the bytes of the earlier ones. -/
theorem attemptStep_below {retriesLeft : Nat} {st : RetryState}
    (hwithin : st.Within (some limit))
    (htotal : env.encodedBytes (writtenTransactions point.taken) = st.totalRawBytes.toNat)
    (hcut : BelowLimit env limit.toNat point) :
    Runs (BelowLimit env limit.toNat) (fun _ => True)
      (attemptStep env server (some limit) retriesLeft st) point (fun _ _ => True) := by
  obtain ⟨remaining, hremaining, hsum⟩ := hwithin
  unfold attemptStep
  refine (recordLiveTransactionStream_below hremaining (by omega) hcut).bind ?_
  intro outcome next hcut' _
  exact (hcut'.keeps (takes_nextAttempt _ _ _ _)).imp (fun _ _ _ _ => trivial)

/-- **The run rule**, by induction on the retries left: what an attempt writes is the start of
the next one. -/
theorem recordWithRetries_below {retriesLeft : Nat} {st : RetryState}
    (hwithin : st.Within (some limit))
    (htotal : env.encodedBytes (writtenTransactions point.taken) = st.totalRawBytes.toNat)
    (hcut : BelowLimit env limit.toNat point) :
    Runs (BelowLimit env limit.toNat) (fun _ => True)
      (recordWithRetries env server (some limit) retriesLeft st) point (fun _ _ => True) := by
  -- on the retries; between attempts the limit and the total add up to the budget
  induction retriesLeft generalizing st point with
  | zero =>
    rw [recordWithRetries_zero]
    exact (attemptStep_below hwithin htotal hcut).bind (fun _ _ hcut' _ => .pure hcut' trivial)
  | succ retriesLeft ih =>
    rw [recordWithRetries_succ]
    have haccounts := @attemptStep_accounts env server point False (some limit) (retriesLeft + 1)
      st False.elim
    refine ((attemptStep_below hwithin htotal hcut).and_post haccounts).bind ?_
    rintro found next hcut' ⟨-, stream, -, written, outcome, h⟩
    cases found with
    | none => exact .pure hcut' trivial
    | some st' =>
      -- the next attempt gets what this one has left
      obtain ⟨hwithin', htotal'⟩ := h.share hwithin
      refine ih hwithin' ?_ hcut'
      rw [h.inFiles.inSteps, RecordEnv.encodedBytes_append, htotal, htotal']

end Budget

/-! ## The attempts of a run -/

/-- An attempt of a run: what the retry loop knows at its start, and the steps it takes. -/
structure RecordAttempt where
  state : RetryState
  steps : List FsStep

/-- The transactions that an attempt records, in order. -/
def RecordAttempt.written (attempt : RecordAttempt) : List Transaction :=
  writtenTransactions attempt.steps

/-- The attempts of `recordWithRetries`, in order. -/
def recordAttempts (env : RecordEnv) (server : TransactionServer)
    (initialMaxRawBytes : Option UInt64) : (retriesLeft : Nat) → RetryState → OutDir →
      List RecordAttempt
  | 0, st, dir => [⟨st, (recordLiveTransactionStream env server st.attempt st.request dir).steps⟩]
  | retriesLeft + 1, st, dir =>
    ⟨st, (recordLiveTransactionStream env server st.attempt st.request dir).steps⟩ ::
      (attemptStep env server initialMaxRawBytes (retriesLeft + 1) st).listAfter
        (fun next dir => next.elim []
          (fun st => recordAttempts env server initialMaxRawBytes retriesLeft st dir)) dir

/-- The attempts of `recordLiveTransactionStreamWithRetries`. -/
def runAttempts (env : RecordEnv) (server : TransactionServer) (request : LiveRecordRequest)
    (maxStreamRetries : UInt64) (dir : OutDir) : List RecordAttempt :=
  recordAttempts env server request.maxRawBytes maxStreamRetries.toNat
    { request := request, totalRawBytes := 0, attempt := 0 } dir

section Attempts

variable {env : RecordEnv} {server : TransactionServer} {limit : UInt64}

theorem steps_attemptStep (initialMaxRawBytes : Option UInt64) (retriesLeft : Nat)
    (st : RetryState) (dir : OutDir) :
    (attemptStep env server initialMaxRawBytes retriesLeft st dir).steps =
      (recordLiveTransactionStream env server st.attempt st.request dir).steps := by
  unfold attemptStep
  rw [StoreM.steps_bind]
  refine (congrArg _ ?_).trans (List.append_nil _)
  -- what follows an attempt is not seen in the directory
  unfold StoreM.listAfter
  split
  · rfl
  · rename_i outcome hresult
    refine List.eq_nil_iff_forall_not_mem.2 (fun step hstep => ?_)
    exact (takes_nextAttempt _ _ _ _ : Takes (fun _ => False) _) _ step hstep

/-- The steps of a run are those of its attempts. -/
theorem steps_recordWithRetries (initialMaxRawBytes : Option UInt64) (retriesLeft : Nat)
    (st : RetryState) (dir : OutDir) :
    (recordWithRetries env server initialMaxRawBytes retriesLeft st dir).steps =
      (recordAttempts env server initialMaxRawBytes retriesLeft st dir).flatMap
        RecordAttempt.steps := by
  induction retriesLeft generalizing st dir with
  | zero =>
    rw [recordWithRetries_zero, StoreM.steps_bind, steps_attemptStep, recordAttempts,
      List.flatMap_singleton]
    exact (congrArg _ (StoreM.listAfter_nil _ _)).trans (List.append_nil _)
  | succ retriesLeft ih =>
    rw [recordWithRetries_succ, StoreM.steps_bind, steps_attemptStep, recordAttempts,
      List.flatMap_cons, StoreM.flatMap_listAfter]
    -- behind an attempt, either nothing follows or the other attempts do
    have hlater : (fun (next : Option RetryState) (dir : OutDir) => (next.elim (pure ())
        (recordWithRetries env server initialMaxRawBytes retriesLeft) dir).steps) =
        fun next dir => (next.elim [] (fun st =>
          recordAttempts env server initialMaxRawBytes retriesLeft st dir)).flatMap
            RecordAttempt.steps := by
      funext next dir
      cases next with
      | none => rfl
      | some st => exact ih st dir
    exact congrArg (fun later => _ ++ StoreM.listAfter _ later dir) hlater

/-- What a run records is what its attempts record. -/
theorem flatMap_runAttempts (env : RecordEnv) (server : TransactionServer)
    (request : LiveRecordRequest) (maxStreamRetries : UInt64) (dir : OutDir) :
    (runAttempts env server request maxStreamRetries dir).flatMap RecordAttempt.written =
      recordedTransactions env server request maxStreamRetries dir := by
  unfold recordedTransactions recordLiveTransactionStreamWithRetries
  rw [steps_recordWithRetries]
  unfold writtenTransactions
  rw [List.flatMap_assoc]
  rfl

/-- What holds of the attempts of a run that begins with `start` bytes: each knows the bytes
of the earlier ones, and its limit is what they leave of the limit of the run. -/
def AttemptsBudgeted (env : RecordEnv) (limit : UInt64) (start : Nat)
    (attempts : List RecordAttempt) : Prop :=
  ∀ earlier attempt later, attempts = earlier ++ attempt :: later →
    attempt.state.totalRawBytes.toNat =
        start + env.encodedBytes (earlier.flatMap RecordAttempt.written) ∧
      attempt.state.Within (some limit)

theorem AttemptsBudgeted.nil {start : Nat} : AttemptsBudgeted env limit start [] := by
  intro earlier attempt later hsplit
  cases earlier <;> cases hsplit

theorem AttemptsBudgeted.cons {attempt : RecordAttempt} {attempts : List RecordAttempt}
    (hwithin : attempt.state.Within (some limit))
    (h : AttemptsBudgeted env limit
      (attempt.state.totalRawBytes.toNat + env.encodedBytes attempt.written) attempts) :
    AttemptsBudgeted env limit attempt.state.totalRawBytes.toNat (attempt :: attempts) := by
  intro earlier other later hsplit
  cases earlier with
  -- the first attempt has the whole budget
  | nil =>
    obtain ⟨rfl, -⟩ := List.cons.inj hsplit
    exact ⟨rfl, hwithin⟩
  | cons first earlier =>
    obtain ⟨rfl, hrest⟩ := List.cons.inj hsplit
    obtain ⟨htotal, hother⟩ := h earlier other later hrest
    rw [List.flatMap_cons, RecordEnv.encodedBytes_append, ← Nat.add_assoc]
    exact ⟨htotal, hother⟩

/-- The share of each attempt, by induction on the retries left. -/
theorem recordAttempts_budgeted {retriesLeft : Nat} {st : RetryState} {dir : OutDir}
    (hwithin : st.Within (some limit)) :
    AttemptsBudgeted env limit st.totalRawBytes.toNat
      (recordAttempts env server (some limit) retriesLeft st dir) := by
  induction retriesLeft generalizing st dir with
  | zero => exact .cons hwithin .nil
  | succ retriesLeft ih =>
    rw [recordAttempts]
    refine .cons hwithin ?_
    have hstep := @attemptStep_accounts env server ⟨dir, []⟩ False (some limit) (retriesLeft + 1)
      st False.elim
    rcases hstep.listAfter_cases (fun next dir => next.elim []
      (fun st => recordAttempts env server (some limit) retriesLeft st dir)) with
      hnil | ⟨found, ⟨stream, -, written, outcome, h⟩, hlist⟩
    · rw [hnil]
      exact .nil
    · rw [hlist]
      cases found with
      | none => exact .nil
      | some st' =>
        obtain ⟨hwithin', htotal⟩ := h.share hwithin
        -- what the attempt wrote is what the trace shows of it
        have hsteps := h.inFiles.inSteps
        rw [Traced.taken_after, List.nil_append, writtenTransactions_nil, List.nil_append,
          steps_attemptStep] at hsteps
        rw [RecordAttempt.written, hsteps, ← htotal]
        exact ih hwithin'

end Attempts

/-- **The byte budget of a run.** Just before each recorded transaction, the bytes recorded so
far over all attempts are below the limit; the total exceeds the limit by less than the last
transaction; and the limit of each attempt is the difference between that of the run and the
bytes of the earlier attempts, without underflow. Wherever the run is cut off, its chunk files
hold the first of the transactions that it has recorded, and all of them if it ends well. -/
theorem recordedTransactions_within_limit (env : RecordEnv) (server : TransactionServer)
    {request : LiveRecordRequest} {limit : UInt64} (hlimit : request.maxRawBytes = some limit)
    (maxStreamRetries : UInt64) (dir : OutDir) :
    (∀ before tx after,
        recordedTransactions env server request maxStreamRetries dir = before ++ tx :: after →
        env.encodedBytes before < limit.toNat) ∧
      (∀ last ∈ (recordedTransactions env server request maxStreamRetries dir).getLast?,
        env.encodedBytes (recordedTransactions env server request maxStreamRetries dir) <
          limit.toNat + (env.encodedLen last).toNat) ∧
      (runAttempts env server request maxStreamRetries dir).flatMap RecordAttempt.written =
        recordedTransactions env server request maxStreamRetries dir ∧
      (∀ earlier attempt later,
        runAttempts env server request maxStreamRetries dir = earlier ++ attempt :: later →
        attempt.state.totalRawBytes.toNat =
            env.encodedBytes (earlier.flatMap RecordAttempt.written) ∧
          ∃ remaining, attempt.state.request.maxRawBytes = some remaining ∧
            remaining.toNat + attempt.state.totalRawBytes.toNat = limit.toNat) ∧
      (∀ taken, taken <+: (recordLiveTransactionStreamWithRetries env server request
          maxStreamRetries dir).steps → renamedTransactions taken <+: writtenTransactions taken) ∧
      ((recordLiveTransactionStreamWithRetries env server request maxStreamRetries
          dir).result = .ok () →
        renamedTransactions (recordLiveTransactionStreamWithRetries env server request
          maxStreamRetries dir).steps =
            recordedTransactions env server request maxStreamRetries dir) := by
  have hstart : RetryState.Within { request := request, totalRawBytes := 0, attempt := 0 }
      (some limit) := ⟨limit, hlimit, Nat.add_zero _⟩
  -- every cut of the run is below the limit, and so is its end
  have hrun := @recordWithRetries_below env server ⟨dir, []⟩ limit maxStreamRetries.toNat _ hstart
    rfl .nil
  have hbelow : env.Budgets limit.toNat 0
      (recordedTransactions env server request maxStreamRetries dir) := by
    unfold recordedTransactions recordLiveTransactionStreamWithRetries
    rw [hlimit]
    simpa [BelowLimit, Traced.after] using hrun.cut_end
  refine ⟨?_, ?_, flatMap_runAttempts env server request maxStreamRetries dir, ?_,
    fun taken => renamedTransactions_prefix env server request maxStreamRetries dir,
    renamedTransactions_eq_recorded env server request maxStreamRetries dir⟩
  · intro before tx after hsplit
    simpa [RecordEnv.encodedBytes] using hbelow before tx after hsplit
  · intro last hlast
    simpa [RecordEnv.encodedBytes] using hbelow.sum_lt hlast
  · intro earlier attempt later hsplit
    unfold runAttempts at hsplit
    rw [hlimit] at hsplit
    obtain ⟨htotal, hwithin⟩ := recordAttempts_budgeted hstart earlier attempt later hsplit
    exact ⟨by simpa using htotal, hwithin⟩

/-- Versions 7 to 12 with a limit of 20 bytes, at nine bytes each. -/
def limitedRequest : LiveRecordRequest := { shortRequest with maxRawBytes := some 20 }

/-- The first stream breaks off behind 18 bytes, and one more transaction is recorded by a second
attempt with the two bytes that are left. -/
theorem recordedTransactions_within_limit_twentyBytes :
    recordedTransactions sampleEnv shortServer limitedRequest 1 (.empty "raw") =
        [bareTransaction 7, bareTransaction 8, bareTransaction 9] ∧
      sampleEnv.encodedBytes [bareTransaction 7, bareTransaction 8] < 20 ∧
      renamedTransactions (recordLiveTransactionStreamWithRetries sampleEnv shortServer
          limitedRequest 1 (.empty "raw")).steps =
        [bareTransaction 7, bareTransaction 8, bareTransaction 9] := by
  have hrecorded : recordedTransactions sampleEnv shortServer limitedRequest 1 (.empty "raw") =
      [bareTransaction 7, bareTransaction 8, bareTransaction 9] := by decide +kernel
  have hok : (recordLiveTransactionStreamWithRetries sampleEnv shortServer limitedRequest 1
      (.empty "raw")).result = .ok () := by decide +kernel
  obtain ⟨hbefore, -, -, -, -, hfiles⟩ := @recordedTransactions_within_limit sampleEnv shortServer
    limitedRequest 20 rfl 1 (.empty "raw")
  exact ⟨hrecorded, hbefore _ _ [] hrecorded, (hfiles hok).trans hrecorded⟩

end HotIndex
