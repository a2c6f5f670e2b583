import HotIndex.Dataset.RecordRuns
import HotIndex.Dataset.RecordSteps

/-!
# The Recorder's Accounts

What a run records is read off its steps (`recordedTransactions`). The accounts that the loop
keeps, its count, its bytes and its chunks, agree with the transactions that it has written
(`RecordLoop.Accounts`), whatever the server sends. Wherever an attempt is cut off, the chunk
files hold the first of what was written (`WritesFirst`). The lemmas also say which errors are
possible: while no 64-bit number overflows, an attempt that delivers something can fail only
because a chunk file is in the way (`Excused`).
-/

namespace HotIndex

open Lib

/-! ## What a run writes -/

/-- The encoded bytes of some transactions. -/
def RecordEnv.encodedBytes (env : RecordEnv) (txs : List Transaction) : Nat :=
  (txs.map (fun tx => (env.encodedLen tx).toNat)).sum

@[simp] theorem RecordEnv.encodedBytes_nil (env : RecordEnv) : env.encodedBytes [] = 0 := rfl

@[simp] theorem RecordEnv.encodedBytes_append (env : RecordEnv) (a b : List Transaction) :
    env.encodedBytes (a ++ b) = env.encodedBytes a + env.encodedBytes b := by
  simp [RecordEnv.encodedBytes]

@[simp] theorem RecordEnv.encodedBytes_singleton (env : RecordEnv) (tx : Transaction) :
    env.encodedBytes [tx] = (env.encodedLen tx).toNat := by
  simp [RecordEnv.encodedBytes]

/-- The transactions that a run records, over all attempts, in order. -/
def recordedTransactions (env : RecordEnv) (server : TransactionServer)
    (request : LiveRecordRequest) (maxStreamRetries : UInt64) (dir : OutDir) :
    List Transaction :=
  writtenTransactions
    (recordLiveTransactionStreamWithRetries env server request maxStreamRetries dir).steps

/-- What holds wherever an attempt that began at `origin` is cut off: its chunk files hold what
it has written, up to some transaction. -/
def WritesFirst (origin point : Traced OutDir FsStep) : Prop :=
  ∃ written, writtenTransactions point.taken = writtenTransactions origin.taken ++ written ∧
    renamedTransactions point.taken <+: renamedTransactions origin.taken ++ written

/-- Behind an attempt that began at `origin`, all that it has written is in files. -/
structure InFiles (origin : Traced OutDir FsStep) (written : List Transaction)
    (point : Traced OutDir FsStep) : Prop where
  inSteps : writtenTransactions point.taken = writtenTransactions origin.taken ++ written
  renamed : renamedTransactions point.taken = renamedTransactions origin.taken ++ written

/-- A step that neither writes nor renames a transaction. -/
theorem InFiles.keep {origin point : Traced OutDir FsStep} {written : List Transaction}
    (h : InFiles origin written point) {step : FsStep} (hwritten : writtenTransactions [step] = [])
    (hrenamed : renamedTransactions [step] = []) : InFiles origin written (point.after [step]) where
  inSteps := by
    rw [Traced.taken_after, writtenTransactions_append, hwritten, List.append_nil]
    exact h.inSteps
  renamed := by
    rw [Traced.taken_after, renamedTransactions_append, hrenamed, List.append_nil]
    exact h.renamed

namespace WritesFirst

variable {origin point : Traced OutDir FsStep}

theorem refl (origin : Traced OutDir FsStep) : WritesFirst origin origin :=
  ⟨[], (List.append_nil _).symm, by rw [List.append_nil]⟩

/-- A step that neither writes nor renames a transaction. -/
theorem keep (h : WritesFirst origin point) {step : FsStep}
    (hwritten : writtenTransactions [step] = []) (hrenamed : renamedTransactions [step] = []) :
    WritesFirst origin (point.after [step]) := by
  unfold WritesFirst
  rw [Traced.taken_after, writtenTransactions_append, renamedTransactions_append, hwritten,
    hrenamed, List.append_nil, List.append_nil]
  exact h

/-- An attempt behind one whose transactions are all in files. -/
theorem behind {mid : Traced OutDir FsStep} {written : List Transaction}
    (h : WritesFirst mid point) (hmid : InFiles origin written mid) :
    WritesFirst origin point := by
  obtain ⟨later, hlater, hprefix⟩ := h
  refine ⟨written ++ later, ?_, ?_⟩
  · rw [hlater, hmid.inSteps, List.append_assoc]
  · rwa [hmid.renamed, List.append_assoc] at hprefix

end WritesFirst

/-! ## Errors -/

/-- While `fits` holds, the only error is that a chunk file is in the way. -/
def Excused (fits : Prop) (error : RecordError) : Prop :=
  fits → ∃ path, error = .refuseChunk path

/-- The transactions that some chunks count. -/
def transactionsIn (chunks : List ChunkRecord) : Nat :=
  (chunks.map (fun chunk => chunk.transactionCount.toNat)).sum

/-- The 64-bit numbers of an attempt that writes these transactions do not overflow. -/
structure LiveRecordRequest.Fits (request : LiveRecordRequest) (env : RecordEnv)
    (txs : List Transaction) : Prop where
  bytes : env.encodedBytes txs < UInt64.size
  count : transactionsIn request.previousChunks + txs.length < UInt64.size
  versions : ∀ tx ∈ txs, tx.version.toNat + 1 < UInt64.size

theorem LiveRecordRequest.Fits.of_append {request : LiveRecordRequest} {env : RecordEnv}
    {txs rest : List Transaction} (h : request.Fits env (txs ++ rest)) :
    request.Fits env txs := by
  obtain ⟨hbytes, hcount, hversions⟩ := h
  rw [RecordEnv.encodedBytes_append] at hbytes
  rw [List.length_append] at hcount
  exact ⟨by omega, by omega, fun tx htx => hversions tx (List.mem_append_left _ htx)⟩

theorem LiveRecordRequest.Fits.versions_last {request : LiveRecordRequest} {env : RecordEnv}
    {txs : List Transaction} (h : request.Fits env txs) (hne : txs ≠ []) :
    (lastVersionOf txs).toNat + 1 < UInt64.size := by
  obtain ⟨init, tx, rfl⟩ := List.eq_nil_or_concat txs |>.resolve_left hne
  rw [List.concat_eq_append, lastVersionOf_concat]
  exact h.versions tx (by simp)

/-- A fallible computation beside the directory. -/
theorem Excused.lift_bind {α β : Type} {fits : Prop} {cut : Traced OutDir FsStep → Prop}
    {point : Traced OutDir FsStep} {x : Except HotIndexError α} {f : α → RecordM β}
    {post : β → Traced OutDir FsStep → Prop} (hcut : cut point) (hok : fits → ∃ a, x = .ok a)
    (h : ∀ a, x = .ok a → Runs cut (Excused fits) (f a) point post) :
    Runs cut (Excused fits) (RecordM.lift x >>= f) point post := by
  refine .ofExcept_bind hcut ?_ (fun a ha => h a (lift_ok ha))
  intro error herror hfits
  obtain ⟨a, rfl⟩ := hok hfits
  cases herror

theorem totalTransactionCount_of_lt {chunks : List ChunkRecord}
    (h : transactionsIn chunks < UInt64.size) :
    ∃ total, totalTransactionCount chunks = .ok total := by
  have hstart : (0 : UInt64).toNat + transactionsIn chunks < UInt64.size := by simpa using h
  refine exists_foldlM_eq_ok
    (P := fun rest acc => acc.toNat + transactionsIn rest < UInt64.size) hstart ?_
  intro chunk rest acc hlt
  rw [transactionsIn, List.map_cons, List.sum_cons, ← transactionsIn] at hlt
  have hadd : acc.toNat + chunk.transactionCount.toNat < UInt64.size := by omega
  refine ⟨acc + chunk.transactionCount, if_pos hadd, ?_⟩
  rw [UInt64.toNat_add, Nat.mod_eq_of_lt hadd]
  omega

theorem checkedNextVersion_of_lt {version : UInt64} (h : version.toNat + 1 < UInt64.size) :
    ∃ next, checkedNextVersion version = .ok next := by
  refine ⟨version + 1, checkedNextVersion_eq_ok_iff.2 ?_⟩
  rw [UInt64.toNat_add]
  exact Nat.mod_eq_of_lt h

theorem addRawBytes_eq_ok {rawBytes bytesWritten total : UInt64}
    (h : addRawBytes rawBytes bytesWritten = .ok total) :
    total.toNat = rawBytes.toNat + bytesWritten.toNat := by
  unfold addRawBytes at h
  split_ifs at h with hlt
  obtain rfl := Except.ok.inj h
  rw [UInt64.toNat_add]
  exact Nat.mod_eq_of_lt hlt

theorem addRawBytes_of_lt {rawBytes bytesWritten : UInt64}
    (h : rawBytes.toNat + bytesWritten.toNat < UInt64.size) :
    ∃ total, addRawBytes rawBytes bytesWritten = .ok total :=
  ⟨_, if_pos h⟩

/-! ## The accounts of the loop -/

namespace RecordLoop

/-- The transactions of the active chunk. -/
def activeTransactions (loop : RecordLoop) : List Transaction :=
  loop.activeChunk.elim [] ActiveChunk.written

/-- The transactions that the chunks of the loop and its active chunk count. -/
def countedTransactions (loop : RecordLoop) : Nat :=
  transactionsIn loop.chunks +
    loop.activeChunk.elim 0 (fun chunk => chunk.transactionCount.toNat)

/-- The loop of an attempt that began at `origin` and has written these transactions: what it
notes of them, and where they are. -/
structure Accounts (env : RecordEnv) (request : LiveRecordRequest)
    (origin : Traced OutDir FsStep) (loop : RecordLoop) (written : List Transaction)
    (point : Traced OutDir FsStep) : Prop where
  counts : loop.Counts written
  rawBytes : loop.uncompressedRawBytes.toNat = env.encodedBytes written
  counted : loop.countedTransactions ≤ transactionsIn request.previousChunks + written.length
  active : ∀ chunk ∈ loop.activeChunk, chunk.lastVersion ≠ none
  inSteps : writtenTransactions point.taken = writtenTransactions origin.taken ++ written
  inFiles : renamedTransactions point.taken ++ loop.activeTransactions =
    renamedTransactions origin.taken ++ written
  keys : point.store.keyFiles = origin.store.keyFiles

end RecordLoop

section Accounts

variable {env : RecordEnv} {server : TransactionServer} {request : LiveRecordRequest}
  {origin point : Traced OutDir FsStep} {loop : RecordLoop} {written : List Transaction}
  {fits : Prop}

/-- The files hold the transactions in front of the active chunk. -/
theorem RecordLoop.Accounts.writesFirst (h : loop.Accounts env request origin written point) :
    WritesFirst origin point :=
  ⟨written, h.inSteps, ⟨_, h.inFiles⟩⟩

/-- Closing the active chunk moves its transactions to a file. -/
theorem finishActiveChunk_accounts (h : loop.Accounts env request origin written point) :
    Runs (WritesFirst origin) (Excused fits) (finishActiveChunk env loop) point
      (fun loop' next => loop'.Accounts env request origin written next ∧
        loop' = { loop with activeChunk := none, chunks := loop'.chunks }) := by
  have hcut := h.writesFirst
  unfold finishActiveChunk
  cases hactive : loop.activeChunk with
  | none =>
    refine .pure hcut ⟨h, ?_⟩
    rw [← hactive]
  | some chunk =>
    have hinFiles := h.inFiles
    unfold RecordLoop.activeTransactions at hinFiles
    rw [hactive, Option.elim_some] at hinFiles
    -- the chunk has a last version, so it can only be refused
    cases hlast : chunk.lastVersion with
    | none => exact absurd hlast (h.active chunk hactive)
    | some lastVersion =>
      have hfinish : Runs (WritesFirst origin) (Excused fits) (chunk.finish env) point
          (fun record next => record.transactionCount = chunk.transactionCount ∧
            writtenTransactions next.taken = writtenTransactions point.taken ∧
            renamedTransactions next.taken =
              renamedTransactions point.taken ++ chunk.written ∧
            next.store.keyFiles = point.store.keyFiles) := by
        unfold ActiveChunk.finish
        simp only [hlast]
        refine .read_bind hcut ?_
        unfold ActiveChunk.rename
        simp only
        split_ifs
        · exact .fail hcut (fun _ => ⟨_, rfl⟩)
        · set step := FsStep.renameChunk chunk.tmpName
            (chunkFileName chunk.firstVersion lastVersion) chunk.written
          have hwritten : writtenTransactions (point.after [step]).taken =
              writtenTransactions point.taken := by
            rw [Traced.taken_after, writtenTransactions_append]
            exact List.append_nil _
          have hrenamed : renamedTransactions (point.after [step]).taken =
              renamedTransactions point.taken ++ chunk.written := by
            rw [Traced.taken_after, renamedTransactions_append]
            exact congrArg _ (List.append_nil _)
          refine .perform_bind hcut (.pure ⟨written, hwritten.trans h.inSteps, ?_⟩
            ⟨rfl, hwritten, hrenamed, rfl⟩)
          rw [hrenamed, hinFiles]
      refine hfinish.bind ?_
      rintro record next hcut' ⟨hcount, hwritten, hrenamed, hkeys⟩
      refine .pure hcut' ⟨⟨⟨h.counts.lastVersion, h.counts.count⟩, h.rawBytes, ?_, nofun,
        hwritten.trans h.inSteps, ?_, hkeys.trans h.keys⟩, rfl⟩
      · have hcounted := h.counted
        unfold RecordLoop.countedTransactions at hcounted ⊢
        rw [hactive] at hcounted
        simpa [transactionsIn, hcount] using hcounted
      · unfold RecordLoop.activeTransactions
        rw [hrenamed, hinFiles]
        exact List.append_nil _

theorem RecordLoop.Accounts.transactionsIn_le
    (h : loop.Accounts env request origin written point) :
    transactionsIn loop.chunks ≤ transactionsIn request.previousChunks + written.length := by
  have := h.counted
  unfold RecordLoop.countedTransactions at this
  omega

/-- A checkpoint names the chunks of the loop and a version to start from. -/
theorem writeRecordCheckpoint_accounts {status : RecordStatus} {message : String}
    {last : UInt64} {streamError : Option String} (hcut : WritesFirst origin point)
    (hcount : fits → transactionsIn loop.chunks < UInt64.size)
    (hlast : fits → last.toNat + 1 < UInt64.size) :
    Runs (WritesFirst origin) (Excused fits)
      (writeRecordCheckpoint request loop status message last streamError) point
      (fun _ next => ∃ checkpoint, next = point.after [.replaceCheckpoint checkpoint] ∧
        checkpoint.chunks = loop.chunks ∧ checkpoint.nextStartVersion ≠ none) := by
  unfold writeRecordCheckpoint
  -- within the bounds neither sum overflows
  refine Excused.lift_bind hcut (fun hfits => totalTransactionCount_of_lt (hcount hfits))
    (fun total _ => ?_)
  refine Excused.lift_bind hcut (fun hfits => checkedNextVersion_of_lt (hlast hfits))
    (fun nextStartVersion _ => ?_)
  exact .perform hcut (hcut.keep rfl rfl) ⟨_, rfl, rfl, nofun⟩

/-! ## The loop -/

/-- A checkpoint in between changes no account. -/
theorem RecordLoop.Accounts.replaceCheckpoint
    (h : loop.Accounts env request origin written point) (checkpoint : RecordCheckpoint) :
    loop.Accounts env request origin written (point.after [.replaceCheckpoint checkpoint]) where
  counts := h.counts
  rawBytes := h.rawBytes
  counted := h.counted
  active := h.active
  -- a checkpoint writes and renames no transaction
  inSteps := by
    rw [Traced.taken_after, writtenTransactions_append]
    exact (List.append_nil _).trans h.inSteps
  inFiles := by
    rw [Traced.taken_after, renamedTransactions_append]
    simpa [renamedTransactions] using h.inFiles
  keys := h.keys

theorem flushFullChunk_accounts {writer : ActiveChunk}
    (h : loop.Accounts env request origin written point) {tx : Transaction}
    (hlast : loop.lastVersion = some tx.version) (htx : tx ∈ written)
    (hfits : fits → request.Fits env written) :
    Runs (WritesFirst origin) (Excused fits) (flushFullChunk env request writer loop) point
      (fun loop' next => loop'.Accounts env request origin written next ∧
        loop'.stoppedAtByteLimit = loop.stoppedAtByteLimit) := by
  unfold flushFullChunk
  split_ifs
  · refine (finishActiveChunk_accounts h).bind ?_
    rintro loop' next - ⟨h', hloop'⟩
    -- the checkpoint takes over the version that was written last
    have hversion : loop'.lastVersion.getD request.startVersion = tx.version := by
      rw [hloop', hlast]
      rfl
    rw [hversion]
    refine (writeRecordCheckpoint_accounts h'.writesFirst ?_ ?_).bind ?_
    · intro hf
      exact lt_of_le_of_lt h'.transactionsIn_le (hfits hf).count
    · exact fun hf => (hfits hf).versions tx htx
    · rintro _ _ hcut ⟨checkpoint, rfl, -, -⟩
      refine .pure hcut ⟨h'.replaceCheckpoint checkpoint, ?_⟩
      rw [hloop']
  · exact .pure h.writesFirst ⟨h, rfl⟩

/-- The active chunk is there, or created. -/
theorem openActiveChunk_accounts (h : loop.Accounts env request origin written point)
    (version : UInt64) :
    Runs (WritesFirst origin) (Excused fits) (openActiveChunk env loop version) point
      (fun chunk next =>
        transactionsIn loop.chunks + chunk.transactionCount.toNat ≤
          transactionsIn request.previousChunks + written.length ∧
        writtenTransactions next.taken = writtenTransactions origin.taken ++ written ∧
        renamedTransactions next.taken ++ chunk.written =
          renamedTransactions origin.taken ++ written ∧
        next.store.keyFiles = origin.store.keyFiles) := by
  have hcut := h.writesFirst
  have hcounted := h.counted
  have hinFiles := h.inFiles
  unfold RecordLoop.countedTransactions at hcounted
  unfold RecordLoop.activeTransactions at hinFiles
  unfold openActiveChunk
  cases hactive : loop.activeChunk with
  -- a new chunk has written nothing yet
  | none =>
    rw [hactive] at hcounted hinFiles
    refine .perform_bind hcut (.pure (hcut.keep rfl rfl) ⟨hcounted, ?_, ?_, h.keys⟩)
    · rw [Traced.taken_after, writtenTransactions_append]
      exact (List.append_nil _).trans h.inSteps
    · rw [Traced.taken_after, renamedTransactions_append]
      simpa [renamedTransactions] using hinFiles
  | some chunk =>
    rw [hactive] at hcounted hinFiles
    exact .pure hcut ⟨hcounted, h.inSteps, hinFiles, h.keys⟩

/-- **The step.** One more transaction is in the accounts. -/
theorem writeTransaction_accounts (h : loop.Accounts env request origin written point)
    {tx : Transaction} (hfits : fits → request.Fits env (written ++ [tx])) :
    Runs (WritesFirst origin) (Excused fits) (writeTransaction env request loop tx) point
      (fun loop' next => loop'.Accounts env request origin (written ++ [tx]) next ∧
        loop'.stoppedAtByteLimit = loop.stoppedAtByteLimit) := by
  unfold writeTransaction
  refine (openActiveChunk_accounts h tx.version).bind ?_
  rintro opened next hcut ⟨hcounted, hwritten, hinFiles, hkeys⟩
  unfold ActiveChunk.writeTransaction
  rw [StoreM.bind_assoc]
  -- the transaction is in the temporary chunk before the loop counts it
  have hwritten' : writtenTransactions (next.after [.writeTmpChunk opened.tmpName tx]).taken =
      writtenTransactions origin.taken ++ (written ++ [tx]) := by
    rw [Traced.taken_after, writtenTransactions_append, hwritten, List.append_assoc]
    rfl
  have hinFiles' : renamedTransactions (next.after [.writeTmpChunk opened.tmpName tx]).taken ++
      (opened.push tx).written = renamedTransactions origin.taken ++ (written ++ [tx]) := by
    rw [Traced.taken_after, renamedTransactions_append,
      show renamedTransactions [.writeTmpChunk opened.tmpName tx] = [] from rfl, List.append_nil,
      show (opened.push tx).written = opened.written ++ [tx] from rfl, ← List.append_assoc,
      hinFiles, List.append_assoc]
  have hcut' : WritesFirst origin (next.after [.writeTmpChunk opened.tmpName tx]) :=
    ⟨_, hwritten', ⟨_, hinFiles'⟩⟩
  refine .perform_bind hcut ?_
  refine Excused.lift_bind hcut' (fun hf => addRawBytes_of_lt ?_) (fun rawBytes hraw => ?_)
  · have hbytes := (hfits hf).bytes
    rwa [RecordEnv.encodedBytes_append, RecordEnv.encodedBytes_singleton, ← h.rawBytes] at hbytes
  · refine flushFullChunk_accounts ⟨⟨?_, ?_⟩, ?_, ?_, ?_, hwritten', hinFiles', hkeys⟩ rfl
      (by simp) hfits
    · simp
    · rw [h.counts.count, List.length_append, List.length_singleton, UInt64.ofNat_add]
      rfl
    · rw [RecordEnv.encodedBytes_append, RecordEnv.encodedBytes_singleton, ← h.rawBytes]
      exact addRawBytes_eq_ok hraw
    · -- the 64-bit counter of the chunk grows by one at most
      have hgrows : (opened.transactionCount + 1).toNat ≤ opened.transactionCount.toNat + 1 := by
        rw [UInt64.toNat_add]
        exact Nat.mod_le _ _
      rw [List.length_append, List.length_singleton]
      show transactionsIn loop.chunks + (opened.transactionCount + 1).toNat ≤ _
      omega
    · rintro _ ⟨⟩
      exact nofun

theorem RecordLoop.Accounts.stopAtByteLimit
    (h : loop.Accounts env request origin written point) :
    (stopAtByteLimit request loop).Accounts env request origin written point :=
  ⟨⟨h.counts.lastVersion, h.counts.count⟩, h.rawBytes, h.counted, h.active, h.inSteps, h.inFiles,
    h.keys⟩

theorem RecordLoop.Accounts.withChainId
    (h : loop.Accounts env request origin written point) (chainId : Option UInt64) :
    RecordLoop.Accounts env request origin { loop with chainId := chainId } written point :=
  ⟨⟨h.counts.lastVersion, h.counts.count⟩, h.rawBytes, h.counted, h.active, h.inSteps, h.inFiles,
    h.keys⟩

/-- How far a loop gets with `txs`, of which it writes `out`: to the end, or to the limit. -/
structure RecordLoop.Reaches (loop : RecordLoop) (request : LiveRecordRequest)
    (txs out : List Transaction) : Prop where
  isPrefix : out <+: txs
  all : loop.stoppedAtByteLimit = false → out = txs
  stopped : loop.stoppedAtByteLimit = true → byteLimitReached request loop = true

/-- A loop that was not stopped has got to the end of nothing. -/
theorem RecordLoop.Reaches.nil (hrunning : loop.stoppedAtByteLimit = false) :
    loop.Reaches request [] [] where
  isPrefix := List.prefix_refl _
  all := fun _ => rfl
  stopped := by
    rw [hrunning]
    exact nofun

/-- At the limit the loop stops. -/
theorem RecordLoop.Reaches.stopAtByteLimit {txs out : List Transaction} (h : out <+: txs)
    (hlimit : byteLimitReached request loop = true) :
    (HotIndex.stopAtByteLimit request loop).Reaches request txs out where
  isPrefix := h
  all := by
    intro hfalse
    rw [show (HotIndex.stopAtByteLimit request loop).stoppedAtByteLimit =
      byteLimitReached request loop from rfl, hlimit] at hfalse
    cases hfalse
  stopped := fun _ => hlimit

/-- The transactions of a response, by induction: the first of them are written. -/
theorem recordTransactions_accounts {txs : List Transaction}
    (h : loop.Accounts env request origin written point)
    (hrunning : loop.stoppedAtByteLimit = false)
    (hfits : fits → request.Fits env (written ++ txs)) :
    Runs (WritesFirst origin) (Excused fits) (recordTransactions env request loop txs) point
      (fun loop' next => ∃ out, loop'.Accounts env request origin (written ++ out) next ∧
        loop'.Reaches request txs out) := by
  induction txs generalizing written loop point with
  | nil => exact .pure h.writesFirst ⟨[], by rwa [List.append_nil], .nil hrunning⟩
  | cons tx rest ih =>
    have hfits' : fits → request.Fits env (written ++ [tx] ++ rest) := by
      intro hf
      rw [List.append_assoc]
      exact hfits hf
    unfold recordTransactions
    -- the byte limit is tested before the transaction and behind it
    split_ifs with hbefore
    · refine .pure h.writesFirst ⟨[], ?_, .stopAtByteLimit List.nil_prefix hbefore⟩
      rw [List.append_nil]
      exact h.stopAtByteLimit
    · refine (writeTransaction_accounts h (fun hf => (hfits' hf).of_append)).bind ?_
      rintro loop' next hcut ⟨h', hrunning'⟩
      split_ifs with hafter
      · exact .pure hcut ⟨[tx], h'.stopAtByteLimit, .stopAtByteLimit ⟨rest, rfl⟩ hafter⟩
      · refine (ih h' (hrunning'.trans hrunning) hfits').imp ?_
        rintro loop'' _ - ⟨out, h'', hreaches⟩
        refine ⟨tx :: out, ?_, ?_⟩
        · rwa [List.append_assoc] at h''
        · exact ⟨(List.prefix_cons_inj tx).2 hreaches.isPrefix,
            fun hf => by rw [hreaches.all hf], hreaches.stopped⟩

/-- The responses of a stream, by induction. -/
theorem recordResponses_accounts {responses : List StreamResponse}
    (h : loop.Accounts env request origin written point)
    (hrunning : loop.stoppedAtByteLimit = false)
    (hfits : fits → request.Fits env
      (written ++ responses.flatMap StreamResponse.transactions)) :
    Runs (WritesFirst origin) (Excused fits) (recordResponses env request loop responses) point
      (fun loop' next => ∃ out, loop'.Accounts env request origin (written ++ out) next ∧
        loop'.Reaches request (responses.flatMap StreamResponse.transactions) out) := by
  induction responses generalizing written loop point with
  | nil => exact .pure h.writesFirst ⟨[], by rwa [List.append_nil], .nil hrunning⟩
  | cons response rest ih =>
    have hfits' : fits → request.Fits env (written ++ response.transactions ++
        rest.flatMap StreamResponse.transactions) := by
      intro hf
      have := hfits hf
      rwa [List.flatMap_cons, ← List.append_assoc] at this
    unfold recordResponses
    refine (recordTransactions_accounts (h.withChainId (response.chainId.or loop.chainId))
      hrunning (fun hf => (hfits' hf).of_append)).bind ?_
    rintro loop' next hcut ⟨out, h', hreaches⟩
    simp only [List.flatMap_cons]
    split_ifs with hstopped
    · refine .pure hcut ⟨out, h', ?_⟩
      refine ⟨hreaches.isPrefix.trans (List.prefix_append _ _), fun hf => ?_, hreaches.stopped⟩
      rw [hstopped] at hf
      cases hf
    · -- the response was written to its end, and the loop goes on behind it
      have hall := hreaches.all (by simpa using hstopped)
      rw [hall] at h'
      refine (ih h' (by simpa using hstopped) hfits').imp ?_
      rintro loop'' _ - ⟨out', h'', hreaches'⟩
      refine ⟨response.transactions ++ out', by rwa [List.append_assoc] at h'', ?_⟩
      exact ⟨(List.prefix_append_right_inj _).2 hreaches'.isPrefix,
        fun hf => by rw [hreaches'.all hf], hreaches'.stopped⟩

end Accounts

end HotIndex
