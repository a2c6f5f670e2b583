import HotIndex.Dataset.RecordAttempts

/-!
# Which Interruptions a Run Survives

A stream that breaks off is retried from the next version, as often as the retries allow, if
it delivered something. One that breaks off before its first transaction ends the run with an
error, also behind attempts that recorded and with retries left. So a run whose server
delivers the whole range within the retries ends well if and only if none of the streams that
it asks for breaks off empty (`survives_iff_advances`).
-/

namespace HotIndex

open Lib

/-! ## The server's part -/

/-- The stream ends with an error. -/
def TransactionStream.breaksOff (stream : TransactionStream) : Bool :=
  match stream.ending with
  | .closed => false
  | .failed _ => true

/-- Asked for the versions from `startVersion` to `endVersion`, the server answers with these
streams in turn: each but the last breaks off and is followed by one for the rest, and the last
one delivers the rest. -/
def TransactionServer.Delivers (server : TransactionServer) (endVersion : UInt64) :
    (attempt : Nat) → (startVersion : UInt64) → List TransactionStream → Prop
  | _, _, [] => False
  | attempt, startVersion, stream :: rest =>
    startVersion ≤ endVersion ∧
      server attempt startVersion (endVersion - startVersion + 1) = .ok stream ∧
      (startVersion.toNat + stream.delivered.length = endVersion.toNat + 1 ∧ rest = [] ∨
        stream.breaksOff = true ∧
          startVersion.toNat + stream.delivered.length ≤ endVersion.toNat ∧
          server.Delivers endVersion (attempt + 1)
            (startVersion + UInt64.ofNat stream.delivered.length) rest)

/-- All that some streams deliver. -/
def deliveredBy (streams : List TransactionStream) : List Transaction :=
  streams.flatMap TransactionStream.delivered

/-- No stream breaks off before its first transaction, apart from those that are not asked for
because `start` and the bytes of the earlier ones reach the byte limit. -/
def Advances (env : RecordEnv) (maxRawBytes : Option UInt64) (start : Nat)
    (streams : List TransactionStream) : Prop :=
  ∀ earlier stream later, streams = earlier ++ stream :: later → stream.breaksOff = true →
    stream.delivered = [] →
    LimitReached maxRawBytes (start + env.encodedBytes (deliveredBy earlier))

namespace Advances

variable {env : RecordEnv} {maxRawBytes : Option UInt64} {start : Nat}

theorem nil : Advances env maxRawBytes start [] := by
  intro earlier stream later hsplit
  cases earlier <;> cases hsplit

theorem cons_iff {stream : TransactionStream} {rest : List TransactionStream} :
    Advances env maxRawBytes start (stream :: rest) ↔
      (stream.breaksOff = true → stream.delivered = [] → LimitReached maxRawBytes start) ∧
        Advances env maxRawBytes (start + env.encodedBytes stream.delivered) rest := by
  constructor
  · intro h
    refine ⟨h [] stream rest rfl, ?_⟩
    -- the bytes of the first stream count for all that come after it
    intro earlier other later hsplit hbreaks hempty
    have hreached := h (stream :: earlier) other later (by rw [hsplit]; rfl) hbreaks hempty
    unfold deliveredBy at hreached
    rwa [List.flatMap_cons, RecordEnv.encodedBytes_append, ← Nat.add_assoc] at hreached
  · rintro ⟨hfirst, hrest⟩ earlier other later hsplit hbreaks hempty
    -- the stream that breaks off is the first one or one of the rest
    cases earlier with
    | nil =>
      obtain ⟨rfl, -⟩ := List.cons.inj hsplit
      exact hfirst hbreaks hempty
    | cons first earlier =>
      obtain ⟨rfl, hlater⟩ := List.cons.inj hsplit
      have hreached := hrest earlier other later hlater hbreaks hempty
      unfold deliveredBy
      rwa [List.flatMap_cons, RecordEnv.encodedBytes_append, ← Nat.add_assoc]

/-- Behind the limit nothing is asked for. -/
theorem of_reached (h : LimitReached maxRawBytes start) (streams : List TransactionStream) :
    Advances env maxRawBytes start streams := by
  intro earlier stream later _ _ _
  obtain ⟨limit, hlimit, hle⟩ := h
  exact ⟨limit, hlimit, hle.trans (Nat.le_add_right _ _)⟩

end Advances

/-! ## Key files -/

/-- The directory has no key file for versions from this one on. -/
def OutDir.KeysBefore (dir : OutDir) (version : UInt64) : Prop :=
  ∀ first last, version ≤ first → dir.keyFiles.get? ⟨keyFileName first last⟩ = none

theorem keyFileName_inj {start last start' last' : UInt64}
    (h : keyFileName start last = keyFileName start' last') : start = start' := by
  have hdigit : ∀ n : UInt64, '_' ∉ (toString n).toList := by
    intro n
    rw [RustText.toList_toString_uInt64]
    exact Nat.underscore_not_in_toDigits
  have hlist := congrArg String.toList h
  unfold keyFileName at hlist
  simp only [String.toList_append, List.append_assoc, List.append_cancel_left_eq] at hlist
  -- the number before the second underscore is the start
  have hstart := (append_sep_inj (hdigit start) (hdigit start') hlist).1
  have hparse := RustText.parseU64_toString start
  rw [String.toList_inj.1 hstart, RustText.parseU64_toString] at hparse
  exact (Option.some.inj hparse).symm

/-- The key file of an attempt is in no later one's way. -/
theorem OutDir.KeysBefore.of_insert {dir dir' : OutDir} {version version' last : UInt64}
    {versions : List UInt64} (h : dir.KeysBefore version) (hlt : version < version')
    (hkeys : dir'.keyFiles = dir.keyFiles.insert ⟨keyFileName version last⟩ versions) :
    dir'.KeysBefore version' := by
  intro first last' hle
  rw [hkeys, SortedMap.get?_insert_of_ne]
  · exact h first last' (hlt.le.trans hle)
  · -- the new key file starts at `version`, which lies before `version'`
    intro hname
    have := keyFileName_inj (congrArg Text.str hname)
    exact absurd (this ▸ hle) (not_le.2 hlt)

/-! ## One attempt -/

/-- Where a run stands before an attempt: the streams to come, the retries that are left for
them, and that nothing overflows or is in the way. -/
structure RetryState.Tolerates (st : RetryState) (env : RecordEnv) (server : TransactionServer)
    (maxRawBytes : Option UInt64) (retriesLeft : Nat) (dir : OutDir)
    (streams : List TransactionStream) : Prop where
  delivers : server.Delivers st.request.endVersion st.attempt st.request.startVersion streams
  retries : streams.countP TransactionStream.breaksOff ≤ retriesLeft
  bytes : st.totalRawBytes.toNat + env.encodedBytes (deliveredBy streams) < UInt64.size
  endVersion : st.request.endVersion.toNat + 1 < UInt64.size
  previous : transactionsIn st.request.previousChunks ≤ st.request.startVersion.toNat
  keys : dir.KeysBefore st.request.startVersion
  within : st.Within maxRawBytes
  notReached : ¬ LimitReached maxRawBytes st.totalRawBytes.toNat

section Attempt

variable {env : RecordEnv} {server : TransactionServer} {maxRawBytes : Option UInt64}
  {retriesLeft : Nat} {st : RetryState} {point : Traced OutDir FsStep}
  {stream : TransactionStream} {rest : List TransactionStream}

/-- Below the limit of the run, the attempt has some of it left. -/
theorem RetryState.Within.ne_zero (h : st.Within maxRawBytes)
    (hnot : ¬ LimitReached maxRawBytes st.totalRawBytes.toNat) :
    st.request.maxRawBytes ≠ some 0 := by
  intro hzero
  -- without a limit there is nothing that could remain as zero
  cases maxRawBytes with
  | none =>
    rw [show st.request.maxRawBytes = none from h] at hzero
    cases hzero
  | some limit =>
    obtain ⟨remaining, hremaining, hsum⟩ := h
    obtain rfl : remaining = 0 := Option.some.inj (hremaining.symm.trans hzero)
    refine hnot ⟨limit, rfl, ?_⟩
    rw [← hsum]
    exact (Nat.zero_add _).le

/-- What the attempt reached of its own limit, the run reached of its limit. -/
theorem RetryState.Within.reached (h : st.Within maxRawBytes) {bytes : Nat}
    (hreached : ∃ limit, st.request.maxRawBytes = some limit ∧ limit.toNat ≤ bytes) :
    LimitReached maxRawBytes (st.totalRawBytes.toNat + bytes) := by
  obtain ⟨limit, hlimit, hle⟩ := hreached
  cases maxRawBytes with
  | none =>
    rw [show st.request.maxRawBytes = none from h] at hlimit
    cases hlimit
  | some runLimit =>
    -- the limit of an attempt is what is left of that of the run
    obtain ⟨remaining, hremaining, hsum⟩ := h
    obtain rfl : limit = remaining := Option.some.inj (hlimit.symm.trans hremaining)
    exact ⟨runLimit, rfl, by omega⟩

theorem LimitReached.mono {total total' : Nat} (h : LimitReached maxRawBytes total)
    (hle : total ≤ total') : LimitReached maxRawBytes total' := by
  obtain ⟨limit, hlimit, hreached⟩ := h
  exact ⟨limit, hlimit, hreached.trans hle⟩

namespace RetryState.Tolerates

variable (h : st.Tolerates env server maxRawBytes retriesLeft point.store (stream :: rest))
include h

theorem answer : server st.attempt st.request.startVersion
    (st.request.endVersion - st.request.startVersion + 1) = .ok stream := h.delivers.2.1

/-- No stream delivers versions behind the last one asked for. -/
theorem length_le : st.request.startVersion.toNat + stream.delivered.length ≤
    st.request.endVersion.toNat + 1 := by
  obtain ⟨-, -, ⟨hlength, -⟩ | ⟨-, hlength, -⟩⟩ := h.delivers
  · exact hlength.le
  · omega

/-- A stream that delivers something, or is not asked for, can be attempted. -/
theorem canAttempt (hserver : server.Consecutive)
    (hadvances : Advances env maxRawBytes st.totalRawBytes.toNat (stream :: rest)) :
    st.CanAttempt env server retriesLeft point stream := by
  have hbytes := h.bytes
  unfold deliveredBy at hbytes
  rw [List.flatMap_cons, RecordEnv.encodedBytes_append] at hbytes
  have hlength := h.length_le
  have hend := h.endVersion
  have hprevious := h.previous
  have hconsecutive := hserver _ _ _ _ h.answer
  have hordered := UInt64.le_iff_toNat_le.1 h.delivers.1
  have hdelivers : stream.delivered ≠ [] := by
    intro hempty
    obtain ⟨-, -, ⟨hwhole, -⟩ | ⟨hbreaks, -, -⟩⟩ := h.delivers
    · -- the range is not empty, so neither is what completes it
      rw [hempty, List.length_nil] at hwhole
      omega
    · exact h.notReached ((Advances.cons_iff.1 hadvances).1 hbreaks hempty)
  refine ⟨h.delivers.1, h.answer, hdelivers, ⟨by omega, by omega, ?_⟩, by omega, ?_,
    h.within.ne_zero h.notReached, ?_⟩
  · intro tx htx
    have hmem := (hconsecutive.mem_iff tx.version.toNat).1 (List.mem_map.2 ⟨tx, htx, rfl⟩)
    rw [length_versionsOf] at hmem
    omega
  · exact fun last => h.keys _ last (le_refl _)
  · intro streamError hfailed _ hzero
    have hbreaks : stream.breaksOff = true := by
      unfold TransactionStream.breaksOff
      rw [hfailed]
    have hretries := h.retries
    rw [List.countP_cons, if_pos hbreaks] at hretries
    omega

/-- A run that stops behind this stream asks for no empty one. -/
theorem advances_of_noRetry (hserver : server.Consecutive) {written : List Transaction}
    {outcome : RecordRunOutcome} {next : Traced OutDir FsStep}
    (hstep : AttemptStep env maxRawBytes retriesLeft st stream point written outcome none next) :
    Advances env maxRawBytes (st.totalRawBytes.toNat + env.encodedBytes stream.delivered)
      rest := by
  have hle : env.encodedBytes written ≤ env.encodedBytes stream.delivered := by
    obtain ⟨more, hmore⟩ := hstep.isPrefix
    rw [← hmore, RecordEnv.encodedBytes_append]
    exact Nat.le_add_right _ _
  have hclosed : stream.breaksOff = false → rest = [] := by
    intro hending
    obtain ⟨-, -, ⟨-, hrest⟩ | ⟨hbreaks, -, -⟩⟩ := h.delivers
    · exact hrest
    · rw [hending] at hbreaks
      cases hbreaks
  cases hstep.noRetry rfl with
  | @complete nextStartVersion rawBytes stopped =>
    cases hstep.ends with
    | complete hraw hending hlimit =>
      cases stopped with
      | false =>
        rw [hclosed (by unfold TransactionStream.breaksOff; rw [hending rfl])]
        exact .nil
      | true =>
        exact .of_reached ((h.within.reached (hlimit rfl)).mono (Nat.add_le_add_left hle _)) _
  | atEnd hend =>
    cases hstep.ends with
    | interrupted _ _ hall hcursor =>
      -- what follows the end version is not in the range
      have hnext := hcursor.nextStartVersion
      rw [hall] at hnext
      have hne : stream.delivered ≠ [] := hall ▸ hstep.nonempty
      have hlast := toNat_lastVersionOf (hserver _ _ _ _ h.answer) hne
      rw [UInt64.lt_iff_toNat_lt] at hend
      obtain ⟨-, -, ⟨-, hrest⟩ | ⟨-, hlength, -⟩⟩ := h.delivers
      · rw [hrest]
        exact .nil
      · omega
  | atLimit hreached =>
    cases hstep.ends with
    | interrupted hraw _ _ _ =>
      rw [hraw] at hreached
      exact .of_reached (hreached.mono (Nat.add_le_add_left hle _)) _

end RetryState.Tolerates

/-- The next attempt stands where this one did, with the streams that are left. -/
theorem RetryState.Tolerates.step
    (h : st.Tolerates env server maxRawBytes (retriesLeft + 1) point.store (stream :: rest))
    (hserver : server.Consecutive) {written : List Transaction} {outcome : RecordRunOutcome}
    {st' : RetryState} {next : Traced OutDir FsStep}
    (hstep : AttemptStep env maxRawBytes (retriesLeft + 1) st stream point written outcome
      (some st') next) :
    st'.Tolerates env server maxRawBytes retriesLeft next.store rest ∧
      st'.totalRawBytes.toNat =
        st.totalRawBytes.toNat + env.encodedBytes stream.delivered := by
  have hretries := hstep.retries st' rfl
  obtain ⟨rawBytes, streamError, rfl, htotal⟩ := hretries.outcome
  cases hstep.ends with
  | interrupted hraw hfailed hall hcursor =>
    have hnext := hcursor.nextStartVersion
    rw [hall] at hraw hnext
    have hne : stream.delivered ≠ [] := hall ▸ hstep.nonempty
    have hpos := List.length_pos_iff.2 hne
    have hlast := toNat_lastVersionOf (hserver _ _ _ _ h.answer) hne
    have hinRange := UInt64.le_iff_toNat_le.1 hretries.inRange
    have hendVersion := h.endVersion
    -- the stream broke off before the end, so the others deliver the rest
    obtain ⟨-, -, ⟨hwhole, -⟩ | ⟨hbreaks, hlength, hrest⟩⟩ := h.delivers
    · omega
    have hstart : st'.request.startVersion =
        st.request.startVersion + UInt64.ofNat stream.delivered.length := by
      have hlt : stream.delivered.length < 2 ^ 64 := by
        simp only [UInt64.size] at hendVersion
        omega
      rw [← UInt64.toNat_inj, UInt64.toNat_add, UInt64.toNat_ofNat', Nat.mod_eq_of_lt hlt,
        Nat.mod_eq_of_lt (by simp only [UInt64.size] at hendVersion; omega)]
      omega
    have hbytes := h.bytes
    unfold deliveredBy at hbytes
    rw [List.flatMap_cons, RecordEnv.encodedBytes_append] at hbytes
    refine ⟨⟨?_, ?_, ?_, ?_, ?_, ?_, hretries.within h.within, hretries.notReached⟩, ?_⟩
    · rw [hretries.endVersion, hretries.attempt, hstart]
      exact hrest
    · have hcount := h.retries
      rw [List.countP_cons, if_pos hbreaks] at hcount
      omega
    · unfold deliveredBy
      omega
    · rw [hretries.endVersion]
      exact hendVersion
    · -- the chunks of the checkpoint are read back
      obtain ⟨resumeState, hload, hprevious⟩ := hretries.previousChunks
      obtain ⟨checkpoint, hcheckpoint, hcursorSome, hcount⟩ := hcursor.checkpoint
      obtain ⟨resumeState', hload', hchunks⟩ :=
        loadRecordResumeState_of_cursor hcheckpoint hcursorSome
      obtain rfl : resumeState = resumeState' := Except.ok.inj (hload.symm.trans hload')
      rw [hall] at hcount
      have hbefore := h.previous
      rw [hprevious, hchunks]
      omega
    · obtain ⟨versions, hkeys⟩ := hcursor.keys
      refine h.keys.of_insert ?_ hkeys
      rw [UInt64.lt_iff_toNat_lt]
      omega
    · omega

/-! ## All attempts -/

/-- **The run rule**, by induction on the streams. A run fails only if a stream that it asks for
breaks off empty or a chunk file is in the way; if it ends well, no such stream did. -/
theorem recordWithRetries_survives (hserver : server.Consecutive)
    {streams : List TransactionStream}
    (h : st.Tolerates env server maxRawBytes retriesLeft point.store streams) :
    Runs (fun _ => True) (Excused (Advances env maxRawBytes st.totalRawBytes.toNat streams))
      (recordWithRetries env server maxRawBytes retriesLeft st) point
      (fun _ _ => Advances env maxRawBytes st.totalRawBytes.toNat streams) := by
  induction streams generalizing st retriesLeft point with
  | nil => exact absurd h.delivers id
  | cons stream rest ih =>
    have hstep := (@attemptStep_accounts env server point
      (Advances env maxRawBytes st.totalRawBytes.toNat (stream :: rest)) maxRawBytes retriesLeft st
      (fun hadvances => ⟨stream, h.canAttempt hserver hadvances⟩)).mono (fun _ _ => trivial)
    -- an attempt that ends well was not on an empty stream
    have hfirst : ∀ {written : List Transaction} {outcome : RecordRunOutcome}
        {found : Option RetryState} {next : Traced OutDir FsStep},
        AttemptStep env maxRawBytes retriesLeft st stream point written outcome found next →
        stream.delivered ≠ [] := by
      intro written outcome found next hattempt hempty
      have hprefix := hattempt.isPrefix
      rw [hempty, List.prefix_nil] at hprefix
      exact hattempt.nonempty hprefix
    have hcons : stream.delivered ≠ [] → (Advances env maxRawBytes st.totalRawBytes.toNat
        (stream :: rest) ↔ Advances env maxRawBytes
          (st.totalRawBytes.toNat + env.encodedBytes stream.delivered) rest) := by
      intro hne
      rw [Advances.cons_iff, and_iff_right]
      exact fun _ hempty => absurd hempty hne
    cases retriesLeft with
    | zero =>
      rw [recordWithRetries_zero]
      refine hstep.bind ?_
      rintro found next - ⟨other, hanswer, written, outcome, hattempt⟩
      obtain rfl : other = stream := Except.ok.inj (hanswer.symm.trans h.answer)
      cases found with
      | none =>
        exact .pure trivial ((hcons (hfirst hattempt)).2 (h.advances_of_noRetry hserver hattempt))
      | some st' => exact absurd rfl (hattempt.retries st' rfl).retriesLeft
    | succ retriesLeft =>
      rw [recordWithRetries_succ]
      refine hstep.bind ?_
      rintro found next - ⟨other, hanswer, written, outcome, hattempt⟩
      obtain rfl : other = stream := Except.ok.inj (hanswer.symm.trans h.answer)
      cases found with
      | none =>
        exact .pure trivial ((hcons (hfirst hattempt)).2 (h.advances_of_noRetry hserver hattempt))
      | some st' =>
        obtain ⟨h', htotal⟩ := h.step hserver hattempt
        rw [hcons (hfirst hattempt), ← htotal]
        exact ih h'

end Attempt

/-! ## The result -/

/-- An invocation of the recorder behind the archive of its directory, on a server that
delivers the whole range in these streams, of which no more break off than it may retry. -/
structure ToleratedRun (env : RecordEnv) (server : TransactionServer) (ledger : Ledger)
    (dir : OutDir) (request : LiveRecordRequest) (maxStreamRetries : UInt64)
    (streams : List TransactionStream) : Prop where
  consecutive : server.Consecutive
  delivers : server.Delivers request.endVersion 0 request.startVersion streams
  retries : streams.countP TransactionStream.breaksOff ≤ maxStreamRetries.toNat
  settled : ledger.Settled dir
  recorded : ledger.Recorded request.previousChunks
  next : ledger.next = request.startVersion.toNat
  keys : dir.KeysBefore request.startVersion
  /-- Something can be recorded -/
  limit : request.maxRawBytes ≠ some 0
  /-- The byte counter does not overflow -/
  bytes : env.encodedBytes (deliveredBy streams) < UInt64.size
  /-- There is a version behind the last one -/
  endVersion : request.endVersion ≠ u64Max

/-- **Which interruptions are survived.** A run whose server delivers the whole range within
the retries ends well if and only if no stream that it asks for breaks off before its first
transaction. -/
theorem survives_iff_advances {env : RecordEnv} {server : TransactionServer} {ledger : Ledger}
    {dir : OutDir} {request : LiveRecordRequest} {maxStreamRetries : UInt64}
    {streams : List TransactionStream}
    (h : ToleratedRun env server ledger dir request maxStreamRetries streams) :
    (recordLiveTransactionStreamWithRetries env server request maxStreamRetries dir).result =
        .ok () ↔
      Advances env request.maxRawBytes 0 streams := by
  have hstart : RetryState.Tolerates { request := request, totalRawBytes := 0, attempt := 0 }
      env server request.maxRawBytes maxStreamRetries.toNat dir streams := by
    refine ⟨h.delivers, h.retries, ?_, ?_, ?_, h.keys, ?_, ?_⟩
    · simpa using h.bytes
    · have hne : request.endVersion.toNat ≠ u64Max.toNat :=
        fun heq => h.endVersion (UInt64.toNat_inj.1 heq)
      have hle := toNat_le_u64Max request.endVersion
      rw [toNat_u64Max] at hne hle
      simp only [UInt64.size]
      omega
    · -- the archive has at most as many versions as lie before its end
      rw [transactionsIn, h.recorded.sum_transactionCount, ← h.next]
      exact ledger.length_chunks_le.trans (Nat.le_add_left _ _)
    · cases hlimit : request.maxRawBytes with
      | none => exact hlimit
      | some limit => exact ⟨limit, hlimit, Nat.add_zero _⟩
    · rintro ⟨limit, hlimit, hle⟩
      refine h.limit (hlimit.trans (congrArg some ?_))
      rw [← UInt64.toNat_inj]
      exact Nat.le_zero.1 hle
  have hrun := @recordWithRetries_survives env server request.maxRawBytes
    maxStreamRetries.toNat _ ⟨dir, []⟩ h.consecutive streams hstart
  constructor
  · exact hrun.result ()
  · intro hadvances
    -- no chunk file is in the way of a run behind its archive
    have hconsistent := h.settled.consistent rfl id (fun _ => rfl)
    have hrefused : Runs (RecordCut ⟨ledger, ledger.next⟩) NotRefused
        (recordLiveTransactionStreamWithRetries env server request maxStreamRetries) ⟨dir, []⟩
        (fun _ _ => True) :=
      recordWithRetries_runs h.consecutive _ hconsistent.recordCut hconsistent h.recorded h.next
    cases hresult : (recordLiveTransactionStreamWithRetries env server request maxStreamRetries
      dir).result with
    | ok _ => rfl
    | error error =>
      obtain ⟨path, hpath⟩ := hrun.errors error hresult hadvances
      exact absurd hpath (hrefused.errors error hresult path)

/-- Versions 7 to 10. -/
def fourVersions : LiveRecordRequest := { shortRequest with endVersion := 10 }

/-- Two versions from `startingVersion` on, before the stream breaks off. -/
def brokenStream (startingVersion : UInt64) : TransactionStream where
  responses := shortResponses startingVersion
  ending := .failed "connection reset"

/-- The two versions from 9 on, and the end of the stream. -/
def closedStream : TransactionStream where
  responses := shortResponses 9
  ending := .closed

/-- A stream that breaks off before its first transaction. -/
def emptyStream : TransactionStream where
  responses := []
  ending := .failed "connection reset"

/-- The first stream of this server breaks off behind two versions, the second one delivers the
other two. -/
theorem toleratedRun_shortServer :
    ToleratedRun sampleEnv shortServer (.empty 7) (.empty "raw") fourVersions 1
      [brokenStream 7, closedStream] where
  consecutive := shortServer_consecutive
  delivers := ⟨by decide, rfl, .inr ⟨rfl, by decide, by decide, rfl, .inl ⟨by decide, rfl⟩⟩⟩
  retries := by decide
  settled := Ledger.settled_empty 7 "raw"
  recorded := .nil
  next := rfl
  keys := fun _ _ _ => rfl
  limit := nofun
  bytes := by decide
  endVersion := by decide

theorem survives_iff_advances_shortServer :
    (recordLiveTransactionStreamWithRetries sampleEnv shortServer fourVersions 1
      (.empty "raw")).result = .ok () := by
  refine (survives_iff_advances toleratedRun_shortServer).2 ?_
  refine Advances.cons_iff.2 ⟨fun _ hempty => ?_, Advances.cons_iff.2 ⟨nofun, .nil⟩⟩
  cases hempty

/-- A server that sends two versions a stream. The first stream breaks off behind them, the
second one before its first transaction; the later ones are closed. -/
def stallingServer : TransactionServer := fun attempt startingVersion _ =>
  match attempt with
  | 0 => .ok (brokenStream startingVersion)
  | 1 => .ok emptyStream
  | _ => .ok { responses := shortResponses startingVersion, ending := .closed }

theorem stallingServer_consecutive : stallingServer.Consecutive := by
  rintro attempt startingVersion transactionsCount stream hstream
  -- the first and the third stream count up, the second one delivers nothing
  match attempt, hstream with
  | 0, hstream =>
    obtain rfl := Except.ok.inj hstream
    exact shortResponses_consecutive startingVersion
  | 1, hstream =>
    obtain rfl := Except.ok.inj hstream
    exact ConsecutiveFrom.nil _
  | _ + 2, hstream =>
    obtain rfl := Except.ok.inj hstream
    exact shortResponses_consecutive startingVersion

/-- Ten retries are allowed, two streams break off, and the third would deliver the rest; but
the run ends with an error, behind two recorded transactions. -/
theorem not_survives_stallingServer :
    ToleratedRun sampleEnv stallingServer (.empty 7) (.empty "raw") fourVersions 10
        [brokenStream 7, emptyStream, closedStream] ∧
      recordedTransactions sampleEnv stallingServer fourVersions 10 (.empty "raw") =
        [bareTransaction 7, bareTransaction 8] ∧
      (recordLiveTransactionStreamWithRetries sampleEnv stallingServer fourVersions 10
        (.empty "raw")).result = .error (.other (.config "connection reset")) := by
  refine ⟨⟨stallingServer_consecutive, ?_, by decide, Ledger.settled_empty 7 "raw", .nil, rfl,
    fun _ _ _ => rfl, nofun, by decide, by decide⟩, by decide +kernel, by decide +kernel⟩
  exact ⟨by decide, rfl, .inr ⟨rfl, by decide, by decide, rfl, .inr ⟨rfl, by decide, by decide,
    rfl, .inl ⟨by decide, rfl⟩⟩⟩⟩

end HotIndex
