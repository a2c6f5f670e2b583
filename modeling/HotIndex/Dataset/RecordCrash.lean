import HotIndex.Dataset.RecordRuns

/-!
# Crashes and Resuming

A session is one `record` command; a crash cuts it off between two steps. A directory that
represents a ledger still does so after a session, wherever that was cut off, unless the
crash fell between the rename of a chunk and the checkpoint that lists it while an older
checkpoint was in place (`RecordedDir.settled`). The older checkpoint then hides the renamed
chunk, because the names of the chunks are only asked if no checkpoint has a cursor. So a
crash is survived if and only if it leaves no such checkpoint (`crash_safe_iff`).
-/

namespace HotIndex

open Lib

/-! ## What the command works out -/

section Command

variable {opts : RecordOptions} {dir : OutDir} {plan : RecordPlan} {request : LiveRecordRequest}

theorem planRecord_ok (h : planRecord opts dir = .ok plan) :
    loadRecordResumeState dir = .ok plan.resumeState ∧
      resolveRecordStartVersion opts.startVersion opts.resume plan.resumeState =
        .ok plan.startVersion := by
  unfold planRecord at h
  obtain ⟨resumeState, hload, h⟩ := bind_eq_ok_iff.1 h
  obtain ⟨startVersion, hstart, h⟩ := bind_eq_ok_iff.1 h
  obtain ⟨endVersion, -, h⟩ := bind_eq_ok_iff.1 h
  -- the checks of the options do not change the plan
  split_ifs at h
  cases h
  exact ⟨hload, hstart⟩

theorem liveRequest_ok (h : liveRequest opts plan = .ok request) :
    request.startVersion = plan.startVersion ∧
      request.previousChunks = if opts.resume then plan.resumeState.chunks else [] := by
  unfold liveRequest at h
  obtain ⟨⟨⟩, -, h⟩ := bind_eq_ok_iff.1 h
  cases hend : plan.endVersion with
  | none =>
    rw [hend] at h
    cases h
  | some endVersion =>
    rw [hend] at h
    cases h
    exact ⟨rfl, rfl⟩

/-- `--resume` starts at the cursor if there is one. -/
theorem resolveRecordStartVersion_resume {requested : Option UInt64}
    {resumeState : RecordResumeState} {next startVersion : UInt64}
    (hnext : resumeState.nextStartVersion = some next)
    (h : resolveRecordStartVersion requested true resumeState = .ok startVersion) :
    startVersion = next := by
  unfold resolveRecordStartVersion at h
  rw [hnext] at h
  exact (Except.ok.inj h).symm

end Command

/-! ## Sessions -/

/-- What holds at every point where a session can be cut off. -/
structure SessionCut (base : SessionStart) (point : Traced OutDir FsStep) : Prop where
  consistent : ∃ ledger : Ledger, ledger.Consistent base point
  fresh : ∀ tmp final txs, .renameChunk tmp final txs ∈ point.taken →
    ∀ tx ∈ txs, base.archive.next ≤ tx.version.toNat

theorem RecordCut.session {base : SessionStart} {point : Traced OutDir FsStep}
    (h : RecordCut base point) : SessionCut base point :=
  ⟨h.consistent, fun _ _ _ hstep => h.steps _ hstep⟩

namespace RecordOptions

/-- Without `--resume`, the session starts at the cursor of the directory, if that has one. -/
def StartsAtCursor (opts : RecordOptions) (dir : OutDir) : Prop :=
  ∀ state cursor, loadRecordResumeState dir = .ok state →
    state.nextStartVersion = some cursor → opts.startVersion.getD 0 = cursor

/-- A new directory has no cursor. -/
theorem startsAtCursor_empty (opts : RecordOptions) (display : String) :
    opts.StartsAtCursor (.empty display) := by
  intro state cursor hload hcursor
  obtain ⟨hnone, -, -⟩ := (Ledger.settled_empty 0 display).load_nothing rfl rfl hload
  rw [hnone] at hcursor
  cases hcursor

/-- The session continues what is in the directory: it resumes, it only writes a plan, or it
starts at the cursor. -/
def Continues (opts : RecordOptions) (dir : OutDir) : Prop :=
  opts.resume = true ∨ opts.live = false ∨ opts.StartsAtCursor dir

/-- The session lists the chunks that it finds: it resumes, it only writes a plan, or there are
none. -/
def KeepsList (opts : RecordOptions) (dir : OutDir) : Prop :=
  opts.resume = true ∨ opts.live = false ∨ dir.chunkFiles.entries = []

/-- The session continues what is in the directory, or finds no chunks there. -/
def Follows (opts : RecordOptions) (dir : OutDir) : Prop :=
  opts.Continues dir ∨ dir.chunkFiles.entries = []

theorem KeepsList.follows {opts : RecordOptions} {dir : OutDir} (h : opts.KeepsList dir) :
    opts.Follows dir := by
  rcases h with hresume | hplan | hfiles
  · exact .inl (.inl hresume)
  · exact .inl (.inr (.inl hplan))
  · exact .inr hfiles

end RecordOptions

/-- What a session keeps of the archive that it finds. -/
structure SessionStart.Keeps (base : SessionStart) (ledger : Ledger) (opts : RecordOptions)
    (dir : OutDir) : Prop where
  files : base.archive.files = ledger.files
  cursor : opts.Continues dir → base.cursor = base.archive.next
  older : opts.KeepsList dir → ledger.older = [] → base.archive.older = []

/-- How a session with this plan begins behind the archive of a directory. -/
structure SessionStart.Begins (base : SessionStart) (ledger : Ledger) (opts : RecordOptions)
    (dir : OutDir) (plan : RecordPlan) : Prop extends base.Keeps ledger opts dir where
  consistent : base.archive.Consistent base ⟨dir, []⟩
  live : opts.live = true → plan.startVersion.toNat = base.archive.next ∧
    base.archive.Recorded (if opts.resume then plan.resumeState.chunks else [])
  planned : opts.live = false → base.archive.Recorded plan.resumeState.chunks ∧
    (plan.resumeState.nextStartVersion.getD plan.startVersion).toNat = base.archive.next ∧
    (base.archive.files ≠ [] → plan.resumeState.lastSuccessVersion.map
      (fun last => last.toNat + 1) = some base.archive.next)

section Sessions

variable {env : RecordEnv} {server : TransactionServer} {opts : RecordOptions} {dir : OutDir}
  {ledger : Ledger} {base : SessionStart} {plan : RecordPlan}

theorem Ledger.OnDisk.files_eq_nil_iff (h : ledger.OnDisk dir) :
    dir.chunkFiles.entries = [] ↔ ledger.files = [] := by
  unfold Ledger.OnDisk at h
  constructor
  · intro hentries
    rw [hentries] at h
    exact List.map_eq_nil_iff.1 h.nil_eq.symm
  · intro hfiles
    rw [hfiles] at h
    exact h.eq_nil

/-- Without checkpoint and chunks, a session begins anywhere. -/
theorem begins_anywhere (hsettled : ledger.Settled dir)
    (hload : loadRecordResumeState dir = .ok plan.resumeState)
    (hcheckpoint : dir.checkpoint = none) (hnil : ledger.files = []) :
    SessionStart.Begins ⟨.empty plan.startVersion.toNat, plan.startVersion.toNat⟩ ledger opts dir
      plan := by
  obtain ⟨hnext, -, hchunks⟩ := hsettled.load_nothing hcheckpoint hnil hload
  -- an empty directory has no cursor, so a session may start wherever it is told to
  have hrecorded : (Ledger.empty plan.startVersion.toNat).Recorded plan.resumeState.chunks := by
    rw [hchunks]
    exact .nil
  refine
    { files := hnil.symm
      cursor := fun _ => rfl
      older := fun _ _ => rfl
      consistent := hsettled.consistent (by rw [hnil]; rfl) (fun _ => hsettled.unlisted hcheckpoint)
        (fun hsome => absurd hcheckpoint hsome)
      live := fun _ => ⟨rfl, ?_⟩
      planned := fun _ => ⟨hrecorded, ?_, fun hne => absurd rfl hne⟩ }
  · split_ifs
    · exact hrecorded
    · exact .nil
  · rw [hnext]
    rfl

/-- A session that resumes, or only writes a plan, goes on with the list that it finds. -/
theorem begins_resumed (hsettled : ledger.Settled dir) (hresumes : ledger.Resumes plan.resumeState)
    (hstart : resolveRecordStartVersion opts.startVersion opts.resume plan.resumeState =
      .ok plan.startVersion)
    (hresume : opts.live = true → opts.resume = true) :
    SessionStart.Begins ⟨ledger, ledger.next⟩ ledger opts dir plan := by
  -- a plan keeps the cursor, and a session that records starts at it
  obtain ⟨next, hnext, hnextNat⟩ := Option.map_eq_some_iff.1 hresumes.nextStartVersion
  refine
    { files := rfl
      cursor := fun _ => rfl
      older := fun _ holder => holder
      consistent := hsettled.consistent rfl id (fun _ => rfl)
      live := fun hlive => ?_
      planned := fun _ => ⟨hresumes.chunks, ?_, hresumes.lastSuccessVersion⟩ }
  · rw [hresume hlive] at hstart ⊢
    rw [resolveRecordStartVersion_resume hnext hstart]
    exact ⟨hnextNat, hresumes.chunks⟩
  · rw [hnext]
    exact hnextNat

/-- A session without `--resume` lists nothing of what it finds. It begins at the cursor, or
where it likes if there are no chunks. -/
theorem begins_fresh (hsettled : ledger.Settled dir) (hmode : opts.Follows dir)
    (hload : loadRecordResumeState dir = .ok plan.resumeState)
    (hresumes : ledger.Resumes plan.resumeState)
    (hstart : resolveRecordStartVersion opts.startVersion opts.resume plan.resumeState =
      .ok plan.startVersion)
    (hlive : opts.live = true) (hfresh : opts.resume = false) :
    ∃ base : SessionStart, base.Begins ledger opts dir plan := by
  obtain ⟨next, hnext, hnextNat⟩ := Option.map_eq_some_iff.1 hresumes.nextStartVersion
  have hversion : plan.startVersion = opts.startVersion.getD 0 := by
    rw [hfresh] at hstart
    exact (Except.ok.inj hstart).symm
  have hlist : opts.KeepsList dir → ledger.files = [] := by
    rintro (hresume | hplan | hfiles)
    · rw [hfresh] at hresume
      cases hresume
    · rw [hlive] at hplan
      cases hplan
    · exact hsettled.onDisk.files_eq_nil_iff.1 hfiles
  have hnone : ∀ archive : Ledger, archive.chunks = [] →
      archive.Recorded (if opts.resume then plan.resumeState.chunks else []) := by
    intro archive hchunks
    rw [if_neg (by simp [hfresh])]
    unfold Ledger.Recorded
    rw [hchunks]
    exact .nil
  have hplanned : opts.live ≠ false := by simp [hlive]
  by_cases hcursor : plan.startVersion = next
  · -- the chunks that are there become older ones
    refine ⟨⟨ledger.unlist, ledger.next⟩, ?_⟩
    refine
      { files := ledger.files_unlist
        cursor := fun _ => ledger.next_unlist.symm
        older := fun hkeeps _ => hlist hkeeps
        consistent := hsettled.consistent ledger.files_unlist
          (fun hnil => (List.append_eq_nil_iff.1 hnil).1) (fun _ => rfl)
        live := fun _ => ⟨?_, hnone _ rfl⟩
        planned := fun hplan => absurd hplan hplanned }
    rw [hcursor, hnextNat]
    exact ledger.next_unlist.symm
  · -- away from the cursor there are no chunks
    have hnot : ¬ opts.Continues dir := by
      rintro (hresume | hplan | hatCursor)
      · rw [hfresh] at hresume
        cases hresume
      · exact hplanned hplan
      · exact hcursor (hversion.trans (hatCursor _ _ hload hnext))
    have hnil : ledger.files = [] :=
      hsettled.onDisk.files_eq_nil_iff.1 (hmode.resolve_left hnot)
    refine ⟨⟨.empty plan.startVersion.toNat, ledger.next⟩, ?_⟩
    exact
      { files := hnil.symm
        cursor := fun hcontinues => absurd hcontinues hnot
        older := fun _ _ => rfl
        consistent := hsettled.consistent (by rw [hnil]; rfl)
          (fun _ => (List.append_eq_nil_iff.1 hnil).1) (fun _ => rfl)
        live := fun _ => ⟨rfl, hnone _ rfl⟩
        planned := fun hplan => absurd hplan hplanned }

/-- Every session that follows on a directory begins behind its archive. -/
theorem exists_begins (hsettled : ledger.Settled dir) (hmode : opts.Follows dir)
    (hplan : planRecord opts dir = .ok plan) :
    ∃ base : SessionStart, base.Begins ledger opts dir plan := by
  obtain ⟨hload, hstart⟩ := planRecord_ok hplan
  -- nothing to go on with, a session that resumes, or one that starts afresh
  by_cases hnothing : dir.checkpoint = none ∧ ledger.files = []
  · exact ⟨_, begins_anywhere hsettled hload hnothing.1 hnothing.2⟩
  · have hresumes := hsettled.of_load (not_and_or.1 hnothing) hload
    by_cases hresume : opts.live = true → opts.resume = true
    · exact ⟨_, begins_resumed hsettled hresumes hstart hresume⟩
    · obtain ⟨hlive, hfresh⟩ := Classical.not_imp.1 hresume
      exact begins_fresh hsettled hmode hload hresumes hstart hlive (by simpa using hfresh)

/-- A plan keeps the cursor and the chunks. -/
theorem writePlan_runs (hbegins : base.Begins ledger opts dir plan) (hlive : opts.live = false) :
    Runs (SessionCut base) NotRefused (writePlan opts plan) ⟨dir, []⟩ (fun _ _ => True) := by
  obtain ⟨hrecorded, hnext, hlast⟩ := hbegins.planned hlive
  have hcut := hbegins.consistent.recordCut.session
  unfold writePlan
  refine .ofExcept_bind hcut lift_notRefused (fun total htotal => ?_)
  -- the planned checkpoint repeats what the directory had before
  have hlists : base.archive.Lists {
      status := .planned
      message := "record skeleton only; Aptos gRPC recording is implemented in a later milestone"
      startVersion := plan.startVersion
      endVersion := plan.endVersion
      resume := opts.resume
      chainId := none
      runTransactionCount := none
      transactionCount := total
      uncompressedRawBytes := none
      maxRawBytes := opts.maxRawBytes
      chunkTransactionCount := opts.chunkTransactionCount
      lastSuccessVersion := plan.resumeState.lastSuccessVersion
      nextStartVersion := some (plan.resumeState.nextStartVersion.getD plan.startVersion)
      stoppedAtByteLimit := none
      chunks := plan.resumeState.chunks
      streamError := none } := by
    refine ⟨hrecorded, congrArg some hnext, hlast, ?_⟩
    show total.toNat = _
    rw [totalTransactionCount_ok (lift_ok htotal), hrecorded.sum_transactionCount]
  exact .perform hcut ⟨⟨base.archive, hbegins.consistent.replaceCheckpoint hlists⟩, by simp⟩
    trivial

/-- What a session does behind an archive, live or not. -/
theorem runPlan_runs (hserver : server.Consecutive)
    (hbegins : base.Begins ledger opts dir plan) :
    Runs (SessionCut base) NotRefused
      (if opts.live then do
        let request ← RecordM.lift (liveRequest opts plan)
        recordLiveTransactionStreamWithRetries env server request opts.maxStreamRetries
      else writePlan opts plan) ⟨dir, []⟩ (fun _ _ => True) := by
  have hcut := hbegins.consistent.recordCut
  split_ifs with hlive
  · -- a live session records from the cursor on
    obtain ⟨hstart, hrecorded⟩ := hbegins.live hlive
    refine .ofExcept_bind hcut.session lift_notRefused (fun request hrequest => ?_)
    obtain ⟨hversion, hchunks⟩ := liveRequest_ok (lift_ok hrequest)
    have hrun : Runs (RecordCut base) NotRefused
        (recordLiveTransactionStreamWithRetries env server request opts.maxStreamRetries)
        ⟨dir, []⟩ (fun _ _ => True) := by
      refine recordWithRetries_runs hserver _ hcut hbegins.consistent ?_ ?_
      · rw [hchunks]
        exact hrecorded
      · rw [hversion, hstart]
    exact hrun.mono (fun _ => RecordCut.session)
  · exact writePlan_runs hbegins (by simpa using hlive)

/-- **A session.** It leaves the directory consistent with an archive that extends the one
it found, records no archived version again, and never refuses a chunk. -/
theorem recordCommand_runs (env : RecordEnv) (hserver : server.Consecutive)
    (hsettled : ledger.Settled dir) (hmode : opts.Follows dir) :
    ∃ base : SessionStart, base.Keeps ledger opts dir ∧
      Runs (SessionCut base) NotRefused (recordCommand env server opts) ⟨dir, []⟩
        (fun _ _ => True) := by
  unfold recordCommand
  cases hplan : planRecord opts dir with
  | error error =>
    have hcut : SessionCut ⟨ledger, ledger.next⟩ ⟨dir, []⟩ :=
      (hsettled.consistent rfl id (fun _ => rfl)).recordCut.session
    refine ⟨⟨ledger, ledger.next⟩, ⟨rfl, fun _ => rfl, fun _ => id⟩, .read_bind hcut ?_⟩
    refine .ofExcept_bind hcut lift_notRefused (fun plan hok => ?_)
    have hplan' := lift_ok hok
    rw [show planRecord opts _ = planRecord opts dir from rfl, hplan] at hplan'
    cases hplan'
  | ok plan =>
    obtain ⟨base, hbegins⟩ := exists_begins hsettled hmode hplan
    have hcut := hbegins.consistent.recordCut.session
    refine ⟨base, hbegins.toKeeps, .read_bind hcut ?_⟩
    -- the checks before the first effect do not change the directory
    refine .ofExcept_bind hcut lift_notRefused (fun plan' hok => ?_)
    obtain rfl : plan = plan' := Except.ok.inj (hplan.symm.trans (lift_ok hok))
    exact runPlan_runs hserver hbegins

end Sessions

/-! ## Directories of crashed sessions -/

/-- A crash behind these steps of a session leaves no checkpoint that hides a renamed chunk. -/
def CrashKeepsCursor (dir : OutDir) (taken : List FsStep) : Prop :=
  pendingRename taken = true → (Store.applyAll dir taken).checkpoint = none

/-- The directories that sessions leave behind which continue each other and are cut off at
points that keep the cursor. -/
inductive RecordedDir : OutDir → Prop
  | empty (display : String) : RecordedDir (.empty display)
  | session {env : RecordEnv} {server : TransactionServer} {opts : RecordOptions} {dir : OutDir}
      {taken : List FsStep} (hdir : RecordedDir dir) (hserver : server.Consecutive)
      (hmode : opts.Continues dir) (htaken : taken <+: (recordCommand env server opts dir).steps)
      (hcrash : CrashKeepsCursor dir taken) : RecordedDir (Store.applyAll dir taken)

/-- Where a session can be cut off, it has extended the archive that it found. -/
theorem session_consistent {env : RecordEnv} {server : TransactionServer} {opts : RecordOptions}
    {dir : OutDir} {ledger : Ledger} {taken : List FsStep} (hsettled : ledger.Settled dir)
    (hserver : server.Consecutive) (hmode : opts.Follows dir)
    (htaken : taken <+: (recordCommand env server opts dir).steps) :
    ∃ (base : SessionStart) (ledger' : Ledger), base.Keeps ledger opts dir ∧
      ledger'.Consistent base ⟨Store.applyAll dir taken, taken⟩ := by
  obtain ⟨base, hkeeps, hrun⟩ := recordCommand_runs env hserver hsettled hmode
  obtain ⟨ledger', hconsistent⟩ := (hrun.cuts taken htaken).consistent
  exact ⟨base, ledger', hkeeps, hconsistent⟩

/-- Where no checkpoint hides a chunk, the directory represents the archive. -/
theorem Ledger.Consistent.settled_of_crash {ledger : Ledger} {base : SessionStart} {dir : OutDir}
    {taken : List FsStep} (h : ledger.Consistent base ⟨Store.applyAll dir taken, taken⟩)
    (hcrash : CrashKeepsCursor dir taken) :
    ∃ settled : Ledger, settled.Settled (Store.applyAll dir taken) ∧
      settled.files = ledger.files ∧ (ledger.older = [] → settled.older = []) := by
  have honDisk : ledger.OnDisk (Store.applyAll dir taken) := h.onDisk
  cases hcheckpoint : (Store.applyAll dir taken).checkpoint with
  -- without a checkpoint, the names are all there is to resume from
  | none => exact ⟨ledger.relist, honDisk.relist_settled hcheckpoint, rfl, fun _ => rfl⟩
  | some checkpoint =>
    -- a checkpoint points to the cursor unless the crash came right behind a rename
    cases hpending : pendingRename taken with
    | true =>
      rw [hcrash hpending] at hcheckpoint
      cases hcheckpoint
    | false =>
      obtain ⟨listed, hfiles, hlists, holder, -⟩ := h.lists hpending checkpoint hcheckpoint
      exact ⟨listed, honDisk.settled_of_lists hfiles hlists hcheckpoint, hfiles, holder⟩

/-- **The invariant of the directory**, by induction on the sessions. -/
theorem RecordedDir.settled {dir : OutDir} (h : RecordedDir dir) :
    ∃ ledger : Ledger, ledger.Settled dir := by
  induction h with
  | empty display => exact ⟨_, Ledger.settled_empty 0 display⟩
  | session _ hserver hmode htaken hcrash ih =>
    obtain ⟨ledger, hsettled⟩ := ih
    -- a session keeps a ledger at every cut, and a crash that keeps the cursor settles it
    obtain ⟨base, ledger', -, hconsistent⟩ :=
      session_consistent hsettled hserver (.inl hmode) htaken
    obtain ⟨settled, hsettled', -⟩ := hconsistent.settled_of_crash hcrash
    exact ⟨settled, hsettled'⟩

/-! ## Surviving a crash -/

/-- The cursor is the version behind the completed chunks, if there are any. -/
def CursorBehindChunks (dir : OutDir) : Prop :=
  ∀ last, dir.archivedVersions.max? = some last →
    ∃ state next, loadRecordResumeState dir = .ok state ∧ state.nextStartVersion = some next ∧
      next.toNat = last.toNat + 1

/-- No resumed session, over whatever server, records an archived version again, or refuses
to overwrite a chunk. -/
def ResumesWithoutOverlap (dir : OutDir) : Prop :=
  ∀ (env : RecordEnv) (server : TransactionServer) (opts : RecordOptions),
    server.Consecutive → opts.resume = true →
      (∀ tmp final txs, .renameChunk tmp final txs ∈ (recordCommand env server opts dir).steps →
        ∀ tx ∈ txs, tx.version ∉ dir.archivedVersions) ∧
      ∀ path, (recordCommand env server opts dir).result ≠ .error (.refuseChunk path)

namespace Ledger

variable {ledger : Ledger} {dir : OutDir}

/-- The archived versions are those of the ledger. -/
theorem OnDisk.mem_archivedVersions (h : ledger.OnDisk dir) (version : UInt64) :
    version ∈ dir.archivedVersions ↔
      ledger.start ≤ version.toNat ∧ version.toNat < ledger.next := by
  have hmem : version ∈ dir.archivedVersions ↔
      version.toNat ∈ versionsOf ledger.files.flatten := by
    -- the files hold the chunks, in the order of their names
    have hvalues : dir.chunkFiles.values.Perm ledger.files := by
      have hperm := h.map Prod.snd
      rwa [List.map_map, show (Prod.snd ∘ chunkFile) = id from rfl, List.map_id] at hperm
    unfold OutDir.archivedVersions versionsOf
    rw [(hvalues.flatMap_right _).mem_iff, List.mem_flatMap, List.mem_map]
    simp only [List.mem_map, List.mem_flatten, UInt64.toNat_inj]
    constructor
    · rintro ⟨txs, htxs, tx, htx, rfl⟩
      exact ⟨tx, ⟨txs, htxs, htx⟩, rfl⟩
    · rintro ⟨tx, ⟨txs, htxs, htx⟩, rfl⟩
      exact ⟨txs, htxs, tx, htx, rfl⟩
  rw [hmem, ledger.consecutive_files.mem_iff, length_versionsOf]
  rfl

/-- The greatest archived version is the one before the next. -/
theorem OnDisk.max?_archivedVersions (h : ledger.OnDisk dir) {last : UInt64} :
    dir.archivedVersions.max? = some last ↔ ledger.files ≠ [] ∧ last.toNat + 1 = ledger.next := by
  have hmem := h.mem_archivedVersions
  constructor
  · intro hmax
    obtain ⟨hlast, hge⟩ := List.max?_eq_some_iff.1 hmax
    have hbounds := (hmem last).1 hlast
    -- a version that is archived lies below the cursor, and the last one right before it
    have hne : ledger.files ≠ [] := ne_nil_of_start_lt_next (by omega)
    refine ⟨hne, ?_⟩
    obtain ⟨greatest, -, hgreatest⟩ := max?_lastVersionOf hne
    have hle := hge greatest ((hmem greatest).2 (by omega))
    rw [UInt64.le_iff_toNat_le] at hle
    omega
  · rintro ⟨hne, hlast⟩
    have hstart := start_lt_next hne
    refine List.max?_eq_some_iff.2 ⟨(hmem last).2 (by omega), fun version hversion => ?_⟩
    have hbounds := (hmem version).1 hversion
    rw [UInt64.le_iff_toNat_le]
    omega

theorem Settled.cursorBehindChunks (h : ledger.Settled dir)
    (hlast : dir.checkpoint = none → dir.archivedVersions.max? ≠ some u64Max) :
    CursorBehindChunks dir := by
  intro last hmax
  obtain ⟨hne, hnext⟩ := h.onDisk.max?_archivedVersions.1 hmax
  have hsome : dir.checkpoint ≠ none ∨ ledger.files ≠ [] ∧ ledger.next < UInt64.size := by
    -- without a checkpoint, the names must leave room for a next version
    by_cases hcheckpoint : dir.checkpoint = none
    · refine .inr ⟨hne, ?_⟩
      have hlt := last.toNat_lt
      have hnot : last.toNat ≠ u64Max.toNat := by
        intro heq
        rw [UInt64.toNat_inj.1 heq] at hmax
        exact hlast hcheckpoint hmax
      rw [toNat_u64Max] at hnot
      simp only [UInt64.size]
      omega
    · exact .inl hcheckpoint
  obtain ⟨state, hload, hresumes⟩ := h.load_ok hsome
  obtain ⟨next, hstate, hnextNat⟩ := Option.map_eq_some_iff.1 hresumes.nextStartVersion
  exact ⟨state, next, hload, hstate, hnextNat.trans hnext.symm⟩

theorem Settled.resumesWithoutOverlap (h : ledger.Settled dir) : ResumesWithoutOverlap dir := by
  intro env server opts hserver hresume
  obtain ⟨base, hkeeps, hrun⟩ := recordCommand_runs env hserver h (.inl (.inl hresume))
  have honDisk := h.onDisk.of_files hkeeps.files
  refine ⟨fun tmp final txs hstep tx htx harchived => ?_, fun path hrefused => ?_⟩
  -- the archive found ends before everything that the session renames
  · have hnext := hrun.cut_end.fresh tmp final txs (by
      rw [Traced.taken_after]
      exact List.mem_append_right _ hstep) tx htx
    have hbounds := (honDisk.mem_archivedVersions tx.version).1 harchived
    omega
  · exact hrun.errors _ hrefused path rfl

end Ledger

/-- A crash behind a renamed chunk whose checkpoint is still missing: an older checkpoint has
an older cursor. -/
theorem Ledger.Consistent.keepsCursor {ledger : Ledger} {base : SessionStart} {dir : OutDir}
    {taken : List FsStep} (h : ledger.Consistent base ⟨Store.applyAll dir taken, taken⟩)
    (hbase : base.cursor = base.archive.next)
    (hcursor : CursorBehindChunks (Store.applyAll dir taken)) : CrashKeepsCursor dir taken := by
  intro hpending
  by_contra hsome
  obtain ⟨checkpoint, hcheckpoint⟩ := Option.ne_none_iff_exists'.1 hsome
  obtain ⟨hextended, hbehind⟩ := h.behind hpending
  obtain ⟨earlier, hlists, hearlier⟩ := hbehind checkpoint hcheckpoint
  -- the checkpoint is older than the renamed chunk, or even than the session
  have hlt : earlier.next < ledger.next := by
    rcases hearlier with hlt | hfound
    · exact hlt
    · rw [hfound, hbase]
      exact hextended
  have hne : ledger.files ≠ [] := by
    apply Ledger.ne_nil_of_start_lt_next
    calc ledger.start = base.archive.start := h.extends_.start
      _ ≤ base.archive.next := Nat.le_add_right _ _
      _ < ledger.next := hextended
  obtain ⟨last, -, hlast⟩ := Ledger.max?_lastVersionOf hne
  obtain ⟨state, next, hload, hnext, hnextNat⟩ :=
    hcursor last (h.onDisk.max?_archivedVersions.2 ⟨hne, hlast⟩)
  obtain ⟨cursor, hcursorVersion, hcursorNat⟩ :=
    Option.map_eq_some_iff.1 hlists.nextStartVersion
  -- a checkpoint that has a cursor is believed, whatever the names say
  have hstate : state.nextStartVersion = some cursor := by
    unfold loadRecordResumeState resumeStateFromCheckpoint at hload
    simp only [hcheckpoint, hcursorVersion, Option.some_or, withInferredCursor] at hload
    rw [← Except.ok.inj hload]
  rw [hstate] at hnext
  obtain rfl := Option.some.inj hnext
  omega

/-- **Surviving a crash.** A session that continues a recorded directory can be cut off
anywhere: the cursor is behind the completed chunks, and resuming neither records an archived
version again nor refuses a chunk, if and only if no checkpoint is in place that hides a
renamed chunk, and a version follows the archive where only names can tell. -/
theorem crash_safe_iff {env : RecordEnv} {server : TransactionServer} {opts : RecordOptions}
    {dir : OutDir} {taken : List FsStep} (hdir : RecordedDir dir)
    (hserver : server.Consecutive) (hmode : opts.Continues dir)
    (htaken : taken <+: (recordCommand env server opts dir).steps) :
    (CursorBehindChunks (Store.applyAll dir taken) ∧
        ResumesWithoutOverlap (Store.applyAll dir taken)) ↔
      CrashKeepsCursor dir taken ∧
        ((Store.applyAll dir taken).checkpoint = none →
          (Store.applyAll dir taken).archivedVersions.max? ≠ some u64Max) := by
  obtain ⟨ledger, hsettled⟩ := hdir.settled
  obtain ⟨base, ledger', hkeeps, hconsistent⟩ :=
    session_consistent hsettled hserver (.inl hmode) htaken
  constructor
  · rintro ⟨hcursor, -⟩
    refine ⟨hconsistent.keepsCursor (hkeeps.cursor hmode) hcursor, fun hnone hmax => ?_⟩
    -- no cursor is behind the last version of all
    obtain ⟨state, next, -, -, hnextNat⟩ := hcursor u64Max hmax
    have hlt := next.toNat_lt
    rw [hnextNat, toNat_u64Max] at hlt
    omega
  · rintro ⟨hcrash, hlast⟩
    obtain ⟨settled, hsettled', -⟩ := hconsistent.settled_of_crash hcrash
    exact ⟨hsettled'.cursorBehindChunks hlast, hsettled'.resumesWithoutOverlap⟩

/-- Versions 7 to 12, one a chunk. -/
def crashOptions (resume : Bool) : RecordOptions where
  network := .testnet
  resume := resume
  startVersion := some 7
  endVersion := some 12
  transactionsCount := none
  maxRawBytes := none
  maxStreamRetries := 1
  chunkTransactionCount := 1
  live := true
  allowLowMainnetStart := false

/-- The steps of a session up to the rename of its second chunk. -/
def crashedSteps : List FsStep :=
  ((recordCommand sampleEnv shortServer (crashOptions false) (.empty "raw")).steps).take 7

theorem crash_safe_iff_shortServer :
    (CursorBehindChunks (Store.applyAll (.empty "raw") crashedSteps) ∧
        ResumesWithoutOverlap (Store.applyAll (.empty "raw") crashedSteps)) ↔
      CrashKeepsCursor (.empty "raw") crashedSteps ∧
        ((Store.applyAll (OutDir.empty "raw") crashedSteps).checkpoint = none →
          (Store.applyAll (OutDir.empty "raw") crashedSteps).archivedVersions.max? ≠
            some u64Max) :=
  crash_safe_iff (.empty "raw") shortServer_consecutive
    (.inr (.inr (RecordOptions.startsAtCursor_empty _ _))) (List.take_prefix 7 _)

/-- A crash that is not survived: the second chunk, version 8, is in place, but the cursor of
the checkpoint is still 8, and a session that resumes there runs into the chunk. -/
theorem crash_hides_chunk_shortServer :
    crashedSteps <+: (recordCommand sampleEnv shortServer (crashOptions false)
        (.empty "raw")).steps ∧
      (Store.applyAll (OutDir.empty "raw") crashedSteps).archivedVersions.max? = some 8 ∧
      (loadRecordResumeState (Store.applyAll (OutDir.empty "raw") crashedSteps)).toOption.map
        RecordResumeState.nextStartVersion = some (some 8) ∧
      (recordCommand sampleEnv shortServer (crashOptions true)
        (Store.applyAll (OutDir.empty "raw") crashedSteps)).result =
          .error (.refuseChunk "raw/transactions_8_8.pb.zst") := by
  refine ⟨List.take_prefix 7 _, ?_, ?_, ?_⟩ <;> decide +kernel

end HotIndex
