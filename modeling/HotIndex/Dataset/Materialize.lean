import HotIndex.Dataset.NormalizedReplay
import HotIndex.Storage.ReplayConvergence
import HotIndex.Lib.Simulation
import Mathlib.Logic.Function.Basic

/-!
# Materializing a Dataset

`replay_rocksdb_materialized` replays a dataset into a staging directory next to the database
and renames the directory when the replay is complete. Processes that do so at the same time
share nothing but the directory in which the database lies, and each of them can fail or be
killed anywhere. Still the database is a register that is written once: it is absent or holds
one complete replay, and of all processes at most one returns `Ok` (`materialize_once`).

What processes do is given by the phases between their system calls (`MaterializeJob.advance`).
A dataset is not changed while it is replayed.
-/

namespace HotIndex

open Lib RustText Relation

/-! ## Paths -/

/-- The path of a database, with the name that it ends with. -/
structure DbPath where
  path : String
  name : String
  named : UnixPath.fileName path.toList = some name.toList

/-- `Path::with_file_name` -/
def withFileName (path name : String) : String :=
  joinPath (String.ofList ((UnixPath.parent path.toList).getD [])) name

def stagingName (name : String) (pid : UInt32) : String := s!".{name}.staging.{pid}"

/-- `staging_materialized_path` -/
def stagingMaterializedPath (finalPath backend : String) (pid : UInt32) :
    Except HotIndexError String :=
  match UnixPath.fileName finalPath.toList with
  | none => .error (.config s!"{backend} replay db path has no final directory name: {finalPath}")
  | some name => .ok (withFileName finalPath (stagingName (String.ofList name) pid))

theorem stagingName_inj {name : String} {pid pid' : UInt32}
    (h : stagingName name pid = stagingName name pid') : pid = pid' := by
  unfold stagingName at h
  have htext : toString pid = toString pid' := (String.append_right_inj _).1 h
  have hdigits : Nat.toDigits 10 pid.toNat = Nat.toDigits 10 pid'.toNat :=
    String.ofList_injective htext
  apply UInt32.toNat_inj.1
  rw [← Nat.ofDigitChars_toDigits (b := 10) (n := pid.toNat) (by decide) (by decide), hdigits,
    Nat.ofDigitChars_toDigits (by decide) (by decide)]

theorem stagingName_ne (name : String) (pid : UInt32) : stagingName name pid ≠ name := by
  intro h
  have hlength := congrArg String.length h
  unfold stagingName at hlength
  simp only [String.length_append] at hlength
  have hdot : (toString ".").length = 1 := by decide
  have hname : (toString name).length = name.length := rfl
  omega

theorem slash_notMem_stagingName {name : String} (hname : '/' ∉ name.toList) (pid : UInt32) :
    '/' ∉ (stagingName name pid).toList := by
  -- the name is made of dots, the name of the database and a process id
  have hdigits : '/' ∉ (toString pid).toList := by
    intro hmem
    have htext : (toString pid).toList = Nat.toDigits 10 pid.toNat := String.toList_ofList
    rw [htext] at hmem
    have hdigit := Nat.isDigit_of_mem_toDigits (by decide) (by decide) hmem
    exact absurd hdigit (by decide)
  have hdot : '/' ∉ (toString ".").toList := by decide
  have hmiddle : '/' ∉ (toString ".staging.").toList := by decide
  unfold stagingName
  simp only [String.toList_append, List.mem_append, not_or]
  exact ⟨⟨⟨hdot, hname⟩, hmiddle⟩, hdigits⟩

/-- As a path, the name of a staging directory is a single part. -/
theorem splitOn_stagingName {name : String} (hname : '/' ∉ name.toList) (pid : UInt32) :
    (stagingName name pid).toList.splitOn '/' = [(stagingName name pid).toList] := by
  have hparts := @UnixPath.splitOn_joinParts [(stagingName name pid).toList]
    (List.forall_mem_singleton.2 (slash_notMem_stagingName hname pid)) (by simp)
  have hjoin : UnixPath.joinParts [(stagingName name pid).toList] =
      (stagingName name pid).toList := by
    simp [UnixPath.joinParts, List.intercalate]
  rwa [hjoin] at hparts

theorem plain_stagingName {name : String} (hname : '/' ∉ name.toList) (pid : UInt32) :
    UnixPath.Plain (stagingName name pid).toList := by
  intro part hpart
  rw [splitOn_stagingName hname, List.mem_singleton] at hpart
  -- it is too long for a dot or two
  have hlength : 2 < part.length := by
    rw [hpart, String.length_toList]
    unfold stagingName
    simp only [String.length_append]
    have hmiddle : (toString ".staging.").length = 9 := by decide
    omega
  refine UnixPath.isName_iff.2 ⟨?_, ?_, ?_⟩ <;>
    · rintro rfl
      revert hlength
      decide

/-- The staging directory lies next to the database. -/
theorem stagingMaterializedPath_sibling (cwd : String) (db : DbPath) (pid : UInt32) :
    ∃ staging above, stagingMaterializedPath db.path "rocksdb" pid = .ok staging ∧
      UnixPath.resolve cwd.toList db.path.toList = above ++ [db.name.toList] ∧
      UnixPath.resolve cwd.toList staging.toList = above ++ [(stagingName db.name pid).toList] := by
  obtain ⟨par, hpar, hcomponents⟩ := UnixPath.exists_parent db.named
  -- the name of the database is one component, and so is the name made of it
  have hname : '/' ∉ db.name.toList := by
    apply @UnixPath.not_mem_of_mem_components db.path.toList
    rw [hcomponents]
    simp
  refine ⟨withFileName db.path (stagingName db.name pid), UnixPath.resolve cwd.toList par, ?_,
    UnixPath.resolve_of_components hcomponents, ?_⟩
  · unfold stagingMaterializedPath
    rw [db.named]
    simp only [String.ofList_toList]
  · unfold withFileName joinPath
    rw [String.toList_ofList, hpar, Option.getD_some, String.toList_ofList,
      UnixPath.resolve_join (plain_stagingName hname pid), splitOn_stagingName hname]

/-! ## Processes -/

/-- A process that runs `replay_rocksdb_materialized`. -/
structure MaterializeJob where
  pid : UInt32
  dataset : DatasetDir

/-- Where a process is in `replay_rocksdb_materialized`. -/
inductive MaterializePhase where
  | idle
  | checkDbPath
  | checkStagingPath
  | createParent
  | openEngine
  | replay (rest : List PutOp)
  | closeEngine
  | removeStaging (error : HotIndexError)
  | syncStagingParent
  | rename
  | syncDbParent
  | returned (result : Except HotIndexError Unit)
  | killed

/-- The process has started and not ended. -/
def MaterializePhase.Running : MaterializePhase → Prop
  | .idle | .returned _ | .killed => False
  | _ => True

/-- The process may be writing to its staging directory. -/
def MaterializePhase.Writes : MaterializePhase → Bool
  | .openEngine | .replay _ | .closeEngine | .removeStaging _ => true
  | _ => false

/-- The process has renamed its staging directory and has seen no error. -/
def MaterializePhase.Published : MaterializePhase → Prop
  | .syncDbParent | .returned (.ok ()) => True
  | _ => False

/-- The databases in the directory in which the database lies, by their names. -/
abbrev DbEntries := String → Option RocksDb

/-- What the operating system makes of a call. A failed call on the staging directory leaves
anything there. -/
inductive Io where
  | succeeds
  | fails (message : String) (left : Option RocksDb)

section Process

variable (env : DatasetEnv) (db : DbPath)

namespace MaterializeJob

variable (job : MaterializeJob)

def staging : String := stagingName db.name job.pid

/-- The text of the staging path. -/
def stagingPath : String := withFileName db.path (job.staging db)

/-- Something else is in the staging directory. -/
def setStaging (entries : DbEntries) (content : Option RocksDb) : DbEntries :=
  Function.update entries (job.staging db) content

/-- What `replay_into_engine` puts. -/
def stream : PutStream := replayStream env job.dataset

/-- The next call of `replay_rocksdb_materialized`. -/
def advance (io : Io) (entries : DbEntries) :
    MaterializePhase → DbEntries × MaterializePhase
  | .checkDbPath =>
    if (entries db.name).isSome then
      (entries, .returned (.error (.config (s!"rocksdb replay db path already exists: " ++
        s!"{db.path}; remove it or choose a new --db-path"))))
    else (entries, .checkStagingPath)
  | .checkStagingPath =>
    if (entries (job.staging db)).isSome then
      (entries, .returned (.error (.config (s!"rocksdb replay staging path already exists: " ++
        s!"{job.stagingPath db}; remove stale staging output before retrying"))))
    else (entries, .createParent)
  | .createParent =>
    match io with
    | .succeeds => (entries, .openEngine)
    | .fails message _ => (entries, .returned (.error (.config message)))
  | .openEngine =>
    match io with
    | .succeeds =>
      -- an existing database would be opened as it is
      let opened := (entries (job.staging db)).getD .empty
      (job.setStaging db entries (some opened), .replay (job.stream env).ops)
    | .fails message left => (job.setStaging db entries left, .removeStaging (.storage message))
  | .replay (op :: rest) =>
    match io with
    | .succeeds =>
      match RocksDb.exec (RocksDb.put env.serde op)
          ((entries (job.staging db)).getD .empty) with
      | (.ok (), written) => (job.setStaging db entries (some written), .replay rest)
      | (.error (.error error), written) =>
        (job.setStaging db entries (some written), .removeStaging error)
      | (.error (.panic _), written) => (job.setStaging db entries (some written), .killed)
    | .fails message left => (job.setStaging db entries left, .removeStaging (.storage message))
  | .replay [] =>
    match (job.stream env).error with
    | none => (entries, .closeEngine)
    | some error => (entries, .removeStaging error)
  | .closeEngine =>
    -- the statistics and checksums are printed, and the engine is flushed
    match io with
    | .succeeds => (entries, .syncStagingParent)
    | .fails message left => (job.setStaging db entries left, .removeStaging (.storage message))
  | .removeStaging error =>
    -- `let _ = fs::remove_dir_all(..)`
    match io with
    | .succeeds => (job.setStaging db entries none, .returned (.error error))
    | .fails _ left => (job.setStaging db entries left, .returned (.error error))
  | .syncStagingParent =>
    match io with
    | .succeeds => (entries, .rename)
    | .fails message _ => (entries, .returned (.error (.config message)))
  | .rename =>
    match io with
    | .succeeds =>
      match entries (job.staging db), entries db.name with
      | none, _ =>
        (entries, .returned (.error (.config "No such file or directory (os error 2)")))
      | some _, some _ =>
        -- a directory does not replace one that is not empty
        (entries, .returned (.error (.config "Directory not empty (os error 39)")))
      | some built, none =>
        (Function.update (job.setStaging db entries none) db.name (some built), .syncDbParent)
    | .fails message _ => (entries, .returned (.error (.config message)))
  | .syncDbParent =>
    match io with
    | .succeeds => (entries, .returned (.ok ()))
    | .fails message _ => (entries, .returned (.error (.config message)))
  | phase => (entries, phase)

end MaterializeJob

/-- A directory and the processes that materialize into it. -/
structure MaterializeState (ι : Type) where
  entries : DbEntries
  phase : ι → MaterializePhase

/-- A step of one process. -/
inductive MaterializeStep {ι : Type} [DecidableEq ι] (jobs : ι → MaterializeJob) :
    MaterializeState ι → MaterializeState ι → Prop
  /-- No two running processes have one process id. -/
  | start (s : MaterializeState ι) (i : ι) (hidle : s.phase i = .idle)
      (hpid : ∀ j, (jobs j).pid = (jobs i).pid → ¬ (s.phase j).Running) :
      MaterializeStep jobs s { s with phase := Function.update s.phase i .checkDbPath }
  | advance (s : MaterializeState ι) (i : ι) (io : Io) (hrunning : (s.phase i).Running) :
      MaterializeStep jobs s {
        entries := ((jobs i).advance env db io s.entries (s.phase i)).1
        phase := Function.update s.phase i
          ((jobs i).advance env db io s.entries (s.phase i)).2 }
  | kill (s : MaterializeState ι) (i : ι) (left : Option RocksDb)
      (hrunning : (s.phase i).Running) :
      MaterializeStep jobs s {
        entries := if (s.phase i).Writes then (jobs i).setStaging db s.entries left else s.entries
        phase := Function.update s.phase i .killed }

/-- Nobody has started. -/
def MaterializeState.start (ι : Type) (entries : DbEntries) : MaterializeState ι where
  entries := entries
  phase := fun _ => .idle

end Process

/-! ## What one process keeps -/

section Keeps

variable {env : DatasetEnv} {db : DbPath} {job : MaterializeJob} {entries : DbEntries}
  {phase : MaterializePhase}

namespace MaterializeJob

/-- A complete replay of the dataset into a new database ends with this database. -/
def Complete (env : DatasetEnv) (job : MaterializeJob) (built : RocksDb) : Prop :=
  RocksDb.exec (DatasetTool.replayIntoEngine env job.dataset (RocksDb.put env.serde)) .empty =
    (.ok (), built)

theorem complete_iff {built : RocksDb} :
    job.Complete env built ↔ (job.stream env).error = none ∧
      RocksDb.exec ((job.stream env).ops.forM (RocksDb.put env.serde)) .empty =
        (.ok (), built) := by
  unfold Complete
  rw [DatasetTool.replayIntoEngine_eq_run]
  exact PutStream.run_eq_ok_iff _

/-- What a process knows of the directory in each phase. -/
def Holds (env : DatasetEnv) (db : DbPath) (job : MaterializeJob) (entries : DbEntries) :
    MaterializePhase → Prop
  | .createParent | .openEngine => entries (job.staging db) = none
  | .replay rest => ∃ done written, (job.stream env).ops = done ++ rest ∧
      entries (job.staging db) = some written ∧
        RocksDb.exec (done.forM (RocksDb.put env.serde)) .empty = (.ok (), written)
  | .closeEngine | .syncStagingParent | .rename =>
    ∃ built, entries (job.staging db) = some built ∧ job.Complete env built
  | .syncDbParent | .returned (.ok ()) =>
    ∃ built, entries db.name = some built ∧ job.Complete env built
  | _ => True

theorem Holds.db_of_published (h : job.Holds env db entries phase) (hpublished : phase.Published) :
    ∃ built, entries db.name = some built ∧ job.Complete env built := by
  -- published are the phases behind the rename, and a return without an error
  cases phase with
  | syncDbParent => exact h
  | returned result =>
    cases result with
    | ok done => exact h
    | error error => cases hpublished
  | idle | checkDbPath | checkStagingPath | createParent | openEngine | replay _ | closeEngine
  | removeStaging _ | syncStagingParent | rename | killed => cases hpublished

/-- It still knows that if nobody else has touched its staging directory, and the database
only while it was not there. -/
theorem Holds.congr {entries' : DbEntries} (h : job.Holds env db entries phase)
    (hstaging : phase.Running → entries' (job.staging db) = entries (job.staging db))
    (hdb : phase.Published → entries' db.name = entries db.name) :
    job.Holds env db entries' phase := by
  cases phase with
  -- until the rename, the process counts on its staging entry
  | createParent => exact (hstaging trivial).trans h
  | openEngine => exact (hstaging trivial).trans h
  | replay rest =>
    obtain ⟨done, written, hops, hentry, hdone⟩ := h
    exact ⟨done, written, hops, (hstaging trivial).trans hentry, hdone⟩
  | closeEngine | syncStagingParent | rename =>
    obtain ⟨built, hentry, hcomplete⟩ := h
    exact ⟨built, (hstaging trivial).trans hentry, hcomplete⟩
  -- behind the rename, on the database
  | syncDbParent =>
    obtain ⟨built, hentry, hcomplete⟩ := h
    exact ⟨built, (hdb trivial).trans hentry, hcomplete⟩
  | returned result =>
    cases result with
    | error error => trivial
    | ok done =>
      obtain ⟨built, hentry, hcomplete⟩ := h
      exact ⟨built, (hdb trivial).trans hentry, hcomplete⟩
  | idle | checkDbPath | checkStagingPath | removeStaging _ | killed => trivial

@[simp] theorem setStaging_staging (entries : DbEntries) (content : Option RocksDb) :
    job.setStaging db entries content (job.staging db) = content :=
  Function.update_self ..

theorem setStaging_of_ne {name : String} (h : name ≠ job.staging db) (entries : DbEntries)
    (content : Option RocksDb) : job.setStaging db entries content name = entries name :=
  Function.update_of_ne h ..

@[simp] theorem setStaging_db (entries : DbEntries) (content : Option RocksDb) :
    job.setStaging db entries content db.name = entries db.name :=
  setStaging_of_ne (stagingName_ne _ _).symm entries content

/-- What a step leaves behind: what the process knows, and at most its staging directory
changed; or else the complete database under its name, where there was none. -/
structure Advances (env : DatasetEnv) (db : DbPath) (job : MaterializeJob) (entries : DbEntries)
    (phase : MaterializePhase) (next : DbEntries × MaterializePhase) : Prop where
  holds : job.Holds env db next.1 next.2
  running : next.2.Running → phase.Running
  frame : ∀ name, name ≠ db.name → name ≠ job.staging db → next.1 name = entries name
  database : (next.1 db.name = entries db.name ∧ (next.2.Published → phase.Published)) ∨
    entries db.name = none ∧ phase.Running ∧ ∃ built, next.1 db.name = some built ∧
      job.Complete env built

theorem advances_of_same {next : MaterializePhase} (hholds : job.Holds env db entries next)
    (hrunning : next.Running → phase.Running) (hpublished : next.Published → phase.Published) :
    job.Advances env db entries phase (entries, next) :=
  ⟨hholds, hrunning, fun _ _ _ => rfl, .inl ⟨rfl, hpublished⟩⟩

theorem advances_of_setStaging {next : MaterializePhase} (content : Option RocksDb)
    (hholds : job.Holds env db (job.setStaging db entries content) next)
    (hrunning : next.Running → phase.Running) (hpublished : next.Published → phase.Published) :
    job.Advances env db entries phase (job.setStaging db entries content, next) :=
  ⟨hholds, hrunning, fun _ _ hne => setStaging_of_ne hne _ _,
    .inl ⟨setStaging_db _ _, hpublished⟩⟩

/-- Opening a staging directory that is new. -/
theorem advances_openEngine (io : Io) (hnone : entries (job.staging db) = none) :
    job.Advances env db entries .openEngine (job.advance env db io entries .openEngine) := by
  cases io with
  | succeeds =>
    refine advances_of_setStaging _ ⟨[], .empty, rfl, ?_, rfl⟩ (fun _ => trivial) False.elim
    rw [setStaging_staging, hnone]
    rfl
  | fails message left => exact advances_of_setStaging left trivial (fun _ => trivial) False.elim

/-- The end of the operations: the replay is complete, unless it ends with an error. -/
theorem advances_replay_nil (io : Io) (h : job.Holds env db entries (.replay [])) :
    job.Advances env db entries (.replay []) (job.advance env db io entries (.replay [])) := by
  obtain ⟨done, written, hops, hentry, hdone⟩ := h
  rw [List.append_nil] at hops
  simp only [advance]
  -- an error of the stream comes behind all of its operations
  cases herror : (job.stream env).error with
  | none =>
    refine advances_of_same ⟨written, hentry, complete_iff.2 ⟨herror, ?_⟩⟩
      (fun _ => trivial) False.elim
    rw [hops]
    exact hdone
  | some error => exact advances_of_same trivial (fun _ => trivial) False.elim

/-- Some operations and one more. -/
theorem exec_forM_concat {done : List PutOp} {op : PutOp} {db written next : RocksDb}
    (hdone : RocksDb.exec (done.forM (RocksDb.put env.serde)) db = (.ok (), written))
    (hput : RocksDb.exec (RocksDb.put env.serde op) written = (.ok (), next)) :
    RocksDb.exec ((done ++ [op]).forM (RocksDb.put env.serde)) db = (.ok (), next) := by
  rw [List.forM_eq_forM] at hdone ⊢
  rw [List.forM_append, RocksDb.exec_bind_of_ok hdone]
  show RocksDb.exec (RocksDb.put env.serde op >>= fun _ => pure ()) written = _
  rw [RocksDb.exec_bind_of_ok hput]
  rfl

/-- One more operation is put, or cannot be. -/
theorem advances_replay_cons (io : Io) {op : PutOp} {rest : List PutOp}
    (h : job.Holds env db entries (.replay (op :: rest))) :
    job.Advances env db entries (.replay (op :: rest))
      (job.advance env db io entries (.replay (op :: rest))) := by
  obtain ⟨done, written, hops, hentry, hdone⟩ := h
  cases io with
  | fails message left => exact advances_of_setStaging left trivial (fun _ => trivial) False.elim
  | succeeds =>
    simp only [advance]
    rw [hentry, Option.getD_some]
    rcases hput : RocksDb.exec (RocksDb.put env.serde op) written with ⟨result, next⟩
    cases result with
    | error fault =>
      cases fault with
      | error error => exact advances_of_setStaging _ trivial (fun _ => trivial) False.elim
      | panic message => exact advances_of_setStaging _ trivial False.elim False.elim
    | ok _ =>
      -- what was put and what is left are still the whole stream
      have hsplit : (job.stream env).ops = (done ++ [op]) ++ rest := by
        rw [hops, List.append_assoc]
        rfl
      exact advances_of_setStaging _
        ⟨done ++ [op], next, hsplit, setStaging_staging _ _, exec_forM_concat hdone hput⟩
        (fun _ => trivial) False.elim

/-- The rename, the one step that touches the database. -/
theorem advances_rename (io : Io) (h : job.Holds env db entries .rename) :
    job.Advances env db entries .rename (job.advance env db io entries .rename) := by
  obtain ⟨built, hentry, hcomplete⟩ := h
  cases io with
  | fails message left => exact advances_of_same trivial False.elim False.elim
  | succeeds =>
    simp only [advance]
    rw [hentry]
    cases hdb : entries db.name with
    -- another process was faster
    | some other => exact advances_of_same trivial False.elim False.elim
    | none =>
      refine ⟨⟨built, Function.update_self .., hcomplete⟩, fun _ => trivial, ?_, ?_⟩
      · intro name hne hstaging
        exact (Function.update_of_ne hne ..).trans (setStaging_of_ne hstaging _ _)
      · exact .inr ⟨hdb, trivial, built, Function.update_self .., hcomplete⟩

/-- **The step of a process**, one case for each phase. -/
theorem advance_advances (io : Io) (h : job.Holds env db entries phase) :
    job.Advances env db entries phase (job.advance env db io entries phase) := by
  cases phase with
  | idle => exact advances_of_same h id id
  | returned result => exact advances_of_same h id id
  | killed => exact advances_of_same h id id
  | checkDbPath =>
    simp only [advance]
    split_ifs
    · exact advances_of_same trivial False.elim False.elim
    · exact advances_of_same trivial (fun _ => trivial) False.elim
  | checkStagingPath =>
    simp only [advance]
    split_ifs with hsome
    · exact advances_of_same trivial False.elim False.elim
    · exact advances_of_same (Option.not_isSome_iff_eq_none.1 hsome) (fun _ => trivial) False.elim
  | createParent =>
    cases io with
    | succeeds => exact advances_of_same h (fun _ => trivial) False.elim
    | fails message left => exact advances_of_same trivial False.elim False.elim
  | openEngine => exact advances_openEngine io h
  | replay rest =>
    cases rest with
    | nil => exact advances_replay_nil io h
    | cons op rest => exact advances_replay_cons io h
  -- a flush that fails may leave anything in the staging directory
  | closeEngine =>
    cases io with
    | succeeds => exact advances_of_same h (fun _ => trivial) False.elim
    | fails message left =>
      exact advances_of_setStaging left trivial (fun _ => trivial) False.elim
  | removeStaging error =>
    cases io with
    | succeeds => exact advances_of_setStaging none trivial False.elim False.elim
    | fails message left => exact advances_of_setStaging left trivial False.elim False.elim
  | syncStagingParent =>
    cases io with
    | succeeds => exact advances_of_same h (fun _ => trivial) False.elim
    | fails message left => exact advances_of_same trivial False.elim False.elim
  | rename => exact advances_rename io h
  | syncDbParent =>
    cases io with
    | succeeds => exact advances_of_same h False.elim (fun _ => trivial)
    | fails message left => exact advances_of_same trivial False.elim False.elim

end MaterializeJob

end Keeps

/-! ## What all of them keep -/

section System

variable {ι : Type} [DecidableEq ι] (env : DatasetEnv) (db : DbPath) (jobs : ι → MaterializeJob)

/-- Every process knows what its phase says, running processes have process ids of their own,
and at most one has published. -/
structure MaterializeInv (s : MaterializeState ι) : Prop where
  holds : ∀ i, (jobs i).Holds env db s.entries (s.phase i)
  pids : ∀ i j, (s.phase i).Running → (s.phase j).Running → (jobs i).pid = (jobs j).pid → i = j
  published : ∀ i j, (s.phase i).Published → (s.phase j).Published → i = j

/-- The databases that may be published. -/
def SomeComplete (built : RocksDb) : Prop := ∃ i, (jobs i).Complete env built

variable {env db jobs} {s s' : MaterializeState ι}

theorem MaterializeInv.move (h : MaterializeInv env db jobs s) {i : ι}
    (hrunning : (s.phase i).Running) {next : DbEntries × MaterializePhase}
    (hnext : (jobs i).Advances env db s.entries (s.phase i) next) :
    MaterializeInv env db jobs ⟨next.1, Function.update s.phase i next.2⟩ ∧
      ReflTransGen (WriteOnce (SomeComplete env jobs)) (s.entries db.name) (next.1 db.name) := by
  have hself : Function.update s.phase i next.2 i = next.2 := Function.update_self ..
  have hother : ∀ j, j ≠ i → Function.update s.phase i next.2 j = s.phase j :=
    fun j hne => Function.update_of_ne hne ..
  -- nobody has published as long as there is no database
  have hnobody : s.entries db.name = none → ∀ j, ¬ (s.phase j).Published := by
    intro hnone j hpublished
    obtain ⟨built, hbuilt, -⟩ := (h.holds j).db_of_published hpublished
    rw [hnone] at hbuilt
    cases hbuilt
  refine ⟨⟨fun j => ?_, fun j k hj hk hpid => ?_, fun j k hj hk => ?_⟩, ?_⟩
  · by_cases hne : j = i
    · subst hne
      simp only [hself]
      exact hnext.holds
    · simp only [hother j hne]
      refine (h.holds j).congr (fun hj => ?_) (fun hj => ?_)
      · refine hnext.frame _ (stagingName_ne _ _) (fun hsame => hne ?_)
        exact h.pids j i hj hrunning (stagingName_inj hsame)
      · rcases hnext.database with ⟨hsame, -⟩ | ⟨hnone, -⟩
        · exact hsame
        · exact absurd hj (hnobody hnone j)
  · have hbefore : ∀ j, (Function.update s.phase i next.2 j).Running → (s.phase j).Running := by
      intro j hj
      by_cases hne : j = i
      · subst hne
        exact hrunning
      · rwa [hother j hne] at hj
    exact h.pids j k (hbefore j hj) (hbefore k hk) hpid
  · rcases hnext.database with ⟨-, hpublished⟩ | ⟨hnone, -⟩
    · have hbefore : ∀ j, (Function.update s.phase i next.2 j).Published →
          (s.phase j).Published := by
        intro j hj
        by_cases hne : j = i
        · subst hne
          rw [hself] at hj
          exact hpublished hj
        · rwa [hother j hne] at hj
      exact h.published j k (hbefore j hj) (hbefore k hk)
    · -- only the process that has just published
      have honly : ∀ j, (Function.update s.phase i next.2 j).Published → j = i := by
        intro j hj
        by_contra hne
        rw [hother j hne] at hj
        exact hnobody hnone j hj
      rw [honly j hj, honly k hk]
  · rcases hnext.database with ⟨hsame, -⟩ | ⟨hnone, -, built, hbuilt, hcomplete⟩
    · rw [hsame]
    · rw [hnone, hbuilt]
      exact .single (.write ⟨i, hcomplete⟩)

/-- Seen at the database, every step is one of a register that is written once. -/
theorem materializeStep_simulates (s s' : MaterializeState ι) (h : MaterializeInv env db jobs s)
    (hstep : MaterializeStep env db jobs s s') :
    MaterializeInv env db jobs s' ∧
      ReflTransGen (WriteOnce (SomeComplete env jobs)) (s.entries db.name)
        (s'.entries db.name) := by
  cases hstep with
  | start i hidle hpid =>
    have hself : Function.update s.phase i .checkDbPath i = .checkDbPath := Function.update_self ..
    have hother : ∀ j, j ≠ i → Function.update s.phase i .checkDbPath j = s.phase j :=
      fun j hne => Function.update_of_ne hne ..
    have hpublished : ∀ j, (Function.update s.phase i .checkDbPath j).Published →
        (s.phase j).Published := by
      intro j hj
      by_cases hne : j = i
      · subst hne
        rw [hself] at hj
        cases hj
      · rwa [hother j hne] at hj
    -- the new process knows nothing yet, and no running one has its number
    refine ⟨⟨fun j => ?_, fun j k hj hk hsame => ?_, fun j k hj hk => ?_⟩, .refl⟩
    · by_cases hne : j = i
      · subst hne
        simp only [hself]
        trivial
      · simp only [hother j hne]
        exact h.holds j
    · by_cases hji : j = i
      · by_cases hki : k = i
        · rw [hji, hki]
        · simp only [hother k hki] at hk
          exact absurd hk (hpid k (by rw [← hsame, hji]))
      · simp only [hother j hji] at hj
        by_cases hki : k = i
        · exact absurd hj (hpid j (by rw [hsame, hki]))
        · simp only [hother k hki] at hk
          exact h.pids j k hj hk hsame
    · exact h.published j k (hpublished j hj) (hpublished k hk)
  | advance i io hrunning =>
    exact h.move hrunning (MaterializeJob.advance_advances io (h.holds i))
  | kill i left hrunning =>
    have hkilled : ∀ entries, (jobs i).Holds env db entries .killed := fun _ => trivial
    split_ifs
    · exact h.move hrunning
        (MaterializeJob.advances_of_setStaging left (hkilled _) False.elim False.elim)
    · exact h.move hrunning
        (MaterializeJob.advances_of_same (hkilled _) False.elim False.elim)

/-- No step touches what is neither the database nor a staging directory. -/
theorem materializeStep_frame {s s' : MaterializeState ι} (h : MaterializeInv env db jobs s)
    (hstep : MaterializeStep env db jobs s s') {name : String} (hdb : name ≠ db.name)
    (hstaging : ∀ i, name ≠ (jobs i).staging db) : s'.entries name = s.entries name := by
  -- a process touches the database and its own staging entry only
  cases hstep with
  | start i hidle hpid => rfl
  | advance i io hrunning =>
    exact (MaterializeJob.advance_advances io (h.holds i)).frame name hdb (hstaging i)
  | kill i left hrunning =>
    show (if _ then _ else s.entries) name = _
    split_ifs
    · exact MaterializeJob.setStaging_of_ne (hstaging i) _ _
    · rfl

omit [DecidableEq ι] in
theorem materializeInv_start (entries : DbEntries) :
    MaterializeInv env db jobs (.start ι entries) :=
  ⟨fun _ => trivial, fun _ _ => False.elim, fun _ _ => False.elim⟩

/-- **The database is written once.** In every state that processes reach together, starting
and failing and being killed in any order: the database is the one from before, or where there
was none, that of a complete replay; a process that returned `Ok` has put its own replay there,
and is the only one; in whatever happens from there on, the database stays; and other entries of
the directory are never touched. -/
theorem materialize_once (entries : DbEntries)
    (h : ReflTransGen (MaterializeStep env db jobs) (.start ι entries) s) :
    (∀ built, s.entries db.name = some built →
      entries db.name = some built ∨ entries db.name = none ∧ ∃ i, (jobs i).Complete env built) ∧
    (∀ i, s.phase i = .returned (.ok ()) →
      ∃ built, s.entries db.name = some built ∧ (jobs i).Complete env built) ∧
    (∀ i j, s.phase i = .returned (.ok ()) → s.phase j = .returned (.ok ()) → i = j) ∧
    (∀ s', ReflTransGen (MaterializeStep env db jobs) s s' →
      ∀ built, s.entries db.name = some built → s'.entries db.name = some built) ∧
    ∀ name, name ≠ db.name → (∀ i, name ≠ (jobs i).staging db) →
      s.entries name = entries name := by
  obtain ⟨hinv, hrun⟩ := run_simulates (fun s : MaterializeState ι => s.entries db.name)
    materializeStep_simulates h (materializeInv_start entries)
  -- from the register: what it holds, and that it stays; from the invariant: whose it is
  refine ⟨fun built hbuilt => ?_, fun i hi => ?_, fun i j hi hj => ?_,
    fun s' hrun' built hbuilt => ?_, fun name hdb hstaging => ?_⟩
  · rw [hbuilt] at hrun
    exact WriteOnce.eq_or_allowed hrun
  · apply (hinv.holds i).db_of_published
    rw [hi]
    trivial
  · apply hinv.published i j
    · rw [hi]
      trivial
    · rw [hj]
      trivial
  · obtain ⟨-, hafter⟩ := run_simulates (fun s : MaterializeState ι => s.entries db.name)
      materializeStep_simulates hrun' hinv
    rw [hbuilt] at hafter
    exact WriteOnce.run_some hafter
  · have hkeeps : ∀ s s' : MaterializeState ι,
        MaterializeInv env db jobs s ∧ s.entries name = entries name →
          MaterializeStep env db jobs s s' →
            MaterializeInv env db jobs s' ∧ s'.entries name = entries name :=
      fun s s' hs hstep => ⟨(materializeStep_simulates s s' hs.1 hstep).1,
        (materializeStep_frame hs.1 hstep hdb hstaging).trans hs.2⟩
    exact (run_keeps hkeeps h ⟨materializeInv_start entries, rfl⟩).2

/-! ## A process on its own -/

/-- The state with one process elsewhere. -/
def MaterializeState.withProcess (s : MaterializeState ι) (i : ι) (entries : DbEntries)
    (phase : MaterializePhase) : MaterializeState ι where
  entries := entries
  phase := Function.update s.phase i phase

variable {i : ι} {phase next : MaterializePhase} {entries entries' : DbEntries}

@[simp] theorem withProcess_entries (s : MaterializeState ι) :
    (s.withProcess i entries phase).entries = entries := rfl

@[simp] theorem withProcess_phase (s : MaterializeState ι) :
    (s.withProcess i entries phase).phase i = phase := Function.update_self ..

/-- A call that succeeds. -/
theorem call_succeeds (s : MaterializeState ι) (hrunning : phase.Running)
    (hnext : (jobs i).advance env db .succeeds entries phase = (entries', next)) :
    MaterializeStep env db jobs (s.withProcess i entries phase)
      (s.withProcess i entries' next) := by
  have hphase := @withProcess_phase ι _ i phase entries s
  have hstep := @MaterializeStep.advance env db ι _ jobs (s.withProcess i entries phase) i .succeeds
    (by rw [hphase]; exact hrunning)
  have hentries : (s.withProcess i entries phase).entries = entries := rfl
  rw [hphase, hentries, hnext] at hstep
  -- the phase of the process is replaced, those of the others stay
  have hafter : Function.update (s.withProcess i entries phase).phase i next =
      Function.update s.phase i next := Function.update_idem ..
  rw [hafter] at hstep
  exact hstep

/-- Operations that can be put are put one after the other. -/
theorem replay_succeeds (s : MaterializeState ι) (entries : DbEntries) (rest : List PutOp)
    {written built : RocksDb}
    (hput : RocksDb.exec (rest.forM (RocksDb.put env.serde)) written = (.ok (), built)) :
    ReflTransGen (MaterializeStep env db jobs)
      (s.withProcess i ((jobs i).setStaging db entries (some written)) (.replay rest))
      (s.withProcess i ((jobs i).setStaging db entries (some built)) (.replay [])) := by
  -- on the operations that are left; each put replaces the staging entry
  induction rest generalizing written with
  | nil =>
    cases hput
    exact .refl
  | cons op rest ih =>
    rw [List.forM_eq_forM, List.forM_cons] at hput
    rcases hop : RocksDb.exec (RocksDb.put env.serde op) written with ⟨result, between⟩
    cases result with
    | error fault =>
      rw [RocksDb.exec_bind_of_error hop] at hput
      cases hput
    | ok _ =>
      rw [RocksDb.exec_bind_of_ok hop] at hput
      refine .head (call_succeeds s trivial ?_) (ih hput)
      simp only [MaterializeJob.advance, MaterializeJob.setStaging_staging, Option.getD_some, hop]
      rw [MaterializeJob.setStaging, MaterializeJob.setStaging, Function.update_idem]
      rfl

/-- From the check of the database to the rename: a process whose staging directory is not there
replays its dataset into it, if a complete replay ends well and no call fails. -/
theorem process_stages (s : MaterializeState ι) (entries : DbEntries)
    (hstaging : entries ((jobs i).staging db) = none) {built : RocksDb}
    (hcomplete : (jobs i).Complete env built) :
    ReflTransGen (MaterializeStep env db jobs) (s.withProcess i entries .checkStagingPath)
      (s.withProcess i ((jobs i).setStaging db entries (some built)) .rename) := by
  obtain ⟨herror, hops⟩ := MaterializeJob.complete_iff.1 hcomplete
  -- the calls that look at the directory: nothing is staged yet
  have hcheck : (jobs i).advance env db .succeeds entries .checkStagingPath =
      (entries, .createParent) := by
    simp [MaterializeJob.advance, hstaging]
  have hopen : (jobs i).advance env db .succeeds entries .openEngine =
      ((jobs i).setStaging db entries (some .empty), .replay ((jobs i).stream env).ops) := by
    simp only [MaterializeJob.advance, hstaging, Option.getD_none]
  -- the stream of the job ends without an error
  have hclose : (jobs i).advance env db .succeeds
      ((jobs i).setStaging db entries (some built)) (.replay []) =
        ((jobs i).setStaging db entries (some built), .closeEngine) := by
    simp only [MaterializeJob.advance, herror]
  have hchecks : ReflTransGen (MaterializeStep env db jobs)
      (s.withProcess i entries .checkStagingPath) (s.withProcess i entries .openEngine) :=
    .head (call_succeeds s trivial hcheck) <|
    .single (call_succeeds s trivial rfl)
  refine hchecks.trans ?_
  exact .head (call_succeeds s trivial hopen) <|
    (replay_succeeds s entries _ hops).trans <|
    .head (call_succeeds s trivial hclose) <|
    .head (call_succeeds s trivial rfl) <|
    .single (call_succeeds s trivial rfl)

/-- A process starts, and finds that there is no database. -/
theorem process_starts {s : MaterializeState ι} (hidle : s.phase i = .idle)
    (hpid : ∀ j, (jobs j).pid = (jobs i).pid → ¬ (s.phase j).Running)
    (hdb : s.entries db.name = none) :
    ReflTransGen (MaterializeStep env db jobs) s
      (s.withProcess i s.entries .checkStagingPath) := by
  have hstart : MaterializeStep env db jobs s (s.withProcess i s.entries .checkDbPath) :=
    .start s i hidle hpid
  -- there is no database yet, so the process goes on
  have hcheck : (jobs i).advance env db .succeeds s.entries .checkDbPath =
      (s.entries, .checkStagingPath) := by
    simp [MaterializeJob.advance, hdb]
  exact .head hstart (.single (call_succeeds s trivial hcheck))

/-- If a complete replay of its dataset ends well, the database and the staging directory are not
there, and no call fails, then a process returns `Ok` with the database in place and no staging
directory left. -/
theorem process_alone_publishes {s : MaterializeState ι} (hidle : s.phase i = .idle)
    (hpid : ∀ j, (jobs j).pid = (jobs i).pid → ¬ (s.phase j).Running)
    (hdb : s.entries db.name = none) (hstaging : s.entries ((jobs i).staging db) = none)
    {built : RocksDb} (hcomplete : (jobs i).Complete env built) :
    ReflTransGen (MaterializeStep env db jobs) s
      (s.withProcess i (Function.update s.entries db.name (some built)) (.returned (.ok ()))) := by
  -- the rename takes the staging entry away again
  have hrename : (jobs i).advance env db .succeeds
      ((jobs i).setStaging db s.entries (some built)) .rename =
        (Function.update s.entries db.name (some built), .syncDbParent) := by
    simp only [MaterializeJob.advance, MaterializeJob.setStaging_staging,
      MaterializeJob.setStaging_db, hdb]
    rw [MaterializeJob.setStaging, MaterializeJob.setStaging, Function.update_idem, ← hstaging,
      Function.update_eq_self]
  have hpublish : ReflTransGen (MaterializeStep env db jobs)
      (s.withProcess i ((jobs i).setStaging db s.entries (some built)) .rename)
      (s.withProcess i (Function.update s.entries db.name (some built)) (.returned (.ok ()))) :=
    .head (call_succeeds s trivial hrename) <|
    .single (call_succeeds s trivial rfl)
  exact (process_starts hidle hpid hdb).trans
    ((process_stages s s.entries hstaging hcomplete).trans hpublish)

/-- A process that has seen no database, and comes to the rename when there is one, returns an
error and leaves its staging directory behind. -/
theorem process_late_refused {s : MaterializeState ι} (hphase : s.phase i = .checkStagingPath)
    {other : RocksDb} (hdb : s.entries db.name = some other)
    (hstaging : s.entries ((jobs i).staging db) = none) {built : RocksDb}
    (hcomplete : (jobs i).Complete env built) :
    ReflTransGen (MaterializeStep env db jobs) s
      (s.withProcess i ((jobs i).setStaging db s.entries (some built))
        (.returned (.error (.config "Directory not empty (os error 39)")))) := by
  -- the state is already that of the process at this phase
  have hsame : s.withProcess i s.entries .checkStagingPath = s := by
    unfold MaterializeState.withProcess
    rw [← hphase, Function.update_eq_self]
  have hrefused : (jobs i).advance env db .succeeds
      ((jobs i).setStaging db s.entries (some built)) .rename =
        ((jobs i).setStaging db s.entries (some built),
          .returned (.error (.config "Directory not empty (os error 39)"))) := by
    simp only [MaterializeJob.advance, MaterializeJob.setStaging_staging,
      MaterializeJob.setStaging_db, hdb]
  have hrun := (process_stages s s.entries hstaging hcomplete).trans
    (.single (call_succeeds s trivial hrefused))
  rwa [hsame] at hrun

end System

/-! ## Two processes -/

def materializedPath : DbPath where
  path := "data/materialized/rocksdb"
  name := "rocksdb"
  named := by decide +kernel

/-- Two processes that materialize the dataset of the first fixture. -/
def marketJobs (second : Bool) : MaterializeJob where
  pid := if second then 2 else 1
  dataset := firstRoot

theorem leaves_firstRoot (hashes : SortedMap Text String)
    (haccept : acceptManifest marketEnv firstRoot = .ok (firstManifest hashes)) :
    Leaves marketEnv (fixtureDataset marketOptions (marketRows [7, 8]) hashes) firstRoot where
  manifest := (acceptManifest_eq_ok_iff.1 haccept).1
  rows := by
    intro file hfile
    rw [files_firstRoot]
    exact get?_firstFiles (.inl (List.mem_append_left _ hfile))

theorem lossless_markets :
    ∀ op ∈ (marketRows [7, 8]).ingestRows.ops, marketEnv.serde.Lossless op := by
  intro op hop
  have hdistinct : DistinctJson ((marketRows [7, 8, 9]).txs.map .putTx ++
      (marketRows [7, 8, 9]).events.map .putEvent) := by decide +kernel
  have hmem : ∀ op ∈ (marketRows [7, 8]).ingestRows.ops, op ∈
      (marketRows [7, 8, 9]).txs.map .putTx ++ (marketRows [7, 8, 9]).events.map .putEvent := by
    decide +kernel
  exact SerdeJson.ofOps_lossless hdistinct op (hmem op hop)

/-- The rows can be replayed into a new database. -/
theorem exists_complete_markets (second : Bool) :
    ∃ built, (marketJobs second).Complete marketEnv built := by
  obtain ⟨hashes, haccept⟩ := accept_firstRoot
  have hok : (RocksDb.exec ((fixtureDataset marketOptions (marketRows [7, 8])
      .empty).replayOps.forM (RocksDb.put marketEnv.serde)) .empty).1 = .ok () := by decide +kernel
  -- the digests are not replayed
  have hreplay := ((leaves_firstRoot hashes haccept).replay lossless_markets haccept
    (RocksDb.put marketEnv.serde)).1
  have hops : (fixtureDataset marketOptions (marketRows [7, 8]) hashes).replayOps =
      (fixtureDataset marketOptions (marketRows [7, 8]) .empty).replayOps := rfl
  rw [hops] at hreplay
  refine ⟨(RocksDb.exec ((fixtureDataset marketOptions (marketRows [7, 8])
    .empty).replayOps.forM (RocksDb.put marketEnv.serde)) .empty).2, ?_⟩
  unfold MaterializeJob.Complete marketJobs
  rw [hreplay]
  exact Prod.ext hok rfl

/-- Both processes find no database. One of them publishes it, and the other one, which has
replayed the dataset too, is refused when it renames. -/
theorem materialize_once_markets :
    ∃ s built, ReflTransGen (MaterializeStep marketEnv materializedPath marketJobs)
        (.start Bool fun _ => none) s ∧ s.phase false = .returned (.ok ()) ∧
      s.phase true = .returned (.error (.config "Directory not empty (os error 39)")) ∧
      s.entries "rocksdb" = some built ∧ (marketJobs false).Complete marketEnv built ∧
      ∀ s', ReflTransGen (MaterializeStep marketEnv materializedPath marketJobs) s s' →
        s'.entries "rocksdb" = some built := by
  obtain ⟨built, hfirst⟩ := exists_complete_markets false
  obtain ⟨other, hsecond⟩ := exists_complete_markets true
  have hstaging : (marketJobs true).staging materializedPath ≠ materializedPath.name :=
    stagingName_ne _ _
  -- the second process starts first
  have hstarts := @process_starts Bool _ marketEnv materializedPath marketJobs true
    (.start Bool fun _ => none) rfl (fun _ _ => id) rfl
  set seen := (MaterializeState.start Bool fun _ => none).withProcess true (fun _ => none)
    .checkStagingPath
  have hpids : ∀ j, (marketJobs j).pid = (marketJobs false).pid → ¬ (seen.phase j).Running := by
    intro j hj
    cases j with
    | false => exact id
    | true => exact absurd hj (by decide)
  have hpublishes := @process_alone_publishes Bool _ marketEnv materializedPath marketJobs false
    seen rfl hpids rfl rfl built hfirst
  set published := seen.withProcess false
    (Function.update seen.entries materializedPath.name (some built)) (.returned (.ok ()))
  have hentry : published.entries materializedPath.name = some built := by
    rw [withProcess_entries, Function.update_self]
  have hnone : published.entries ((marketJobs true).staging materializedPath) = none := by
    rw [withProcess_entries, Function.update_of_ne hstaging]
    rfl
  have hrefused := process_late_refused (i := true) rfl hentry hnone hsecond
  have hrun := hstarts.trans (hpublishes.trans hrefused)
  obtain ⟨-, hreturned, -, hstays, -⟩ := materialize_once _ hrun
  obtain ⟨found, hfound, hcomplete⟩ := hreturned false rfl
  exact ⟨_, found, hrun, rfl, withProcess_phase published, hfound, hcomplete,
    fun s' hrun' => hstays s' hrun' found hfound⟩

end HotIndex
