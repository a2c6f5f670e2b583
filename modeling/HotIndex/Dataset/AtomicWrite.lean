import HotIndex.Dataset.DatasetCrash
import HotIndex.Lib.AtomicReplace
import HotIndex.Lib.UnixPath
import HotIndex.Lib.WriteLog

/-!
# Atomic Writes on a Disk

The dataset directory takes an `atomic_write` as one step. Below it is a disk: the content goes
into a temporary file in as many pieces as its buffer is flushed, the file is synced and renamed,
and its directory is synced. A power failure may strike between any two of these calls.

What the disk shows is what the directory holds: while a command runs, behind each prefix of its
calls, and after any runs, some of them ended by the power (`disk_refines_directory`). The
directories of the root exist, and can be opened to be synced. A process that is killed leaves
what a power failure can leave.
-/

namespace HotIndex

open Lib Function

/-! ## Writing -/

/-- `tmp_path_for` -/
def tmpPathFor (path : String) : Except HotIndexError String :=
  match UnixPath.fileName path.toList with
  | none => .error (.config s!"cannot build temp path for {path}")
  | some name =>
    .ok (String.ofList (UnixPath.join ((UnixPath.parent path.toList).getD [])
      (name ++ ".tmp".toList)))

/-- The directory that `sync_parent_dir` opens. -/
def parentDir (path : String) : Option (List Char) := UnixPath.parent path.toList

/-- `atomic_write` of what its buffer is flushed in. -/
def atomicWrite (path : String) (chunks : List Bytes) :
    Except HotIndexError (List (FileOp String (Option (List Char)) UInt8)) := do
  let tmp ← tmpPathFor path
  return replaceOps parentDir tmp path chunks

/-- The calls of one `atomic_write` after the other. -/
def atomicWrites (writes : List (String × List Bytes)) :
    Except HotIndexError (List (FileOp String (Option (List Char)) UInt8)) := do
  let ops ← writes.mapM fun write => atomicWrite write.1 write.2
  return ops.flatten

/-- The file that a step of a run replaces, and by what. -/
def DatasetWrite.replacement (env : DatasetEnv) : DatasetWrite → String × Bytes
  | .file relative content => (relative, content)
  | .manifest written => ("manifest.json", env.manifestText written)

/-- The steps, each with its content in pieces. -/
def Flushed (env : DatasetEnv) (steps : List DatasetWrite) (writes : List (String × List Bytes)) :
    Prop :=
  writes.map (fun write => (write.1, write.2.flatten)) = steps.map (·.replacement env)

/-- The name is not one that `tmp_path_for` makes. -/
def IsFinal (path : String) : Prop := ¬ ".tmp".toList <:+ path.toList

/-- The files that runs write. -/
def writtenFiles : List String := "manifest.json" :: (normalizedArtifacts ++ queryCorpusArtifacts)

theorem tmpPathFor_written : ∀ path ∈ writtenFiles, tmpPathFor path = .ok (path ++ ".tmp") := by
  decide +kernel

theorem written_final : ∀ path ∈ writtenFiles, IsFinal path := by
  unfold IsFinal
  decide +kernel

theorem parentDir_tmp : ∀ path ∈ writtenFiles, parentDir (path ++ ".tmp") = parentDir path := by
  decide +kernel

/-- No temporary path is missing for the files that runs write. -/
theorem atomicWrites_written {writes : List (String × List Bytes)}
    (h : ∀ write ∈ writes, write.1 ∈ writtenFiles) :
    atomicWrites writes = .ok (replaceAllOps parentDir (· ++ ".tmp") writes) := by
  -- each of the files has a parent, so that no temporary name is refused
  have hops : writes.mapM (fun write => atomicWrite write.1 write.2) =
      .ok (writes.map fun write => replaceOps parentDir (write.1 ++ ".tmp") write.1 write.2) := by
    induction writes with
    | nil => rfl
    | cons write writes ih =>
      obtain ⟨hfirst, hrest⟩ := List.forall_mem_cons.1 h
      have hwrite : atomicWrite write.1 write.2 =
          .ok (replaceOps parentDir (write.1 ++ ".tmp") write.1 write.2) := by
        rw [atomicWrite, tmpPathFor_written _ hfirst]
        rfl
      rw [List.mapM_cons, hwrite, ih hrest]
      rfl
  rw [atomicWrites, hops]
  rfl

/-! ## The directory that a disk shows -/

/-- Where a dataset root is, and what runs read of it. -/
structure RootLayout where
  display : String
  elsewhere : SortedMap Text Bytes
  /-- The files below the root, other than the manifest -/
  names : List String
  readManifest : Bytes → Option DatasetManifest
  names_final : ∀ name ∈ names, IsFinal name ∧ name ≠ "manifest.json"
  names_written : ∀ name ∈ normalizedArtifacts ++ queryCorpusArtifacts, name ∈ names

namespace RootLayout

variable (layout : RootLayout)

/-- The directory of these files. -/
def dirOfFiles (files : String → Option Bytes) : DatasetDir where
  display := layout.display
  files := SortedMap.ofList (layout.names.filterMap fun name =>
    (files name).map fun content => ((⟨name⟩ : Text), content))
  manifest := (files "manifest.json").bind layout.readManifest
  elsewhere := layout.elsewhere

/-- The directory that a disk shows. -/
def dir (disk : Disk String UInt8) : DatasetDir := layout.dirOfFiles disk.read

variable {layout} {files files' : String → Option Bytes}

theorem get?_dirOfFiles (name : String) :
    (layout.dirOfFiles files).files.get? ⟨name⟩ =
      if name ∈ layout.names then files name else none := by
  -- each entry says what the disk holds, so the last one for a name does
  have hentry : ∀ content, ((⟨name⟩ : Text), content) ∈ layout.names.filterMap (fun name =>
      (files name).map fun content => ((⟨name⟩ : Text), content)) ↔
        name ∈ layout.names ∧ files name = some content := by
    intro content
    rw [List.mem_filterMap]
    constructor
    · rintro ⟨other, hother, hfile⟩
      obtain ⟨found, hfound, hpair⟩ := Option.map_eq_some_iff.1 hfile
      obtain ⟨hname, rfl⟩ := Prod.mk.inj hpair
      obtain rfl : other = name := congrArg Text.str hname
      exact ⟨hother, hfound⟩
    · rintro ⟨hname, hfile⟩
      exact ⟨name, hname, by rw [hfile]; rfl⟩
  show (SortedMap.ofList _).get? _ = _
  rw [SortedMap.get?_ofList]
  cases hlast : SortedMap.lastWrite (⟨name⟩ : Text) (layout.names.filterMap fun name =>
      (files name).map fun content => ((⟨name⟩ : Text), content)) with
  | some content =>
    obtain ⟨before, after, hsplit, -⟩ := (SortedMap.lastWrite_eq_some_iff _ _ _).1 hlast
    obtain ⟨hname, hfile⟩ := (hentry content).1 (by rw [hsplit]; simp)
    rw [if_pos hname, hfile]
  | none =>
    split_ifs with hname
    · cases hfile : files name with
      | none => rfl
      | some content =>
        have hsome := (SortedMap.lastWrite_isSome_iff _ _).2
          (List.mem_map_of_mem (f := Prod.fst) ((hentry content).2 ⟨hname, hfile⟩))
        rw [hlast] at hsome
        cases hsome
    · rfl

/-- The directory shows files with a final name only. -/
theorem dirOfFiles_congr (h : ∀ name, IsFinal name → files name = files' name) :
    layout.dirOfFiles files = layout.dirOfFiles files' := by
  have hmanifest : files "manifest.json" = files' "manifest.json" :=
    h _ (written_final _ List.mem_cons_self)
  -- only final names are looked at
  have hnames : (layout.names.filterMap fun name =>
      (files name).map fun content => ((⟨name⟩ : Text), content)) =
        layout.names.filterMap fun name =>
          (files' name).map fun content => ((⟨name⟩ : Text), content) :=
    List.filterMap_congr fun name hname => by rw [h name (layout.names_final name hname).1]
  unfold dirOfFiles
  rw [hmanifest, hnames]

/-- Replacing a file that runs write is the step of the directory. -/
theorem dirOfFiles_update {env : DatasetEnv} {write : DatasetWrite}
    (hmanifest : ∀ manifest, write = .manifest manifest →
      layout.readManifest (env.manifestText manifest) = some manifest)
    (hwritten : ∀ relative content, write = .file relative content →
      relative ∈ normalizedArtifacts ++ queryCorpusArtifacts) :
    layout.dirOfFiles (update files (write.replacement env).1 (some (write.replacement env).2)) =
      Store.apply (layout.dirOfFiles files) write := by
  cases write with
  | file relative content =>
    have hname := layout.names_written relative (hwritten relative content rfl)
    have hne := (layout.names_final relative hname).2
    -- the directory is rebuilt from all files; only the replaced one differs
    have hfiles : (layout.dirOfFiles (update files relative (some content))).files =
        (layout.dirOfFiles files).files.insert ⟨relative⟩ content := by
      refine SortedMap.ext_get? fun ⟨name⟩ => ?_
      rw [get?_dirOfFiles]
      by_cases he : name = relative
      · rw [he, if_pos hname, update_self, SortedMap.get?_insert_self]
      · rw [update_of_ne he, SortedMap.get?_insert_of_ne _ (fun ht => he (congrArg Text.str ht)),
          get?_dirOfFiles]
    have hread : update files relative (some content) "manifest.json" = files "manifest.json" :=
      update_of_ne hne.symm ..
    show DatasetDir.mk _ (layout.dirOfFiles (update files relative (some content))).files
      ((update files relative (some content) "manifest.json").bind layout.readManifest) _ = _
    rw [hfiles, hread]
    rfl
  | manifest written =>
    have hfiles : (layout.dirOfFiles (update files "manifest.json"
        (some (env.manifestText written)))).files = (layout.dirOfFiles files).files := by
      refine SortedMap.ext_get? fun ⟨name⟩ => ?_
      rw [get?_dirOfFiles, get?_dirOfFiles]
      split_ifs with hname
      · exact update_of_ne (layout.names_final name hname).2 ..
      · rfl
    show DatasetDir.mk _ (layout.dirOfFiles (update files "manifest.json"
        (some (env.manifestText written)))).files
      ((update files "manifest.json" (some (env.manifestText written)) "manifest.json").bind
        layout.readManifest) _ = _
    rw [hfiles, update_self, Option.bind_some, hmanifest written rfl]
    rfl

theorem dir_of_shows {disk : Disk String UInt8} (h : disk.Shows IsFinal files) :
    layout.dir disk = layout.dirOfFiles files := dirOfFiles_congr h

end RootLayout

/-! ## The writes of a command -/

/-- The step replaces a file that runs write. -/
def DatasetWrite.IsWritten (write : DatasetWrite) : Prop :=
  ∀ relative content, write = .file relative content →
    relative ∈ normalizedArtifacts ++ queryCorpusArtifacts

theorem takes_manifest (manifest : DatasetManifest) :
    Takes DatasetWrite.IsWritten (StoreM.perform (.manifest manifest) : DatasetM Unit) :=
  .perform fun _ _ h => by cases h

theorem takes_writeFiles {files : List (String × Bytes)}
    (h : ∀ name ∈ files.map Prod.fst, name ∈ normalizedArtifacts ++ queryCorpusArtifacts) :
    Takes DatasetWrite.IsWritten (writeFiles files) := by
  induction files with
  | nil => exact .pure ()
  | cons file files ih =>
    obtain ⟨hfirst, hrest⟩ := List.forall_mem_cons.1 h
    refine .bind (.perform fun relative content hwrite => ?_) fun _ => ih hrest
    cases hwrite
    exact hfirst

theorem names_protobufFiles_written (env : DatasetEnv) (st : DecodeState) :
    ∀ name ∈ (protobufFiles env st).map Prod.fst,
      name ∈ normalizedArtifacts ++ queryCorpusArtifacts := by
  have hartifacts : ∀ name ∈ normalizedArtifacts,
      name ∈ normalizedArtifacts ++ queryCorpusArtifacts := fun _ => List.mem_append_left _
  unfold protobufFiles
  simp only [List.map_append, List.forall_mem_append]
  -- eight files of rows, then perhaps the query files, then the warnings
  refine ⟨⟨fun name hname => hartifacts name (List.mem_of_mem_take (i := 8) hname), ?_⟩,
    fun name hname => hartifacts name (List.mem_of_mem_drop (i := 8) hname)⟩
  split_ifs
  · simp
  · rw [names_queryFiles]
    exact fun name => List.mem_append_right _

/-- Every command writes its manifest and the artifacts only. -/
theorem command_takes (env : DatasetEnv) (command : DatasetCommand) :
    Takes DatasetWrite.IsWritten (command.run env) := by
  -- whatever the reads return, a command writes its own files and the manifest only
  cases command with
  | normalizeFixture options rawInput =>
    refine .bind .read fun dir => .bind (.ofExcept _) fun rows => ?_
    refine .bind (takes_writeFiles fun name hname => List.mem_append_left _ hname) fun _ => ?_
    exact .bind .read fun dir' => .bind (.ofExcept _) fun hashes => takes_manifest _
  | normalizeProtobuf options rawInputs requireContiguousChunks =>
    refine .bind .read fun dir => .bind (.ofExcept _) fun st => ?_
    refine .bind (takes_writeFiles (names_protobufFiles_written env st)) fun _ => ?_
    exact .bind .read fun dir' => .bind (.ofExcept _) fun hashes => takes_manifest _
  | buildQueryCorpus normalizedDir eventsName =>
    refine .bind .read fun dir => .bind (.ofExcept _) fun rows => ?_
    split_ifs
    · exact .fail _
    · refine .bind (takes_writeFiles ?_) fun _ => .bind .read fun dir' => ?_
      · rw [names_queryFiles]
        exact fun name => List.mem_append_right _
      · cases dir'.manifest with
        | none => exact .pure ()
        | some manifest => exact .bind (.ofExcept _) fun hashes => takes_manifest _

/-! ## Runs on a disk -/

section Runs

variable (env : DatasetEnv) (layout : RootLayout)

/-- A command on a disk, up to its end or up to a power failure. -/
inductive DiskRun (command : DatasetCommand) (disk : Disk String UInt8) :
    Disk String UInt8 → Prop
  | ends {writes : List (String × List Bytes)}
      {ops : List (FileOp String (Option (List Char)) UInt8)}
      (hflushed : Flushed env (command.run env (layout.dir disk)).steps writes)
      (hops : atomicWrites writes = .ok ops) : DiskRun command disk (disk.run parentDir ops)
  | fails {writes : List (String × List Bytes)}
      {ops done : List (FileOp String (Option (List Char)) UInt8)} {failed : Disk String UInt8}
      (hflushed : Flushed env (command.run env (layout.dir disk)).steps writes)
      (hops : atomicWrites writes = .ok ops) (hdone : done <+: ops)
      (hfail : PowerFailure (disk.run parentDir done) failed) : DiskRun command disk failed

/-- The disks that runs lead to, each a command on the disk that the runs before it left. -/
inductive DiskHistory (start : Disk String UInt8) :
    List (DatasetCommand × Disk String UInt8) → Disk String UInt8 → Prop
  | start : DiskHistory start [] start
  | run {runs : List (DatasetCommand × Disk String UInt8)} {disk disk' : Disk String UInt8}
      (command : DatasetCommand) (hbefore : DiskHistory start runs disk)
      (hrun : DiskRun env layout command disk disk') :
      DiskHistory start (runs ++ [(command, disk)]) disk'

/-- The manifests that a command writes are read back as they were written. -/
def ReadsBack (command : DatasetCommand) (disk : Disk String UInt8) : Prop :=
  ∀ manifest, .manifest manifest ∈ (command.run env (layout.dir disk)).steps →
    layout.readManifest (env.manifestText manifest) = some manifest

variable {env layout} {disk disk' : Disk String UInt8}

/-- Pieces of a prefix of the steps. -/
theorem Flushed.of_prefix {steps : List DatasetWrite} {writes taken : List (String × List Bytes)}
    (h : Flushed env steps writes) (htaken : taken <+: writes) :
    ∃ before, before <+: steps ∧ Flushed env before taken := by
  obtain ⟨rest, rfl⟩ := htaken
  unfold Flushed at h
  rw [List.map_append] at h
  obtain ⟨before, after, hsteps, hbefore, -⟩ := List.map_eq_append_iff.1 h.symm
  exact ⟨before, ⟨after, hsteps.symm⟩, hbefore.symm⟩

theorem Flushed.files_written {steps : List DatasetWrite} {writes : List (String × List Bytes)}
    (h : Flushed env steps writes) (hwritten : ∀ step ∈ steps, step.IsWritten) :
    ∀ write ∈ writes, write.1 ∈ writtenFiles := by
  intro write hwrite
  -- each write is the replacement of a step
  have hmem : (write.1, write.2.flatten) ∈ steps.map (·.replacement env) :=
    h ▸ List.mem_map_of_mem hwrite
  obtain ⟨step, hstep, hpair⟩ := List.mem_map.1 hmem
  rw [show write.1 = (step.replacement env).1 by rw [hpair]]
  cases step with
  | file relative content =>
    exact List.mem_cons_of_mem _ (hwritten _ hstep relative content rfl)
  | manifest written => exact List.mem_cons_self

/-- Contents that are flushed at once. -/
theorem flushed_whole (steps : List DatasetWrite) :
    Flushed env steps (steps.map fun step =>
      ((step.replacement env).1, [(step.replacement env).2])) := by
  unfold Flushed
  rw [List.map_map]
  exact List.map_congr_left fun step _ => by simp

/-- Replaced files are the steps of the directory. -/
theorem dirOfFiles_replaceFiles {steps : List DatasetWrite} {writes : List (String × List Bytes)}
    (hmanifest : ∀ manifest, .manifest manifest ∈ steps →
      layout.readManifest (env.manifestText manifest) = some manifest)
    (hflushed : Flushed env steps writes) (hwritten : ∀ step ∈ steps, step.IsWritten)
    (files : String → Option Bytes) :
    layout.dirOfFiles (replaceFiles files writes) =
      Store.applyAll (layout.dirOfFiles files) steps := by
  -- file by file: replacing a file on the disk is the write of that file in the directory
  induction steps generalizing writes files with
  | nil =>
    obtain rfl := List.map_eq_nil_iff.1 hflushed
    rfl
  | cons step steps ih =>
    obtain ⟨write, writes, rfl, hwrite, hrest⟩ := List.map_eq_cons_iff.1 hflushed
    obtain ⟨hfirst, hothers⟩ := List.forall_mem_cons.1 hwritten
    have hupdate : update files write.1 (some write.2.flatten) =
        update files (step.replacement env).1 (some (step.replacement env).2) :=
      congrArg (fun pair : String × Bytes => update files pair.1 (some pair.2)) hwrite
    show layout.dirOfFiles (replaceFiles (update files write.1 (some write.2.flatten)) writes) = _
    rw [ih (fun manifest hmem => hmanifest manifest (List.mem_cons_of_mem _ hmem)) hrest hothers,
      hupdate, RootLayout.dirOfFiles_update (fun manifest he => ?_) hfirst]
    · rfl
    · exact hmanifest manifest (he ▸ List.mem_cons_self)

/-- What the calls of a command do to the directory that the disk shows. -/
theorem run_refines (hsettled : disk.Settled IsFinal) {command : DatasetCommand}
    (hmanifest : ReadsBack env layout command disk) {writes : List (String × List Bytes)}
    {ops : List (FileOp String (Option (List Char)) UInt8)}
    (hflushed : Flushed env (command.run env (layout.dir disk)).steps writes)
    (hops : atomicWrites writes = .ok ops) :
    (∀ done, done <+: ops → (disk.run parentDir done).Survives IsFinal fun files =>
      ∃ taken, taken <+: (command.run env (layout.dir disk)).steps ∧
        layout.dirOfFiles files = Store.applyAll (layout.dir disk) taken) ∧
    (disk.run parentDir ops).Settled IsFinal ∧
    layout.dir (disk.run parentDir ops) =
      Store.applyAll (layout.dir disk) (command.run env (layout.dir disk)).steps := by
  have hsteps := command_takes env command (layout.dir disk)
  have hfiles := hflushed.files_written hsteps
  rw [atomicWrites_written hfiles, Except.ok.injEq] at hops
  subst hops
  have htemp : ∀ write ∈ writes, ¬ IsFinal (write.1 ++ ".tmp") ∧
      parentDir (write.1 ++ ".tmp") = parentDir write.1 := by
    refine fun write hwrite => ⟨fun hfinal => hfinal ?_, parentDir_tmp _ (hfiles write hwrite)⟩
    rw [String.toList_append]
    exact List.suffix_append _ _
  -- files are replaced as a whole, so behind any of them stands a prefix of the steps
  have hstage : ∀ taken, taken <+: writes → ∃ before,
      before <+: (command.run env (layout.dir disk)).steps ∧
        layout.dirOfFiles (replaceFiles disk.read taken) =
          Store.applyAll (layout.dir disk) before := by
    intro taken htaken
    obtain ⟨before, hbefore, hpieces⟩ := hflushed.of_prefix htaken
    exact ⟨before, hbefore, dirOfFiles_replaceFiles
      (fun manifest hmem => hmanifest manifest (hbefore.subset hmem)) hpieces
      (fun step hstep => hsteps step (hbefore.subset hstep)) _⟩
  obtain ⟨hsurvives, hend, hshows⟩ :=
    survives_replaceAll (fun files => ∃ before,
      before <+: (command.run env (layout.dir disk)).steps ∧
        layout.dirOfFiles files = Store.applyAll (layout.dir disk) before) (· ++ ".tmp")
      hsettled (fun _ _ => rfl) htemp hstage
  refine ⟨hsurvives, hend, ?_⟩
  rw [RootLayout.dir_of_shows hshows]
  exact dirOfFiles_replaceFiles hmanifest hflushed hsteps _

/-- **The disk refines the directory.** After any runs on a settled disk, some of them ended by
the power, the disk is settled again and shows a directory that the runs of the model lead to. So
it does at each call of a further command. -/
theorem disk_refines_directory (env : DatasetEnv) (layout : RootLayout)
    {start disk : Disk String UInt8} {runs : List (DatasetCommand × Disk String UInt8)}
    (hstart : start.Settled IsFinal) (h : DiskHistory env layout start runs disk)
    (hmanifest : ∀ run ∈ runs, ReadsBack env layout run.1 run.2) :
    disk.Settled IsFinal ∧
      (∃ history : List DatasetRun, history.map DatasetRun.command = runs.map Prod.fst ∧
        DatasetHistory env (layout.dir start) history (layout.dir disk)) ∧
      ∀ command writes ops done, ReadsBack env layout command disk →
        Flushed env (command.run env (layout.dir disk)).steps writes →
          atomicWrites writes = .ok ops → done <+: ops →
            ∃ taken, taken <+: (command.run env (layout.dir disk)).steps ∧
              layout.dir (disk.run parentDir done) = Store.applyAll (layout.dir disk) taken := by
  suffices hhistory : disk.Settled IsFinal ∧ ∃ history : List DatasetRun,
      history.map DatasetRun.command = runs.map Prod.fst ∧
        DatasetHistory env (layout.dir start) history (layout.dir disk) by
    refine ⟨hhistory.1, hhistory.2, fun command writes ops done hback hflushed hops hdone => ?_⟩
    obtain ⟨files, ⟨taken, htaken, hfiles⟩, hshows⟩ :=
      ((run_refines hhistory.1 hback hflushed hops).1 done hdone).visible
    exact ⟨taken, htaken, (RootLayout.dir_of_shows hshows).trans hfiles⟩
  induction h with
  | start => exact ⟨hstart, [], rfl, .start⟩
  | run command hbefore hrun ih =>
    obtain ⟨hearlier, hlast⟩ := List.forall_mem_append.1 hmanifest
    have hback := List.forall_mem_singleton.1 hlast
    obtain ⟨hsettled, history, hcommands, hhistory⟩ := ih hearlier
    cases hrun with
    | ends hflushed hops =>
      obtain ⟨-, hend, hdir⟩ := run_refines hsettled hback hflushed hops
      have hnext := DatasetHistory.run command hhistory List.prefix_rfl
      refine ⟨hend, _, ?_, hdir ▸ hnext⟩
      rw [List.map_append, List.map_append, hcommands]
      rfl
    | fails hflushed hops hdone hfail =>
      -- what survives is the directory behind a prefix of the steps
      obtain ⟨hend, files, ⟨taken, htaken, hfiles⟩, hshows⟩ :=
        ((run_refines hsettled hback hflushed hops).1 _ hdone).failed _ hfail
      have hdir := (RootLayout.dir_of_shows hshows).trans hfiles
      have hnext := DatasetHistory.run command hhistory htaken
      refine ⟨hend, _, ?_, hdir ▸ hnext⟩
      rw [List.map_append, List.map_append, hcommands]
      rfl

end Runs

/-! ## A run that the power ends -/

/-- The file that a fixture has on the disk. -/
def marketInode (name : String) : Option Nat :=
  if name = "raw/first.jsonl" then some 0 else if name = "raw/second.jsonl" then some 1 else none

/-- A disk with two fixtures. -/
def marketDisk : Disk String UInt8 where
  entries := marketInode
  contents := fun inode => marketFixture (if inode = 0 then [7, 8] else [9])
  synced := fun _ => true
  stored := marketInode
  pending := []
  fresh := 2

/-- The manifest of a run on the first fixture is the only one that is read. -/
def marketLayout : RootLayout where
  display := "data"
  elsewhere := .empty
  names := ["raw/first.jsonl", "raw/second.jsonl"] ++ (normalizedArtifacts ++ queryCorpusArtifacts)
  readManifest := fun _ => firstRoot.manifest
  names_final := by
    unfold IsFinal
    decide +kernel
  names_written := fun _ => List.mem_append_right _

theorem dir_marketDisk : marketLayout.dir marketDisk = marketRoot := by
  rfl

theorem marketInode_cases {name : String} {inode : Nat} (h : marketInode name = some inode) :
    name = "raw/first.jsonl" ∧ inode = 0 ∨ name = "raw/second.jsonl" ∧ inode = 1 := by
  unfold marketInode at h
  split_ifs at h with hfirst hsecond
  · exact .inl ⟨hfirst, (Option.some.inj h).symm⟩
  · exact .inr ⟨hsecond, (Option.some.inj h).symm⟩

theorem settled_marketDisk : marketDisk.Settled IsFinal where
  pending := rfl
  stored := rfl
  synced := fun _ _ _ _ => rfl
  single := by
    -- the two files have inodes of their own
    intro name other inode hname hother
    rcases marketInode_cases hname with ⟨rfl, rfl⟩ | ⟨rfl, rfl⟩ <;>
      rcases marketInode_cases hother with ⟨rfl, hinode⟩ | ⟨rfl, hinode⟩
    · rfl
    · cases hinode
    · cases hinode
    · rfl
  fresh := by
    intro name inode hname
    rcases marketInode_cases hname with ⟨-, rfl⟩ | ⟨-, rfl⟩
    · exact Nat.zero_lt_two
    · exact Nat.one_lt_two

/-- What is left if the power fails and everything is lost that can be. -/
def Lib.Disk.lost (disk : Disk String UInt8) : Disk String UInt8 :=
  { disk with
    entries := disk.stored
    synced := fun _ => true
    pending := [] }

theorem powerFailure_lost (disk : Disk String UInt8) : PowerFailure disk disk.lost where
  entries := ⟨[], List.nil_sublist _, rfl⟩
  contents := fun _ _ => rfl
  synced := fun _ => rfl
  stored := rfl
  pending := rfl
  fresh := rfl

/-- The only manifest that the run writes is the one that is read. -/
theorem readsBack_markets :
    ReadsBack marketEnv marketLayout (normalizeMarkets "first.jsonl") marketDisk := by
  -- the manifest is the only step that is not a file
  obtain ⟨hashes, hsteps, hpublishes⟩ := firstRun_publishes
  intro manifest hmem
  rw [dir_marketDisk, hsteps, List.mem_append, List.mem_singleton] at hmem
  rcases hmem with hmem | hmem
  · obtain ⟨file, -, hfile⟩ := List.mem_map.1 hmem
    cases hfile
  · rw [DatasetWrite.manifest.inj hmem]
    simp only [marketLayout, hpublishes.manifest_eq]

/-- The power fails while the second file is written, and the first one stays. -/
theorem disk_refines_directory_markets :
    ∃ ops, atomicWrites (((normalizeMarkets "first.jsonl").run marketEnv marketRoot).steps.map
        fun step => ((step.replacement marketEnv).1, [(step.replacement marketEnv).2])) = .ok ops ∧
      ∃ history : List DatasetRun,
        history.map DatasetRun.command = [normalizeMarkets "first.jsonl"] ∧
          DatasetHistory marketEnv marketRoot history
            (marketLayout.dir (marketDisk.run parentDir (ops.take 8)).lost) := by
  have hflushed := @flushed_whole marketEnv
    ((normalizeMarkets "first.jsonl").run marketEnv marketRoot).steps
  have hops := atomicWrites_written
    (hflushed.files_written (command_takes marketEnv (normalizeMarkets "first.jsonl") marketRoot))
  refine ⟨_, hops, ?_⟩
  -- power fails after eight operations, in the middle of a replacement
  have hrun : DiskRun marketEnv marketLayout (normalizeMarkets "first.jsonl") marketDisk
      (marketDisk.run parentDir ((replaceAllOps parentDir (· ++ ".tmp") _).take 8)).lost :=
    .fails (by rw [dir_marketDisk]; exact hflushed) hops (List.take_prefix 8 _)
      (powerFailure_lost _)
  obtain ⟨-, ⟨history, hcommands, hhistory⟩, -⟩ := disk_refines_directory marketEnv marketLayout
    settled_marketDisk (.run (normalizeMarkets "first.jsonl") .start hrun)
    (List.forall_mem_singleton.2 readsBack_markets)
  rw [dir_marketDisk] at hhistory
  exact ⟨history, hcommands, hhistory⟩

end HotIndex
