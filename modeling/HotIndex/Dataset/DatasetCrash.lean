import HotIndex.Dataset.NdjsonFiles
import HotIndex.Dataset.PublishedDataset

/-!
# Crashes of Dataset Runs

Runs that are cut off leave artifacts of several runs behind, but the manifest on disk
always carries the digests of the artifacts of one normalize run: that run wrote it last,
and a query corpus run that rewrites it keeps them. So where the digests match, the
artifacts are those of that run (`accepted_artifacts_of_one_run`).
-/

namespace HotIndex

open Lib

/-! ## Runs -/

/-- The commands that write below a dataset root. -/
inductive DatasetCommand where
  | normalizeFixture (options : ParserOptions) (rawInput : RawInput)
  | normalizeProtobuf (options : ParserOptions) (rawInputs : List RawInput)
      (requireContiguousChunks : Bool)
  | buildQueryCorpus (normalizedDir : FilePlace) (eventsName : String)

/-- The command is a normalize run. -/
def DatasetCommand.Normalizes : DatasetCommand → Prop
  | .normalizeFixture _ _ | .normalizeProtobuf _ _ _ => True
  | .buildQueryCorpus _ _ => False

/-- A command and the writes it took, up to its end or to a crash. -/
structure DatasetRun where
  command : DatasetCommand
  taken : List DatasetWrite

section Crashes

variable (env : DatasetEnv)

def DatasetCommand.run : DatasetCommand → DatasetM Unit
  | .normalizeFixture options rawInput => HotIndex.normalizeFixture env options rawInput
  | .normalizeProtobuf options rawInputs requireContiguousChunks =>
    normalizeProtobufFiles env options rawInputs requireContiguousChunks
  | .buildQueryCorpus normalizedDir eventsName =>
    buildQueryCorpusCommand env normalizedDir eventsName

/-- The directories that runs lead to, one after the other and each cut off anywhere. -/
inductive DatasetHistory (start : DatasetDir) : List DatasetRun → DatasetDir → Prop
  | start : DatasetHistory start [] start
  | run {history : List DatasetRun} {dir : DatasetDir} {taken : List DatasetWrite}
      (command : DatasetCommand) (hbefore : DatasetHistory start history dir)
      (htaken : taken <+: (command.run env dir).steps) :
      DatasetHistory start (history ++ [⟨command, taken⟩]) (Store.applyAll dir taken)

/-- The content of a write, if it is a file other than the manifest. -/
def DatasetWrite.content? : DatasetWrite → Option Bytes
  | .file _ content => some content
  | .manifest _ => none

/-- All contents that runs wrote. -/
def writtenContents (history : List DatasetRun) : List Bytes :=
  history.flatMap (fun run => run.taken.filterMap DatasetWrite.content?)

/-- No two different contents that were written have the same digest. -/
def NoCollision (history : List DatasetRun) : Prop :=
  ∀ a ∈ writtenContents history, ∀ b ∈ writtenContents history, sha256Hex a = sha256Hex b → a = b

/-! ## What a normalize run writes -/

variable {env} {dir : DatasetDir} {hashes : SortedMap Text String}

theorem normalized_ne_manifest {relative : String} (h : relative ∈ normalizedArtifacts) :
    relative ≠ "manifest.json" := by
  rintro rfl
  revert h
  decide

theorem normalized_not_query {relative : String} (h : relative ∈ normalizedArtifacts) :
    relative ∉ queryCorpusArtifacts := by
  have hdisjoint : ∀ relative ∈ normalizedArtifacts, relative ∉ queryCorpusArtifacts := by decide
  exact hdisjoint relative h

theorem read?_normalized (dir : DatasetDir) {relative : String}
    (h : relative ∈ normalizedArtifacts) :
    dir.read? env (.dataset relative) = dir.files.get? ⟨relative⟩ :=
  if_neg (normalized_ne_manifest h)

/-- Each file once, all artifacts among them, and then a manifest with their digests. -/
structure CarriesDigests (files : List (String × Bytes)) (manifest : DatasetManifest) : Prop where
  nodup : (files.map Prod.fst).Nodup
  digests : ∀ relative ∈ normalizedArtifacts, ∃ content, (relative, content) ∈ files ∧
    manifest.hashes.get? ⟨relative⟩ = some (sha256Hex content)

/-- The writes of a normalize run: files, and a manifest only behind all of them. -/
def NormalizeSteps (steps : List DatasetWrite) : Prop :=
  ∃ files, steps = fileWrites files ∨
    ∃ manifest, steps = fileWrites files ++ [.manifest manifest] ∧ CarriesDigests files manifest

/-- Digests that are taken behind the writes are those of what was written. -/
theorem carriesDigests_of_hashes (env : DatasetEnv) (dir : DatasetDir)
    {files : List (String × Bytes)} {manifest : DatasetManifest}
    (hnodup : (files.map Prod.fst).Nodup)
    (hall : ∀ relative ∈ normalizedArtifacts, relative ∈ files.map Prod.fst)
    (hhashes : ∀ relative ∈ normalizedArtifacts, ∃ content,
      (Store.applyAll dir (fileWrites files)).read? env (.dataset relative) = some content ∧
        manifest.hashes.get? ⟨relative⟩ = some (sha256Hex content)) :
    CarriesDigests files manifest where
  nodup := hnodup
  digests := by
    intro relative hrelative
    obtain ⟨content, hread, hdigest⟩ := hhashes relative hrelative
    rw [read?_normalized _ hrelative] at hread
    -- the content that was hashed is the one that was written last
    rcases get?_applyAll_fileWrites files dir relative with ⟨written, hmem, hget⟩ | ⟨hnot, -⟩
    · obtain rfl := Option.some.inj (hread.symm.trans hget)
      exact ⟨content, hmem, hdigest⟩
    · exact absurd (hall relative hrelative) hnot

theorem normalizeSteps_publish (env : DatasetEnv) {files : List (String × Bytes)}
    {hashesOf : DatasetDir → Except HotIndexError (SortedMap Text String)}
    {manifestOf : SortedMap Text String → DatasetManifest}
    (hnodup : (files.map Prod.fst).Nodup)
    (hall : ∀ relative ∈ normalizedArtifacts, relative ∈ files.map Prod.fst)
    (hhashes : ∀ dir' hashes, hashesOf dir' = .ok hashes → ∀ relative ∈ normalizedArtifacts,
      ∃ content, dir'.read? env (.dataset relative) = some content ∧
        (manifestOf hashes).hashes.get? ⟨relative⟩ = some (sha256Hex content)) :
    NormalizeSteps (publish files hashesOf manifestOf dir).steps := by
  refine ⟨files, ?_⟩
  rw [publish_apply]
  cases hresult : hashesOf (Store.applyAll dir (fileWrites files)) with
  -- without digests there is no manifest
  | error error => exact .inl rfl
  | ok hashes =>
    exact .inr ⟨manifestOf hashes, rfl, carriesDigests_of_hashes env dir hnodup hall
      (hhashes _ hashes hresult)⟩

/-! ## The commands -/

theorem fixtureHashes_ok {rawInput : RawInput} (h : fixtureHashes env dir rawInput = .ok hashes) :
    ∀ relative ∈ normalizedArtifacts, ∃ content,
      dir.read? env (.dataset relative) = some content ∧
        hashes.get? ⟨relative⟩ = some (sha256Hex content) := by
  obtain ⟨inputs, -, hhashes⟩ := bind_eq_ok_iff.1 h
  exact (insertArtifactHashes_ok hhashes).1

/-- The digests of the query files are entered under other keys. -/
theorem protobufHashes_ok {rawInputs : List RawInput}
    (h : protobufHashes env dir rawInputs = .ok hashes) :
    ∀ relative ∈ normalizedArtifacts, ∃ content,
      dir.read? env (.dataset relative) = some content ∧
        hashes.get? ⟨relative⟩ = some (sha256Hex content) := by
  obtain ⟨inputs, -, h⟩ := bind_eq_ok_iff.1 h
  obtain ⟨artifacts, hartifacts, hqueries⟩ := bind_eq_ok_iff.1 h
  intro relative hrelative
  obtain ⟨content, hread, hdigest⟩ := (insertArtifactHashes_ok hartifacts).1 relative hrelative
  -- the digests of the query files come later, under other keys
  refine ⟨content, hread, ?_⟩
  rw [(insertArtifactHashes_ok hqueries).2 relative
    (fun hmem => normalized_not_query hrelative (List.mem_filter.1 hmem).1), hdigest]

/-- The files that a fixture run writes before its manifest. -/
def fixtureFiles (env : DatasetEnv) (rows : ParserOutput) : List (String × Bytes) :=
  rowFiles env rows ++ [warningsFile ("\n".intercalate rows.warnings)]

theorem names_fixtureFiles (env : DatasetEnv) (rows : ParserOutput) :
    (fixtureFiles env rows).map Prod.fst = normalizedArtifacts := rfl

/-- A fixture run publishes the rows that it parsed. -/
theorem normalizeFixture_apply {options : ParserOptions} {rawInput : RawInput}
    {rows : ParserOutput} (h : parseFixtureJsonlFile env options rawInput dir = .ok rows) :
    normalizeFixture env options rawInput dir =
      publish (fixtureFiles env rows) (fun dir' => fixtureHashes env dir' rawInput)
        (fun hashes => (fixtureDataset options rows hashes).manifest) dir := by
  unfold normalizeFixture
  rw [StoreM.read_bind_apply, StoreM.ofExcept_bind_apply, h]
  rfl

theorem normalizeFixture_steps (options : ParserOptions) (rawInput : RawInput) :
    NormalizeSteps (normalizeFixture env options rawInput dir).steps := by
  cases hparse : parseFixtureJsonlFile env options rawInput dir with
  -- a bad fixture stops the run before its first write
  | error error =>
    unfold normalizeFixture
    rw [StoreM.read_bind_apply, StoreM.ofExcept_bind_apply, hparse]
    exact ⟨[], .inl rfl⟩
  | ok rows =>
    rw [normalizeFixture_apply hparse]
    refine normalizeSteps_publish env ?_ ?_ (fun _ _ => fixtureHashes_ok)
    · rw [names_fixtureFiles]
      decide
    · rw [names_fixtureFiles]
      exact fun _ hrelative => hrelative

/-- The files of a protobuf run are the artifacts, with the query files or without. -/
theorem names_protobufFiles (env : DatasetEnv) (st : DecodeState) :
    ((protobufFiles env st).map Prod.fst).Nodup ∧
      ∀ relative ∈ normalizedArtifacts, relative ∈ (protobufFiles env st).map Prod.fst := by
  unfold protobufFiles
  simp only [List.map_append]
  split_ifs
  · exact ⟨show normalizedArtifacts.Nodup by decide, fun _ hrelative => hrelative⟩
  · rw [names_queryFiles]
    exact ⟨show (normalizedArtifacts.take 8 ++ queryCorpusArtifacts ++
        normalizedArtifacts.drop 8).Nodup by decide,
      show ∀ relative ∈ normalizedArtifacts, relative ∈ normalizedArtifacts.take 8 ++
        queryCorpusArtifacts ++ normalizedArtifacts.drop 8 by decide⟩

theorem normalizeProtobufFiles_steps (options : ParserOptions) (rawInputs : List RawInput)
    (requireContiguousChunks : Bool) :
    NormalizeSteps
      (normalizeProtobufFiles env options rawInputs requireContiguousChunks dir).steps := by
  unfold normalizeProtobufFiles
  rw [StoreM.read_bind_apply, StoreM.ofExcept_bind_apply]
  -- a run whose inputs cannot be decoded writes nothing
  cases decodeRawInputs env options rawInputs requireContiguousChunks dir with
  | error error => exact ⟨[], .inl rfl⟩
  | ok st =>
    obtain ⟨hnodup, hall⟩ := names_protobufFiles env st
    exact normalizeSteps_publish env hnodup hall (fun _ _ => protobufHashes_ok)

/-- The writes of a query corpus run: query files, and a manifest that keeps the digests of
the normalized artifacts. -/
theorem buildQueryCorpusCommand_steps (env : DatasetEnv) (dir : DatasetDir)
    (normalizedDir : FilePlace) (eventsName : String) :
    ∃ files, (∀ relative ∈ normalizedArtifacts, relative ∉ files.map Prod.fst) ∧
      ((buildQueryCorpusCommand env normalizedDir eventsName dir).steps = fileWrites files ∨
        ∃ before manifest, dir.manifest = some before ∧
          (buildQueryCorpusCommand env normalizedDir eventsName dir).steps =
            fileWrites files ++ [.manifest manifest] ∧
          ∀ relative ∈ normalizedArtifacts,
            manifest.hashes.get? ⟨relative⟩ = before.hashes.get? ⟨relative⟩) := by
  have hnone : ∀ relative ∈ normalizedArtifacts,
      relative ∉ ([] : List (String × Bytes)).map Prod.fst := by simp
  unfold buildQueryCorpusCommand
  rw [StoreM.read_bind_apply, StoreM.ofExcept_bind_apply]
  cases queryCorpusRowsFromEventsPath env dir normalizedDir eventsName with
  | error error => exact ⟨[], hnone, .inl rfl⟩
  | ok rows =>
    simp only
    split_ifs
    · exact ⟨[], hnone, .inl rfl⟩
    · set files := queryFiles env (buildQueryCorpus rows) with hfiles
      refine ⟨files, ?_, ?_⟩
      · intro relative hrelative
        rw [hfiles, names_queryFiles]
        exact normalized_not_query hrelative
      -- the manifest is updated only if there is one, and only behind the query files
      · rw [StoreM.bind_of_ok (writeFiles_eq files dir)]
        unfold updateManifestQueryHashesIfPresent
        rw [StoreM.read_bind_apply, manifest_applyAll_fileWrites]
        cases dir.manifest with
        | none => exact .inl (List.append_nil _)
        | some before =>
          simp only
          rw [StoreM.ofExcept_bind_apply]
          cases hhashes : insertArtifactHashes env (Store.applyAll dir (fileWrites files))
              before.hashes queryCorpusArtifacts with
          | error error => exact .inl (List.append_nil _)
          | ok hashes =>
            refine .inr ⟨before, { before with hashes := hashes }, rfl, rfl, ?_⟩
            intro relative hrelative
            exact (insertArtifactHashes_ok hhashes).2 relative (normalized_not_query hrelative)

/-! ## The invariant -/

/-- The run wrote its artifacts and a manifest with their digests, which `manifest` keeps. -/
def DatasetRun.Published (run : DatasetRun) (manifest : DatasetManifest) : Prop :=
  run.command.Normalizes ∧ ∃ files own, run.taken = fileWrites files ++ [.manifest own] ∧
    CarriesDigests files own ∧
    ∀ relative ∈ normalizedArtifacts,
      manifest.hashes.get? ⟨relative⟩ = own.hashes.get? ⟨relative⟩

/-- What holds after any runs: once there is a manifest, one of them published it, and all
artifacts were written by some of them. -/
structure DatasetInv (history : List DatasetRun) (dir : DatasetDir) : Prop where
  present : dir.manifest ≠ none → ∀ relative ∈ normalizedArtifacts,
    ∃ content ∈ writtenContents history, dir.files.get? ⟨relative⟩ = some content
  published : ∀ manifest ∈ dir.manifest, ∃ run ∈ history, run.Published manifest

theorem mem_writtenContents_append {history : List DatasetRun} {run : DatasetRun}
    {content : Bytes} :
    content ∈ writtenContents (history ++ [run]) ↔
      content ∈ writtenContents history ∨
        content ∈ run.taken.filterMap DatasetWrite.content? := by
  simp [writtenContents]

theorem mem_contents_fileWrites {files : List (String × Bytes)} (rest : List DatasetWrite)
    {relative : String} {content : Bytes} (h : (relative, content) ∈ files) :
    content ∈ (fileWrites files ++ rest).filterMap DatasetWrite.content? := by
  refine List.mem_filterMap.2 ⟨.file relative content, List.mem_append_left _ ?_, rfl⟩
  exact List.mem_map.2 ⟨_, h, rfl⟩

/-- A cut off run either took file writes only, or all of its writes. -/
theorem prefix_fileWrites {files : List (String × Bytes)} {taken : List DatasetWrite}
    (h : taken <+: fileWrites files) : ∃ files', taken = fileWrites files' :=
  ⟨files.take taken.length, (List.prefix_iff_eq_take.1 h).trans List.map_take.symm⟩

namespace DatasetInv

variable {history : List DatasetRun} {command : DatasetCommand} {files : List (String × Bytes)}
  {manifest : DatasetManifest}

/-- File writes keep the manifest, and leave every artifact with a content that was written. -/
theorem afterFiles (h : DatasetInv history dir) :
    DatasetInv (history ++ [⟨command, fileWrites files⟩])
      (Store.applyAll dir (fileWrites files)) where
  present := by
    rw [manifest_applyAll_fileWrites]
    intro hmanifest relative hrelative
    -- the artifact is of this run, or still of an earlier one
    rcases get?_applyAll_fileWrites files dir relative with ⟨content, hmem, hget⟩ | ⟨-, hget⟩
    · have hwritten := mem_contents_fileWrites [] hmem
      rw [List.append_nil] at hwritten
      exact ⟨content, mem_writtenContents_append.2 (.inr hwritten), hget⟩
    · obtain ⟨content, hwritten, hcontent⟩ := h.present hmanifest relative hrelative
      exact ⟨content, mem_writtenContents_append.2 (.inl hwritten), hget.trans hcontent⟩
  published := by
    rw [manifest_applyAll_fileWrites]
    intro manifest hmanifest
    obtain ⟨run, hrun, hpublished⟩ := h.published manifest hmanifest
    exact ⟨run, List.mem_append_left _ hrun, hpublished⟩

/-- A normalize run to its end publishes its manifest. -/
theorem afterNormalize (hcommand : command.Normalizes)
    (hdigests : CarriesDigests files manifest) :
    DatasetInv (history ++ [⟨command, fileWrites files ++ [.manifest manifest]⟩])
      (Store.applyAll dir (fileWrites files ++ [.manifest manifest])) where
  present := by
    intro _ relative hrelative
    rw [Store.applyAll_append]
    obtain ⟨content, hmem, -⟩ := hdigests.digests relative hrelative
    -- a normalize run writes every artifact
    rcases get?_applyAll_fileWrites files dir relative with ⟨last, hlast, hget⟩ | ⟨hnot, -⟩
    · exact ⟨last, mem_writtenContents_append.2 (.inr (mem_contents_fileWrites _ hlast)), hget⟩
    · exact absurd (List.mem_map.2 ⟨_, hmem, rfl⟩) hnot
  published := by
    intro written hwritten
    rw [Store.applyAll_append] at hwritten
    obtain rfl : manifest = written := Option.some.inj hwritten
    exact ⟨_, List.mem_append_right _ (List.mem_singleton.2 rfl), hcommand, files, manifest, rfl,
      hdigests, fun _ _ => rfl⟩

/-- A query corpus run to its end keeps the run that published the manifest. -/
theorem afterQueries (h : DatasetInv history dir) {before : DatasetManifest}
    (hbefore : dir.manifest = some before)
    (hhashes : ∀ relative ∈ normalizedArtifacts,
      manifest.hashes.get? ⟨relative⟩ = before.hashes.get? ⟨relative⟩) :
    DatasetInv (history ++ [⟨command, fileWrites files ++ [.manifest manifest]⟩])
      (Store.applyAll dir (fileWrites files ++ [.manifest manifest])) where
  present := by
    intro _ relative hrelative
    rw [Store.applyAll_append]
    rcases get?_applyAll_fileWrites files dir relative with ⟨content, hmem, hget⟩ | ⟨-, hget⟩
    · exact ⟨content, mem_writtenContents_append.2 (.inr (mem_contents_fileWrites _ hmem)), hget⟩
    · obtain ⟨content, hwritten, hcontent⟩ :=
        h.present (by simp [hbefore]) relative hrelative
      exact ⟨content, mem_writtenContents_append.2 (.inl hwritten), hget.trans hcontent⟩
  published := by
    intro written hwritten
    rw [Store.applyAll_append] at hwritten
    obtain rfl : manifest = written := Option.some.inj hwritten
    -- the run that published the old manifest has published this one too
    obtain ⟨run, hrun, hcommand, files', own, htaken, hdigests, hown⟩ :=
      h.published before hbefore
    exact ⟨run, List.mem_append_left _ hrun, hcommand, files', own, htaken, hdigests,
      fun relative hrelative => (hhashes relative hrelative).trans (hown relative hrelative)⟩

/-- The step: one more run, cut off anywhere. -/
theorem step (h : DatasetInv history dir) {taken : List DatasetWrite}
    (htaken : taken <+: (command.run env dir).steps) :
    DatasetInv (history ++ [⟨command, taken⟩]) (Store.applyAll dir taken) := by
  -- a run that is cut off before its manifest has only written files
  have hfiles : ∀ {files : List (String × Bytes)}, taken <+: fileWrites files →
      DatasetInv (history ++ [⟨command, taken⟩]) (Store.applyAll dir taken) := by
    intro files hbegins
    obtain ⟨files', rfl⟩ := prefix_fileWrites hbegins
    exact h.afterFiles
  have hnormalize : command.Normalizes → NormalizeSteps (command.run env dir).steps →
      DatasetInv (history ++ [⟨command, taken⟩]) (Store.applyAll dir taken) := by
    rintro hcommand ⟨files, hsteps | ⟨manifest, hsteps, hdigests⟩⟩
    · rw [hsteps] at htaken
      exact hfiles htaken
    · rw [hsteps] at htaken
      rcases List.prefix_concat_iff.1 htaken with rfl | hbegins
      · exact afterNormalize hcommand hdigests
      · exact hfiles hbegins
  cases command with
  | normalizeFixture options rawInput =>
    exact hnormalize trivial (normalizeFixture_steps options rawInput)
  | normalizeProtobuf options rawInputs requireContiguousChunks =>
    exact hnormalize trivial
      (normalizeProtobufFiles_steps options rawInputs requireContiguousChunks)
  | buildQueryCorpus normalizedDir eventsName =>
    obtain ⟨files, -, hsteps | ⟨before, manifest, hbefore, hsteps, hhashes⟩⟩ :=
      buildQueryCorpusCommand_steps env dir normalizedDir eventsName
    · rw [show (DatasetCommand.buildQueryCorpus normalizedDir eventsName).run env =
        buildQueryCorpusCommand env normalizedDir eventsName from rfl, hsteps] at htaken
      exact hfiles htaken
    · rw [show (DatasetCommand.buildQueryCorpus normalizedDir eventsName).run env =
        buildQueryCorpusCommand env normalizedDir eventsName from rfl, hsteps] at htaken
      rcases List.prefix_concat_iff.1 htaken with rfl | hbegins
      · exact h.afterQueries hbefore hhashes
      · exact hfiles hbegins

end DatasetInv

/-- **The invariant of the dataset**, by induction on the runs. -/
theorem DatasetHistory.inv {start : DatasetDir} {history : List DatasetRun}
    (h : DatasetHistory env start history dir) (hstart : start.manifest = none) :
    DatasetInv history dir := by
  induction h with
  | start =>
    refine ⟨fun hmanifest => absurd hstart hmanifest, fun manifest hmanifest => ?_⟩
    rw [hstart] at hmanifest
    cases hmanifest
  | run command _ htaken ih => exact ih.step htaken

/-! ## The result -/

/-- The run normalized, the normalized artifacts on disk are what it wrote, each once, and
its manifest carries their digests. -/
def DatasetRun.WroteArtifacts (run : DatasetRun) (dir : DatasetDir) : Prop :=
  run.command.Normalizes ∧ ∃ own, .manifest own ∈ run.taken ∧
    ∀ relative ∈ normalizedArtifacts, ∃ content, dir.files.get? ⟨relative⟩ = some content ∧
      (∀ other, .file relative other ∈ run.taken ↔ other = content) ∧
      own.hashes.get? ⟨relative⟩ = some (sha256Hex content)

/-- **No mixture is replayed.** After any runs on a root that starts without a manifest, each
cut off anywhere: if replay accepts the manifest, then the normalized artifacts on disk are
those of one normalize run, unless two contents that were written collide. -/
theorem accepted_artifacts_of_one_run {start : DatasetDir} {history : List DatasetRun}
    {manifest : DatasetManifest} (hstart : start.manifest = none)
    (hhistory : DatasetHistory env start history dir) (hcollision : NoCollision history)
    (haccept : acceptManifest env dir = .ok manifest) :
    ∃ run ∈ history, run.WroteArtifacts dir := by
  -- the manifest on disk keeps the digests of one normalize run
  have hinv := hhistory.inv hstart
  obtain ⟨hmanifest, -, hhashes⟩ := acceptManifest_eq_ok_iff.1 haccept
  obtain ⟨run, hrun, hcommand, files, own, htaken, hdigests, hown⟩ :=
    hinv.published manifest hmanifest
  refine ⟨run, hrun, hcommand, own, by simp [htaken], fun relative hrelative => ?_⟩
  obtain ⟨content, hmem, hdigest⟩ := hdigests.digests relative hrelative
  obtain ⟨-, found, hread, hfound⟩ := validateManifestHash_eq_ok_iff.1
    (hhashes relative _ ((hown relative hrelative).trans hdigest))
  rw [read?_normalized dir hrelative] at hread
  obtain ⟨last, hlast, hget⟩ := hinv.present (by simp [hmanifest]) relative hrelative
  obtain rfl : last = found := Option.some.inj (hget.symm.trans hread)
  have hwritten : content ∈ writtenContents history := by
    refine List.mem_flatMap.2 ⟨run, hrun, ?_⟩
    rw [htaken]
    exact mem_contents_fileWrites _ hmem
  -- the digests match, so the content on disk is the one the run wrote
  obtain rfl := hcollision last hlast content hwritten hfound
  refine ⟨last, hread, fun other => ?_, hdigest⟩
  -- a run writes each artifact once
  rw [htaken]
  constructor
  · intro hother
    have hother : (relative, other) ∈ files := by simpa [fileWrites] using hother
    exact congrArg Prod.snd (List.inj_on_of_nodup_map hdigests.nodup hother hmem rfl)
  · rintro rfl
    exact List.mem_append_left _ (List.mem_map.2 ⟨_, hmem, rfl⟩)

end Crashes

/-! ## Runs on two fixtures -/

/-- A line with the creation of a market. -/
def marketLine (version : UInt64) : JsonValue :=
  .object [("tx_hash", .string "0xa"), ("type", .string "MarketCreated"),
    ("version", .number (.posInt version))]

def marketFixture (versions : List UInt64) : Bytes :=
  versions.flatMap (fun version => asBytes (marketLine version).text ++ [10])

def marketOptions : ParserOptions where
  network := .localnet
  packageAddress := "0"
  orderbookAddress := "0"
  datasetId := ⟨"fixtures"⟩

/-- What is parsed from such lines. -/
def marketRows (versions : List UInt64) : ParserOutput where
  txs := versions.map (fun version => {
    network := .localnet
    version := version
    txHash := "0xa"
    blockTimestampUs := 0
    eventCount := 1
    datasetId := some ⟨"fixtures"⟩
    rawSummary := some "fixture transaction with 1 Decibel event(s)" })
  events := versions.map (fun version => {
    network := .localnet
    version := version
    eventIdx := 0
    txHash := "0xa"
    blockTimestampUs := 0
    eventType := .marketCreated
    marketId := none
    account := none
    subaccount := none
    orderId := none
    builderAddr := none
    payload := .rawJson "\x7b\x7d" })
  rawTransactionCount := UInt64.ofNat versions.length

def marketEnv : DatasetEnv where
  serde := .ofOps ((marketRows [7, 8, 9]).txs.map .putTx ++
    (marketRows [7, 8, 9]).events.map .putEvent)
  query := ⟨fun _ => [], fun _ => .error "unexpected JSON"⟩
  json := .ofTexts
    ([7, 8, 9].map (fun version => ((marketLine version).text, marketLine version)))
  manifestText := fun _ => []
  readChunk := fun _ => ([], none)

/-- The files of two fixtures and their versions. -/
def marketFiles : List (String × List UInt64) := [("first.jsonl", [7, 8]), ("second.jsonl", [9])]

def marketRoot : DatasetDir where
  display := "data"
  files := .ofList (marketFiles.map (fun file => (⟨"raw/" ++ file.1⟩, marketFixture file.2)))
  manifest := none
  elsewhere := .empty

def marketInput (name : String) : RawInput where
  display := "data/raw/" ++ name
  fileName := some name
  place := .dataset ("raw/" ++ name)
  key := "raw/" ++ name

def normalizeMarkets (name : String) : DatasetCommand :=
  .normalizeFixture marketOptions (marketInput name)

/-- Both fixtures are parsed into their rows, on whatever root they are. -/
theorem parse_marketFixture {file : String × List UInt64} (hfile : file ∈ marketFiles)
    {dir : DatasetDir}
    (hread : dir.files.get? ⟨"raw/" ++ file.1⟩ = some (marketFixture file.2)) :
    parseFixtureJsonlFile marketEnv marketOptions (marketInput file.1) dir =
      .ok (marketRows file.2) := by
  have hparse : ∀ file ∈ marketFiles,
      (do let text ← readText (marketFixture file.2)
          parseFixtureJsonlStr marketEnv.json marketOptions text) =
        .ok (marketRows file.2) := by decide +kernel
  have hname : ∀ file ∈ marketFiles, "raw/" ++ file.1 ≠ "manifest.json" := by decide +kernel
  -- the manifest is the only file that is not kept as bytes
  have hopen : dir.openFile marketEnv (marketInput file.1).place =
      .ok (marketFixture file.2) := by
    unfold DatasetDir.openFile DatasetDir.read? marketInput
    simp only [if_neg (hname _ hfile), hread]
  obtain ⟨text, htext, hrows⟩ := bind_eq_ok_iff.1 (hparse _ hfile)
  rw [readText_eq_ok_iff.1 htext] at hopen
  exact parseFixtureJsonlFile_eq_ok_iff.2 ⟨text, hopen, hrows⟩

theorem read_marketRoot {file : String × List UInt64} (hfile : file ∈ marketFiles) :
    marketRoot.files.get? ⟨"raw/" ++ file.1⟩ = some (marketFixture file.2) := by
  have hnodup : ((marketFiles.map (fun file =>
      ((⟨"raw/" ++ file.1⟩ : Text), marketFixture file.2))).map Prod.fst).Nodup := by
    decide +kernel
  rw [marketRoot, SortedMap.get?_eq_some_iff_mem, SortedMap.mem_ofList_of_nodup hnodup]
  exact List.mem_map_of_mem hfile

theorem raw_notMem_normalizedArtifacts :
    ∀ file ∈ marketFiles, "raw/" ++ file.1 ∉ normalizedArtifacts := by decide +kernel

theorem first_mem : ("first.jsonl", [7, 8]) ∈ marketFiles := List.mem_cons_self

theorem second_mem : ("second.jsonl", [9]) ∈ marketFiles :=
  List.mem_cons_of_mem _ List.mem_cons_self

/-- The first write of a run on such rows. -/
def txsWrite (versions : List UInt64) : DatasetWrite :=
  .file "normalized/txs.ndjson" (ndjson marketEnv.serde.tx (marketRows versions).txs)

theorem txsWrite_prefix {file : String × List UInt64} (hfile : file ∈ marketFiles)
    {dir : DatasetDir}
    (hread : dir.files.get? ⟨"raw/" ++ file.1⟩ = some (marketFixture file.2)) :
    [txsWrite file.2] <+: ((normalizeMarkets file.1).run marketEnv dir).steps := by
  have hsteps : ((normalizeMarkets file.1).run marketEnv dir).steps = _ :=
    congrArg Outcome.steps (normalizeFixture_apply (parse_marketFixture hfile hread))
  rw [hsteps, publish_apply]
  split <;> exact ⟨_, rfl⟩

/-- The root behind a run on the first fixture. -/
def firstRoot : DatasetDir :=
  Store.applyAll marketRoot ((normalizeMarkets "first.jsonl").run marketEnv marketRoot).steps

/-- A second run is cut off behind its first write: the transactions of the second fixture are
next to the events of the first. -/
def mixedRoot : DatasetDir := firstRoot.apply (txsWrite [9])

/-- A third run, again on the first fixture, is cut off there too. -/
def marketHistory : List DatasetRun :=
  [⟨normalizeMarkets "first.jsonl",
      ((normalizeMarkets "first.jsonl").run marketEnv marketRoot).steps⟩,
    ⟨normalizeMarkets "second.jsonl", [txsWrite [9]]⟩,
    ⟨normalizeMarkets "first.jsonl", [txsWrite [7, 8]]⟩]

/-- The root behind the files of the first run. -/
def firstFiles : DatasetDir :=
  Store.applyAll marketRoot (fileWrites (fixtureFiles marketEnv (marketRows [7, 8])))

/-- What the run wrote is there, and the other files are as before. -/
theorem get?_firstFiles {relative : String} {content : Bytes}
    (h : (relative, content) ∈ fixtureFiles marketEnv (marketRows [7, 8]) ∨
      relative ∉ normalizedArtifacts ∧ marketRoot.files.get? ⟨relative⟩ = some content) :
    firstFiles.files.get? ⟨relative⟩ = some content := by
  rcases h with hfile | ⟨hnot, hbefore⟩
  · -- each file is written once
    have hnodup : ((fixtureFiles marketEnv (marketRows [7, 8])).map Prod.fst).Nodup := by
      rw [names_fixtureFiles]
      decide
    exact get?_fileWrites_of_nodup hnodup hfile
  · rcases get?_applyAll_fileWrites (fixtureFiles marketEnv (marketRows [7, 8])) marketRoot
      relative with ⟨_, hmem, -⟩ | ⟨-, hget⟩
    · rw [← names_fixtureFiles marketEnv (marketRows [7, 8])] at hnot
      exact absurd (List.mem_map_of_mem hmem) hnot
    · exact hget.trans hbefore

/-- The files are there when their digests are taken. -/
theorem firstFiles_hashes :
    ∃ hashes, fixtureHashes marketEnv firstFiles (marketInput "first.jsonl") = .ok hashes := by
  rw [fixtureHashes_eq]
  apply recordAll_isOk
  intro file hfile
  rcases List.mem_append.1 hfile with hfile | hfile
  · -- the fixture is not among the files of the run
    rw [List.mem_singleton.1 hfile]
    have hread := get?_firstFiles
      (.inr ⟨raw_notMem_normalizedArtifacts _ first_mem, read_marketRoot first_mem⟩)
    exact Option.isSome_iff_exists.2 ⟨_, hread⟩
  · -- the artifacts are the files of the run
    obtain ⟨relative, hrelative, rfl⟩ := List.mem_map.1 hfile
    rw [read?_normalized _ hrelative]
    rw [← names_fixtureFiles marketEnv (marketRows [7, 8])] at hrelative
    obtain ⟨written, hwritten, rfl⟩ := List.mem_map.1 hrelative
    exact Option.isSome_iff_exists.2 ⟨_, get?_firstFiles (.inl hwritten)⟩

/-- The manifest of the first run, with these digests. -/
def firstManifest (hashes : SortedMap Text String) : DatasetManifest :=
  (fixtureDataset marketOptions (marketRows [7, 8]) hashes).manifest

theorem firstRun_publishes :
    ∃ hashes, ((normalizeMarkets "first.jsonl").run marketEnv marketRoot).steps =
        fileWrites (fixtureFiles marketEnv (marketRows [7, 8])) ++
          [.manifest (firstManifest hashes)] ∧
      Publishes marketEnv firstFiles
        (inputFiles [marketInput "first.jsonl"] ++ artifactFiles normalizedArtifacts)
        (firstManifest hashes) firstRoot := by
  obtain ⟨hashes, hhashes⟩ := firstFiles_hashes
  -- the digests stay as they are, and are never computed
  have hrun : (normalizeMarkets "first.jsonl").run marketEnv marketRoot = _ :=
    normalizeFixture_apply (parse_marketFixture first_mem (read_marketRoot first_mem))
  have hsteps : ((normalizeMarkets "first.jsonl").run marketEnv marketRoot).steps =
      fileWrites (fixtureFiles marketEnv (marketRows [7, 8])) ++
        [.manifest (firstManifest hashes)] := by
    unfold firstFiles at hhashes
    rw [hrun, publish_apply, hhashes]
    rfl
  refine ⟨hashes, hsteps, ?_, rfl, (fixtureHashes_eq ..).symm.trans hhashes⟩
  rw [firstRoot, hsteps, Store.applyAll_append]
  rfl

/-- The root behind the first run is accepted. -/
theorem accept_firstRoot :
    ∃ hashes, acceptManifest marketEnv firstRoot = .ok (firstManifest hashes) := by
  obtain ⟨hashes, -, hpublishes⟩ := firstRun_publishes
  refine ⟨hashes, hpublishes.passes ?_⟩
  decide +kernel

/-- The manifest is none of the files. -/
theorem files_firstRoot : firstRoot.files = firstFiles.files := by
  obtain ⟨hashes, -, hpublishes⟩ := firstRun_publishes
  rw [hpublishes.ends]
  rfl

/-- What one write replaces, another one may bring back. -/
theorem apply_apply_restores {dir : DatasetDir} {relative : String} {content : Bytes}
    (h : dir.files.get? ⟨relative⟩ = some content) (other : Bytes) :
    (dir.apply (.file relative other)).apply (.file relative content) = dir := by
  unfold DatasetDir.apply
  simp only [SortedMap.insert_insert, SortedMap.insert_eq_self_iff.2 h]

theorem mixedRoot_restored : mixedRoot.apply (txsWrite [7, 8]) = firstRoot := by
  apply apply_apply_restores
  rw [files_firstRoot]
  exact get?_firstFiles (.inl List.mem_cons_self)

theorem marketHistory_history :
    DatasetHistory marketEnv marketRoot marketHistory (mixedRoot.apply (txsWrite [7, 8])) := by
  -- the fixtures are never written
  have hfixture : ∀ file ∈ marketFiles,
      firstRoot.files.get? ⟨"raw/" ++ file.1⟩ = some (marketFixture file.2) := by
    intro file hfile
    rw [files_firstRoot]
    exact get?_firstFiles
      (.inr ⟨raw_notMem_normalizedArtifacts file hfile, read_marketRoot hfile⟩)
  have hmixed : mixedRoot.files.get? ⟨"raw/" ++ "first.jsonl"⟩ =
      some (marketFixture [7, 8]) := by
    have hne : (⟨"raw/" ++ "first.jsonl"⟩ : Text) ≠ ⟨"normalized/txs.ndjson"⟩ := by
      decide +kernel
    have hfirst := hfixture _ first_mem
    rw [← hfirst]
    exact SortedMap.get?_insert_of_ne _ hne _
  refine .run _ (.run _ (.run _ .start (List.prefix_refl _)) ?_) ?_
  · exact txsWrite_prefix second_mem (hfixture _ second_mem)
  · exact txsWrite_prefix first_mem hmixed

/-- All that the three runs write. -/
def marketContents : List Bytes :=
  [[], ndjson marketEnv.serde.tx (marketRows [7, 8]).txs,
    ndjson marketEnv.serde.event (marketRows [7, 8]).events,
    ndjson marketEnv.serde.tx (marketRows [9]).txs]

theorem writtenContents_markets :
    ∀ content ∈ writtenContents marketHistory, content ∈ marketContents := by
  obtain ⟨hashes, hsteps, -⟩ := firstRun_publishes
  have hcontents : writtenContents marketHistory =
      (fixtureFiles marketEnv (marketRows [7, 8])).map Prod.snd ++
        [ndjson marketEnv.serde.tx (marketRows [9]).txs,
          ndjson marketEnv.serde.tx (marketRows [7, 8]).txs] := by
    unfold writtenContents marketHistory
    rw [hsteps]
    rfl
  have hwarnings : asBytes "" = [] := rfl
  rw [hcontents]
  simp [fixtureFiles, rowFiles, warningsFile, hwarnings, marketContents, marketRows, ndjson]

/-- Their digests differ. -/
theorem noCollision_markets : NoCollision marketHistory := by
  have hdigests : marketContents.map sha256Hex =
      ["e3b0c44298fc1c149afbf4c8996fb92427ae41e4649b934ca495991b7852b855",
        "7ac3c9d70640c0564ff9229e21ac70b4abb028798b16c3c3ce2dc20d205ce99e",
        "1ef69547fba248fda79d4e2c3dcdbd0604866875658192fc7c1d483589e49fdc",
        "84061b8f55179936dff6f80b77c9a0d1c4c60cc42a1d57b9bc3485cf86c68b8f"] := by
    decide +kernel
  have hnodup : (marketContents.map sha256Hex).Nodup := by
    rw [hdigests]
    decide +kernel
  intro a ha b hb hsame
  exact List.inj_on_of_nodup_map hnodup (writtenContents_markets a ha)
    (writtenContents_markets b hb) hsame

/-- The root is accepted behind three runs, and one of them wrote all of its artifacts. -/
theorem accepted_artifacts_of_one_run_markets :
    ∃ run ∈ marketHistory, run.WroteArtifacts (mixedRoot.apply (txsWrite [7, 8])) := by
  obtain ⟨hashes, haccept⟩ := accept_firstRoot
  rw [← mixedRoot_restored] at haccept
  exact accepted_artifacts_of_one_run rfl marketHistory_history noCollision_markets haccept

end HotIndex
