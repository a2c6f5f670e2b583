import HotIndex.Dataset.DatasetDir
import HotIndex.Lib.Fallible

/-!
# Publishing a Dataset

The runs on a dataset root publish it in one way: they write files, take digests over what is
then there, and write a manifest with the digests last (`publish`). Replay accepts a manifest
exactly if its digests are those of the files under its keys (`acceptManifest_eq_ok_iff`), so
it accepts what was published if each file was hashed where its key leads
(`Publishes.passes`).
-/

namespace HotIndex

open Lib

/-! ## Writing files -/

def fileWrites (files : List (String × Bytes)) : List DatasetWrite :=
  files.map (fun file => .file file.1 file.2)

theorem writeFiles_eq (files : List (String × Bytes)) (dir : DatasetDir) :
    writeFiles files dir = ⟨.ok (), fileWrites files⟩ := by
  induction files generalizing dir with
  | nil => rfl
  | cons file rest ih =>
    have hfirst : (StoreM.perform (.file file.1 file.2) : DatasetM Unit) dir =
        ⟨.ok (), [.file file.1 file.2]⟩ := rfl
    show ((StoreM.perform _ : DatasetM Unit) >>= fun _ => writeFiles rest) dir = _
    rw [StoreM.bind_of_ok hfirst, ih]
    rfl

/-- A file holds what was written to it, if it was written. -/
theorem get?_applyAll_fileWrites (files : List (String × Bytes)) (dir : DatasetDir)
    (relative : String) :
    (∃ content, (relative, content) ∈ files ∧
        (Store.applyAll dir (fileWrites files)).files.get? ⟨relative⟩ = some content) ∨
      relative ∉ files.map Prod.fst ∧
        (Store.applyAll dir (fileWrites files)).files.get? ⟨relative⟩ =
          dir.files.get? ⟨relative⟩ := by
  induction files generalizing dir with
  | nil => exact .inr ⟨by simp, rfl⟩
  | cons file rest ih =>
    obtain ⟨name, content⟩ := file
    -- the last write of a name is the one that is read
    rcases ih (dir.apply (.file name content)) with ⟨last, hlast, hget⟩ | ⟨hnot, hget⟩
    · exact .inl ⟨last, List.mem_cons_of_mem _ hlast, hget⟩
    · by_cases hname : relative = name
      · subst hname
        refine .inl ⟨content, List.mem_cons_self, hget.trans ?_⟩
        exact SortedMap.get?_insert_self _ _ _
      · refine .inr ⟨by simp [hname, hnot], hget.trans ?_⟩
        exact SortedMap.get?_insert_of_ne _ (by simpa using hname) _

theorem manifest_applyAll_fileWrites (files : List (String × Bytes)) (dir : DatasetDir) :
    (Store.applyAll dir (fileWrites files)).manifest = dir.manifest := by
  induction files generalizing dir with
  | nil => rfl
  | cons file rest ih => exact ih (dir.apply (.file file.1 file.2))

section Publishing

variable {env : DatasetEnv} {before dir : DatasetDir} {hashes hashes' : SortedMap Text String}
  {manifest : DatasetManifest}

/-- Each file that is written once is there in the end. -/
theorem get?_fileWrites_of_nodup {files : List (String × Bytes)}
    (hnodup : (files.map Prod.fst).Nodup) {file : String × Bytes} (hfile : file ∈ files) :
    (Store.applyAll dir (fileWrites files)).files.get? ⟨file.1⟩ = some file.2 := by
  rcases get?_applyAll_fileWrites files dir file.1 with ⟨content, hmem, hget⟩ | ⟨hnot, -⟩
  · -- no other file has the name
    have hsame : (file.1, content) = file := List.inj_on_of_nodup_map hnodup hmem hfile rfl
    rw [hget, ← hsame]
  · exact absurd (List.mem_map_of_mem hfile) hnot

@[simp] theorem files_apply_manifest (dir : DatasetDir) (manifest : DatasetManifest) :
    (dir.apply (.manifest manifest)).files = dir.files := rfl

/-- The manifest is a file apart from the others. -/
theorem read?_apply_manifest {place : FilePlace} (h : place ≠ .dataset "manifest.json") :
    (before.apply (.manifest manifest)).read? env place = before.read? env place := by
  cases place with
  | elsewhere path => rfl
  | dataset relative =>
    have hne : relative ≠ "manifest.json" := by
      rintro rfl
      exact h rfl
    simp only [DatasetDir.read?, if_neg hne]
    rfl

/-! ## Digests -/

theorem sha256File_eq_ok_iff {place : FilePlace} {digest : String} :
    sha256File env dir place = .ok digest ↔
      ∃ content, dir.read? env place = some content ∧ digest = sha256Hex content := by
  unfold sha256File DatasetDir.openFile
  cases hread : dir.read? env place with
  | none => exact ⟨nofun, fun ⟨_, hcontent, _⟩ => nomatch hcontent⟩
  | some content =>
    constructor
    · rintro ⟨⟩
      exact ⟨content, rfl, rfl⟩
    · rintro ⟨_, ⟨⟩, rfl⟩
      rfl

/-- The digests of artifacts are entered under their keys; other keys keep theirs. -/
theorem insertArtifactHashes_ok {artifacts : List String}
    (h : insertArtifactHashes env dir hashes artifacts = .ok hashes') :
    (∀ relative ∈ artifacts, ∃ content, dir.read? env (.dataset relative) = some content ∧
        hashes'.get? ⟨relative⟩ = some (sha256Hex content)) ∧
      ∀ relative ∉ artifacts, hashes'.get? ⟨relative⟩ = hashes.get? ⟨relative⟩ := by
  -- the artifacts done so far have their digests, and no other key has changed
  refine foldlM_induction (P := fun done hashes'' =>
    (∀ relative ∈ done, ∃ content, dir.read? env (.dataset relative) = some content ∧
        hashes''.get? ⟨relative⟩ = some (sha256Hex content)) ∧
      ∀ relative ∉ done, hashes''.get? ⟨relative⟩ = hashes.get? ⟨relative⟩) h
    ⟨nofun, fun _ _ => rfl⟩ ?_
  rintro done artifact before after - ⟨hdone, hrest⟩ hstep
  obtain ⟨digest, hdigest, hafter⟩ := bind_eq_ok_iff.1 hstep
  obtain ⟨content, hread, rfl⟩ := sha256File_eq_ok_iff.1 hdigest
  obtain rfl := Except.ok.inj hafter
  refine ⟨fun relative hrelative => ?_, fun relative hrelative => ?_⟩
  · by_cases heq : relative = artifact
    · subst heq
      exact ⟨content, hread, SortedMap.get?_insert_self _ _ _⟩
    · have hmem : relative ∈ done := by simpa [heq] using hrelative
      rw [SortedMap.get?_insert_of_ne _ (by simpa using heq)]
      exact hdone relative hmem
  · obtain ⟨hnot, heq⟩ : relative ∉ done ∧ relative ≠ artifact := by simpa using hrelative
    rw [SortedMap.get?_insert_of_ne _ (by simpa using heq)]
    exact hrest relative hnot

section Recording

variable (env dir)

/-- Record the digests of some files under their keys. -/
def recordAll (files : List (String × FilePlace)) (hashes : SortedMap Text String) :
    Except HotIndexError (SortedMap Text String) :=
  files.foldlM (fun hashes file => insertHash env dir hashes file.1 file.2) hashes

/-- The raw inputs under their keys. -/
def inputFiles (inputs : List RawInput) : List (String × FilePlace) :=
  inputs.map (fun input => (input.key, input.place))

/-- Artifacts under their relative paths. -/
def artifactFiles (artifacts : List String) : List (String × FilePlace) :=
  artifacts.map (fun relative => (relative, .dataset relative))

theorem insertInputHashes_eq (hashes : SortedMap Text String) (inputs : List RawInput) :
    insertInputHashes env dir hashes inputs = recordAll env dir (inputFiles inputs) hashes := by
  unfold recordAll inputFiles
  rw [List.foldlM_map]
  rfl

theorem insertArtifactHashes_eq (hashes : SortedMap Text String) (artifacts : List String) :
    insertArtifactHashes env dir hashes artifacts =
      recordAll env dir (artifactFiles artifacts) hashes := by
  unfold recordAll artifactFiles
  rw [List.foldlM_map]
  rfl

theorem recordAll_append (l m : List (String × FilePlace)) (hashes : SortedMap Text String) :
    recordAll env dir (l ++ m) hashes =
      (do let hashes ← recordAll env dir l hashes
          recordAll env dir m hashes) :=
  List.foldlM_append

theorem fixtureHashes_eq (rawInput : RawInput) :
    fixtureHashes env dir rawInput = recordAll env dir
      (inputFiles [rawInput] ++ artifactFiles normalizedArtifacts) .empty := by
  unfold fixtureHashes
  rw [recordAll_append, insertInputHashes_eq]
  simp only [insertArtifactHashes_eq]

theorem protobufHashes_eq (rawInputs : List RawInput) :
    protobufHashes env dir rawInputs = recordAll env dir
      (inputFiles rawInputs ++ artifactFiles (normalizedArtifacts ++
        queryCorpusArtifacts.filter (fun relative =>
          (dir.read? env (.dataset relative)).isSome))) .empty := by
  unfold protobufHashes
  rw [recordAll_append, insertInputHashes_eq, artifactFiles, List.map_append]
  simp only [insertArtifactHashes_eq, recordAll_append]
  rfl

variable {env dir}

/-- Every digest that is recorded is that of a file under the key, and every file has its key
recorded. -/
theorem recordAll_ok {files : List (String × FilePlace)} {hashes hashes' : SortedMap Text String}
    (h : recordAll env dir files hashes = .ok hashes') :
    (∀ key digest, hashes'.get? ⟨key⟩ = some digest → hashes.get? ⟨key⟩ = some digest ∨
      ∃ place content, (key, place) ∈ files ∧ dir.read? env place = some content ∧
        digest = sha256Hex content) ∧
    ∀ file ∈ files, (hashes'.get? ⟨file.1⟩).isSome := by
  refine foldlM_induction (P := fun done hashes'' =>
    (∀ key digest, hashes''.get? ⟨key⟩ = some digest → hashes.get? ⟨key⟩ = some digest ∨
      ∃ place content, (key, place) ∈ done ∧ dir.read? env place = some content ∧
        digest = sha256Hex content) ∧
    ∀ file ∈ done, (hashes''.get? ⟨file.1⟩).isSome) h ⟨fun _ _ => .inl, nofun⟩ ?_
  rintro done ⟨name, place⟩ before after _ ⟨hdigests, hkeys⟩ hstep
  -- one more digest, which takes the place of an earlier one under its key
  rcases bind_eq_ok_iff.1 hstep with ⟨digest, hdigest, hafter⟩
  rcases sha256File_eq_ok_iff.1 hdigest with ⟨content, hread, rfl⟩
  cases hafter
  constructor
  · intro key digest hget
    by_cases hname : key = name
    · subst hname
      rw [SortedMap.get?_insert_self, Option.some.injEq] at hget
      exact .inr ⟨place, content, by simp, hread, hget.symm⟩
    · rw [SortedMap.get?_insert_of_ne _ (by simpa using hname)] at hget
      rcases hdigests key digest hget with hold | ⟨place', content', hmem, hrest⟩
      · exact .inl hold
      · exact .inr ⟨place', content', List.mem_append_left _ hmem, hrest⟩
  · intro file hfile
    by_cases hname : file.1 = name
    · rw [hname, SortedMap.get?_insert_self]
      rfl
    · have hdone : file ∈ done := by
        rcases List.mem_append.1 hfile with hfile | hfile
        · exact hfile
        · rw [List.mem_singleton.1 hfile] at hname
          exact absurd rfl hname
      rw [SortedMap.get?_insert_of_ne _ (by simpa using hname)]
      exact hkeys file hdone

/-- The digests of files that are there can be taken. -/
theorem recordAll_isOk {files : List (String × FilePlace)} {hashes : SortedMap Text String}
    (h : ∀ file ∈ files, (dir.read? env file.2).isSome) :
    ∃ hashes', recordAll env dir files hashes = .ok hashes' := by
  induction files generalizing hashes with
  | nil => exact ⟨hashes, rfl⟩
  | cons file rest ih =>
    rw [List.forall_mem_cons] at h
    obtain ⟨content, hread⟩ := Option.isSome_iff_exists.1 h.1
    -- a file that can be read has a digest
    have hinsert : insertHash env dir hashes file.1 file.2 =
        .ok (hashes.insert ⟨file.1⟩ (sha256Hex content)) :=
      bind_eq_ok_iff.2 ⟨_, sha256File_eq_ok_iff.2 ⟨content, hread, rfl⟩, rfl⟩
    obtain ⟨hashes', hrest⟩ := @ih (hashes.insert ⟨file.1⟩ (sha256Hex content)) h.2
    exact ⟨hashes', (List.foldlM_cons ..).trans (bind_eq_ok_iff.2 ⟨_, hinsert, hrest⟩)⟩

theorem insertArtifactHashes_isOk {hashes : SortedMap Text String} {artifacts : List String}
    (h : ∀ relative ∈ artifacts, (dir.read? env (.dataset relative)).isSome) :
    ∃ hashes', insertArtifactHashes env dir hashes artifacts = .ok hashes' := by
  rw [insertArtifactHashes_eq]
  apply recordAll_isOk
  intro file hfile
  obtain ⟨relative, hrelative, rfl⟩ := List.mem_map.1 hfile
  exact h relative hrelative

end Recording

/-! ## Files, digests, and a manifest -/

/-- Write files, take digests over what is then there, and write a manifest with them. -/
def publish (files : List (String × Bytes))
    (hashesOf : DatasetDir → Except HotIndexError (SortedMap Text String))
    (manifestOf : SortedMap Text String → DatasetManifest) : DatasetM Unit := do
  writeFiles files
  let dir ← StoreM.read
  let hashes ← StoreM.ofExcept (hashesOf dir)
  StoreM.perform (.manifest (manifestOf hashes))

section Publish

variable {files : List (String × Bytes)}
  {hashesOf : DatasetDir → Except HotIndexError (SortedMap Text String)}
  {manifestOf : SortedMap Text String → DatasetManifest}

/-- The manifest is written if the digests can be taken. -/
theorem publish_apply :
    publish files hashesOf manifestOf dir =
      match hashesOf (Store.applyAll dir (fileWrites files)) with
      | .error error => ⟨.error error, fileWrites files⟩
      | .ok hashes => ⟨.ok (), fileWrites files ++ [.manifest (manifestOf hashes)]⟩ := by
  unfold publish
  rw [StoreM.bind_of_ok (writeFiles_eq files dir), StoreM.read_bind_apply,
    StoreM.ofExcept_bind_apply]
  -- the files are in place whether or not they can be hashed
  cases hashesOf (Store.applyAll dir (fileWrites files)) with
  | error error => exact congrArg _ (List.append_nil _)
  | ok hashes => rfl

/-- A run that ends well has written its files and then its manifest. -/
theorem publish_ok (h : (publish files hashesOf manifestOf dir).result = .ok ()) :
    ∃ hashes, hashesOf (Store.applyAll dir (fileWrites files)) = .ok hashes ∧
      Store.applyAll dir (publish files hashesOf manifestOf dir).steps =
        (Store.applyAll dir (fileWrites files)).apply (.manifest (manifestOf hashes)) := by
  rw [publish_apply] at h ⊢
  cases hhashes : hashesOf (Store.applyAll dir (fileWrites files)) with
  | error error =>
    rw [hhashes] at h
    cases h
  | ok hashes =>
    refine ⟨hashes, rfl, ?_⟩
    rw [Store.applyAll_append]
    rfl

end Publish

/-! ## The checks of a replay -/

/-- An entry passes if its key is valid and leads to a file with the digest. -/
theorem validateManifestHash_eq_ok_iff {relative expected : String} :
    validateManifestHash env dir (⟨relative⟩, expected) = .ok () ↔
      validateManifestArtifactKey relative = .ok () ∧
        ∃ content, dir.read? env (.dataset relative) = some content ∧
          sha256Hex content = expected := by
  unfold validateManifestHash
  simp only [bind_eq_ok_iff, mapError_eq_ok_iff, sha256File_eq_ok_iff]
  constructor
  · -- key, file and digest have been looked at
    rintro ⟨⟨⟩, hkey, actual, ⟨content, hread, rfl⟩, hequal⟩
    split_ifs at hequal with hne
    exact ⟨hkey, content, hread, not_not.1 hne⟩
  · rintro ⟨hkey, content, hread, hequal⟩
    exact ⟨(), hkey, _, ⟨content, hread, rfl⟩, if_neg (not_not.2 hequal)⟩

/-- Replay accepts a manifest exactly if its schema version is supported and all of its
entries pass. -/
theorem acceptManifest_eq_ok_iff {manifest : DatasetManifest} :
    acceptManifest env dir = .ok manifest ↔
      dir.manifest = some manifest ∧ manifest.schemaVersion = logicalSchemaVersion ∧
        ∀ relative digest, manifest.hashes.get? ⟨relative⟩ = some digest →
          validateManifestHash env dir (⟨relative⟩, digest) = .ok () := by
  unfold acceptManifest
  cases hmanifest : dir.manifest with
  | none => exact ⟨nofun, fun ⟨hsome, _⟩ => nomatch hsome⟩
  | some found =>
    simp only [bind_eq_ok_iff]
    constructor
    · -- both checks pass: the schema version is the code's own and every entry is valid
      rintro ⟨⟨⟩, hschema, ⟨⟩, hhashes, hreturn⟩
      cases hreturn
      unfold validateManifestSchemaVersion at hschema
      split_ifs at hschema with hversion
      refine ⟨rfl, not_not.1 hversion, fun relative digest hdigest => ?_⟩
      exact forM_eq_ok_iff.1 hhashes (⟨relative⟩, digest)
        ((SortedMap.get?_eq_some_iff_mem _ _ _).1 hdigest)
    · rintro ⟨hfound, hschema, hhashes⟩
      obtain rfl : found = manifest := Option.some.inj hfound
      refine ⟨(), if_neg (not_not.2 hschema), (), forM_eq_ok_iff.2 ?_, rfl⟩
      rintro ⟨⟨relative⟩, digest⟩ hentry
      exact hhashes relative digest ((SortedMap.get?_eq_some_iff_mem _ _ _).2 hentry)

/-- A run ended at `dir`: it wrote the manifest last, over the files of `before`, with the
digests that some of them have there. -/
structure Publishes (env : DatasetEnv) (before : DatasetDir) (files : List (String × FilePlace))
    (manifest : DatasetManifest) (dir : DatasetDir) : Prop where
  ends : dir = before.apply (.manifest manifest)
  schemaVersion : manifest.schemaVersion = logicalSchemaVersion
  hashes : recordAll env before files .empty = .ok manifest.hashes

namespace Publishes

variable {files : List (String × FilePlace)}

theorem manifest_eq (h : Publishes env before files manifest dir) :
    dir.manifest = some manifest := by
  rw [h.ends]
  rfl

/-- What was hashed where its key leads passes. -/
theorem passes (h : Publishes env before files manifest dir)
    (hfiles : ∀ file ∈ files, validateManifestArtifactKey file.1 = .ok () ∧
      file.2 = .dataset file.1 ∧ file.1 ≠ "manifest.json") :
    acceptManifest env dir = .ok manifest := by
  refine acceptManifest_eq_ok_iff.2 ⟨h.manifest_eq, h.schemaVersion, ?_⟩
  -- a recorded digest is that of some file, which replay finds under the key
  intro key digest hdigest
  rcases (recordAll_ok h.hashes).1 key digest hdigest with
    hnone | ⟨place, content, hmem, hread, rfl⟩
  · cases hnone
  · obtain ⟨hkey, hplace, hne⟩ := hfiles _ hmem
    refine validateManifestHash_eq_ok_iff.2 ⟨hkey, content, ?_, rfl⟩
    rw [h.ends, ← hplace, read?_apply_manifest (by rw [hplace]; simpa using hne), hread]

end Publishes

end Publishing

end HotIndex
