import HotIndex.Dataset.ArtifactPaths
import HotIndex.Dataset.DatasetCrash
import Mathlib.Data.List.Nodup

/-!
# Manifest Keys Stay Inside

A dataset manifest may come from elsewhere, and its keys are joined to the dataset root.
`validate_manifest_artifact_key` looks at the text of a key between slashes, while the file
system goes by path components. On accepted keys the two agree, so
`validate_manifest_hashes` opens only files below the root, and none of them twice
(`validateManifestHashes_inside`). The benchmark's copies of both functions are the same text.

Paths are read without links, as `UnixPath.resolve` does.
-/

namespace HotIndex

open Lib

/-! ## Keys as paths -/

/-- The path leads strictly below the root. -/
def StrictlyBelow (cwd root path : String) : Prop :=
  ∃ names ≠ [], UnixPath.resolve cwd.toList path.toList =
    UnixPath.resolve cwd.toList root.toList ++ names

/-- Where an accepted key leads are its own parts, below the root. -/
theorem resolve_of_accepted {key : String} (hkey : validateManifestArtifactKey key = .ok ())
    (cwd root : String) :
    UnixPath.resolve cwd.toList (joinPath root key).toList =
      UnixPath.resolve cwd.toList root.toList ++ key.toList.splitOn '/' := by
  rw [joinPath, String.toList_ofList]
  exact UnixPath.resolve_join ((validateManifestArtifactKey_iff key).1 hkey)

theorem strictlyBelow_of_accepted {key : String}
    (hkey : validateManifestArtifactKey key = .ok ()) (cwd root : String) :
    StrictlyBelow cwd root (joinPath root key) :=
  ⟨_, List.splitOn_ne_nil _ _, resolve_of_accepted hkey cwd root⟩

/-- An accepted key can be told from the path that it leads to. -/
theorem eq_of_resolve_eq {cwd root key key' : String}
    (hkey : validateManifestArtifactKey key = .ok ())
    (hkey' : validateManifestArtifactKey key' = .ok ())
    (hresolve : UnixPath.resolve cwd.toList (joinPath root key).toList =
      UnixPath.resolve cwd.toList (joinPath root key').toList) : key = key' := by
  rw [resolve_of_accepted hkey, resolve_of_accepted hkey'] at hresolve
  have hparts := List.append_cancel_left hresolve
  -- the parts with slashes between them are the key
  have htext : key.toList = key'.toList := by
    rw [← UnixPath.joinParts_splitOn key.toList, hparts, UnixPath.joinParts_splitOn]
  exact String.toList_inj.1 htext

/-! ## The files that are opened -/

/-- The loop of `validate_manifest_hashes` at the level of paths: how it ends, and the paths
that it opened, in order. `sha256File` is the digest of the file at a path. -/
def validateManifestHashesAt (sha256File : String → Except HotIndexError String)
    (root : String) : List (Text × String) → Except HotIndexError Unit × List String
  | [] => (.ok (), [])
  | (⟨relative⟩, expected) :: rest =>
    match validateManifestArtifactKey relative with
    | .error error => (.error error, [])
    | .ok () =>
      let path := joinPath root relative
      match sha256File path with
      | .error error =>
        (.error (.config s!"manifest artifact {path} is not readable: {error.display}"), [path])
      | .ok actual =>
        if actual ≠ expected then
          (.error (.config
            s!"sha256 mismatch for {relative}: expected {expected}, got {actual}"), [path])
        else
          let (result, opened) := validateManifestHashesAt sha256File root rest
          (result, path :: opened)

/-- The paths that are opened belong to accepted keys, in the order of the manifest. -/
theorem opened_sublist (sha256File : String → Except HotIndexError String) (root : String)
    (entries : List (Text × String)) :
    ∃ keys, List.Sublist keys (entries.map fun entry => entry.1.str) ∧
      (∀ key ∈ keys, validateManifestArtifactKey key = .ok ()) ∧
      (validateManifestHashesAt sha256File root entries).2 = keys.map (joinPath root) := by
  induction entries with
  | nil => exact ⟨[], .slnil, by simp, rfl⟩
  | cons entry rest ih =>
    obtain ⟨⟨relative⟩, expected⟩ := entry
    obtain ⟨keys, hkeys, haccepted, hopened⟩ := ih
    rw [validateManifestHashesAt]
    cases hkey : validateManifestArtifactKey relative with
    | error error => exact ⟨[], List.nil_sublist _, by simp, rfl⟩
    | ok accepted =>
      -- the key's own file is opened, and the rest only if its digest is the expected one
      cases accepted
      have hone : List.Sublist [relative]
          (((⟨relative⟩, expected) :: rest).map fun entry => entry.1.str) := by
        simp
      cases hfile : sha256File (joinPath root relative) with
      | error error => exact ⟨[relative], hone, by simpa using hkey, by simp [hfile]⟩
      | ok actual =>
        by_cases hdigest : actual = expected
        · refine ⟨relative :: keys, hkeys.cons_cons relative, ?_, by simp [hfile, hdigest, hopened]⟩
          exact List.forall_mem_cons.2 ⟨hkey, haccepted⟩
        · exact ⟨[relative], hone, by simpa using hkey, by simp [hfile, hdigest]⟩

/-- The digests pass if every key is accepted and its file has the digest. -/
theorem validateManifestHashesAt_eq_ok_iff
    {sha256File : String → Except HotIndexError String} {root : String}
    {entries : List (Text × String)} :
    (validateManifestHashesAt sha256File root entries).1 = .ok () ↔
      ∀ entry ∈ entries, validateManifestArtifactKey entry.1.str = .ok () ∧
        sha256File (joinPath root entry.1.str) = .ok entry.2 := by
  induction entries with
  | nil => simp [validateManifestHashesAt]
  | cons entry rest ih =>
    obtain ⟨⟨relative⟩, expected⟩ := entry
    rw [validateManifestHashesAt, List.forall_mem_cons, ← ih]
    -- the loop ends at the first entry whose key, file or digest is wrong
    cases hkey : validateManifestArtifactKey relative with
    | error error => simp
    | ok accepted =>
      cases accepted
      cases hfile : sha256File (joinPath root relative) with
      | error error => simp [hfile]
      | ok actual =>
        by_cases hdigest : actual = expected
        · simp [hfile, hdigest]
        · simp [hfile, hdigest]

/-- On the files of a dataset directory, this is what the directory is checked for. -/
theorem validateManifestHashes_eq_ok_iff (env : DatasetEnv) (dir : DatasetDir)
    (cwd root : String) (manifest : DatasetManifest) :
    (validateManifestHashesAt (fun path => sha256File env dir (placeOf cwd root path)) root
        manifest.hashes.entries).1 = .ok () ↔
      validateManifestHashes env dir manifest = .ok () := by
  unfold validateManifestHashes
  rw [validateManifestHashesAt_eq_ok_iff, forM_eq_ok_iff]
  refine forall_congr' fun entry => forall_congr' fun _ => ?_
  obtain ⟨⟨relative⟩, expected⟩ := entry
  rw [validateManifestHash_eq_ok_iff]
  refine and_congr_right fun hkey => ?_
  rw [placeOf_join ((validateManifestArtifactKey_iff _).1 hkey), sha256File_eq_ok_iff]
  exact exists_congr fun content => and_congr_right fun _ => eq_comm

/-- **Manifest keys cannot escape.** An accepted key leads strictly below the root, two keys
lead to different paths, and checking the digests of a manifest opens only paths strictly below
the root, each of them once. -/
theorem validateManifestHashes_inside (cwd root : String) :
    (∀ key, validateManifestArtifactKey key = .ok () →
      StrictlyBelow cwd root (joinPath root key)) ∧
    (∀ key key', validateManifestArtifactKey key = .ok () →
      validateManifestArtifactKey key' = .ok () → key ≠ key' →
        UnixPath.resolve cwd.toList (joinPath root key).toList ≠
          UnixPath.resolve cwd.toList (joinPath root key').toList) ∧
    ∀ (sha256File : String → Except HotIndexError String) (manifest : DatasetManifest),
      let opened := (validateManifestHashesAt sha256File root manifest.hashes.entries).2
      (∀ path ∈ opened, StrictlyBelow cwd root path) ∧
        (opened.map fun path => UnixPath.resolve cwd.toList path.toList).Nodup := by
  refine ⟨fun key hkey => strictlyBelow_of_accepted hkey cwd root,
    fun key key' hkey hkey' hne hresolve => hne (eq_of_resolve_eq hkey hkey' hresolve), ?_⟩
  intro sha256File manifest opened
  obtain ⟨keys, hsublist, haccepted, hopened⟩ :=
    opened_sublist sha256File root manifest.hashes.entries
  have hopened' : opened = keys.map (joinPath root) := hopened
  constructor
  · rw [hopened']
    intro path hpath
    obtain ⟨key, hkey, rfl⟩ := List.mem_map.1 hpath
    exact strictlyBelow_of_accepted (haccepted key hkey) cwd root
  · -- the keys of a map are distinct, and so are the paths they lead to
    have hkeys : keys.Nodup := by
      refine hsublist.nodup (List.pairwise_map.2 ?_)
      refine manifest.hashes.sorted.imp fun hlt hsame => hlt.ne ?_
      exact congrArg Text.mk hsame
    rw [hopened', List.map_map]
    refine List.Nodup.map_on ?_ hkeys
    intro key hkey key' hkey' hresolve
    exact eq_of_resolve_eq (haccepted key hkey) (haccepted key' hkey') hresolve

theorem validateManifestHashes_inside_rawChunk :
    validateManifestArtifactKey "raw/a.zst" = .ok () ∧
      StrictlyBelow "/" "/data" (joinPath "/data" "raw/a.zst") :=
  ⟨by decide, (validateManifestHashes_inside "/" "/data").1 "raw/a.zst" (by decide)⟩

end HotIndex
