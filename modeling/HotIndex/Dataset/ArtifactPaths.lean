import HotIndex.Dataset.DatasetDir
import HotIndex.Lib.UnixPath

/-!
# Artifact Paths

How a normalize run gets from the paths of its arguments to the dataset root, to the files that
it reads and to the keys under which it records their digests. `artifact_key` takes the root
off a path and falls back to the whole path, while replay looks for the key below the root, so
the two agree only on some paths (`recordable_iff`).

The file system is one without links: a file is found by the names on the way to it.
-/

namespace HotIndex

open Lib

/-! ## Paths -/

/-- `Path::join` -/
def joinPath (base path : String) : String := String.ofList (UnixPath.join base.toList path.toList)

/-- `dataset_root_for_normalized_dir` -/
def datasetRootForNormalizedDir (normalizedDir : String) : Except HotIndexError String :=
  if UnixPath.fileName normalizedDir.toList = some "normalized".toList then
    match UnixPath.parent normalizedDir.toList with
    | some root => .ok (String.ofList root)
    | none => .error (.config s!"normalized output {normalizedDir} has no dataset root parent")
  else .ok normalizedDir

/-- `artifact_key` -/
def artifactKey (root path : String) : String :=
  String.ofList ((UnixPath.stripPrefix path.toList root.toList).getD path.toList)

/-- Where a path leads, seen from a dataset root; both are read from the working directory. -/
def placeOf (cwd root path : String) : FilePlace :=
  let top := UnixPath.resolve cwd.toList root.toList
  let file := UnixPath.resolve cwd.toList path.toList
  if top <+: file then .dataset (String.ofList (UnixPath.joinParts (file.drop top.length)))
  else .elsewhere (String.ofList ('/' :: UnixPath.joinParts file))

/-- A raw file that is given by its path. -/
def rawInputAt (cwd root path : String) : RawInput where
  display := path
  fileName := (UnixPath.fileName path.toList).map String.ofList
  place := placeOf cwd root path
  key := artifactKey root path

/-- An output directory `<root>/normalized`. -/
structure NormalizedDir where
  path : String
  named : UnixPath.fileName path.toList = some "normalized".toList

/-- The dataset root of an output directory. -/
def NormalizedDir.root (out : NormalizedDir) : String :=
  String.ofList ((UnixPath.parent out.path.toList).getD [])

/-! ## The command -/

/-- What the input path of a normalize run leads to. -/
inductive RawSource where
  | file (path : String)
  /-- A directory, and its entries with their names and whether they are files -/
  | directory (path : String) (entries : List (String × Bool))

/-- What `--format` says, or the extension of the input path. -/
inductive RawFormat where
  | fixtureJsonl
  | protobufZstd

section Command

variable (env : DatasetEnv) (cwd : String) (out : NormalizedDir) (options : ParserOptions)

/-- The chunks of a directory, as `resolve_protobuf_raw_inputs` finds them. -/
def directoryInputs (dir : DatasetDir) (path : String) (entries : List (String × Bool)) :
    List RawInput :=
  let inputs := (entries.map (fun entry =>
    (rawInputAt cwd out.root (joinPath path entry.1), entry.2))).filter (fun input =>
      isTransactionChunk { isFile := input.2, chunk := input.1.chunk env dir })
  sortOn (fun input => chunkSortKey (input.chunk env dir)) (inputs.map Prod.fst)

/-- `resolve_protobuf_raw_inputs` -/
def resolveRawInputs (dir : DatasetDir) : RawSource → Except HotIndexError (List RawInput)
  | .file path => .ok [rawInputAt cwd out.root path]
  | .directory path entries =>
    let inputs := directoryInputs env cwd out dir path entries
    if inputs.isEmpty then
      .error (.config s!"no transactions_*.pb.zst chunks found in {path}")
    else .ok inputs

/-- `normalize_command` -/
def normalizeCommand : RawFormat → RawSource → DatasetM Unit
  | .fixtureJsonl, .directory path _ => StoreM.fail (.config
      s!"fixture-jsonl normalize requires a file input, got directory {path}")
  | .fixtureJsonl, .file path => normalizeFixture env options (rawInputAt cwd out.root path)
  | .protobufZstd, source => do
    let dir ← StoreM.read
    let rawInputs ← StoreM.ofExcept (resolveRawInputs env cwd out dir source)
    let isDir := match source with
      | .directory _ _ => true
      | .file _ => false
    normalizeProtobufFiles env options rawInputs isDir

end Command

/-! ## The dataset root -/

section Root

variable (out : NormalizedDir)

/-- The root is what `normalize_command` takes for it. -/
theorem datasetRoot_eq : datasetRootForNormalizedDir out.path = .ok out.root := by
  rcases UnixPath.exists_parent out.named with ⟨par, hpar, _⟩
  unfold datasetRootForNormalizedDir NormalizedDir.root
  rw [if_pos out.named, hpar]
  rfl

theorem resolve_out (cwd : List Char) : UnixPath.resolve cwd out.path.toList =
    UnixPath.resolve cwd out.root.toList ++ ["normalized".toList] := by
  rcases UnixPath.exists_parent out.named with ⟨par, hpar, hcomponents⟩
  apply UnixPath.resolve_of_components
  unfold NormalizedDir.root
  rw [hpar, String.toList_ofList]
  exact hcomponents

end Root

/-- A path that leads below the root leads to the place of the names behind it. -/
theorem placeOf_of_resolve {cwd root path : String} {names : List (List Char)}
    (h : UnixPath.resolve cwd.toList path.toList =
      UnixPath.resolve cwd.toList root.toList ++ names) :
    placeOf cwd root path = .dataset (String.ofList (UnixPath.joinParts names)) := by
  unfold placeOf
  simp only [h, List.prefix_append, if_true, List.drop_left]

theorem placeOf_join {cwd root path : String} (h : UnixPath.Plain path.toList) :
    placeOf cwd root (joinPath root path) = .dataset path := by
  have hresolve := @UnixPath.resolve_join cwd.toList root.toList path.toList h
  rw [placeOf_of_resolve (by rw [joinPath, String.toList_ofList]; exact hresolve),
    UnixPath.joinParts_splitOn, String.ofList_toList]

/-- The artifacts lie where the run writes them. -/
theorem placeOf_normalized (cwd : String) (out : NormalizedDir) {name : String}
    (h : UnixPath.Plain name.toList) :
    placeOf cwd out.root (joinPath out.path name) = .dataset ("normalized/" ++ name) := by
  have hnames := @UnixPath.resolve_join cwd.toList out.path.toList name.toList h
  rw [resolve_out, List.append_assoc] at hnames
  rw [placeOf_of_resolve (by rw [joinPath, String.toList_ofList]; exact hnames),
    List.singleton_append, UnixPath.joinParts_cons _ (List.splitOn_ne_nil _ _),
    UnixPath.joinParts_splitOn]
  congr 1
  apply String.toList_inj.1
  simp

/-- An artifact is recorded under its relative path. -/
theorem artifactKey_join {root relative : String} (h : UnixPath.Plain relative.toList) :
    artifactKey root (joinPath root relative) = relative := by
  unfold artifactKey joinPath
  rw [String.toList_ofList, UnixPath.stripPrefix_join h, Option.getD_some, String.ofList_toList]

/-! ## Keys that replay accepts -/

theorem validateManifestArtifactKey_iff (relative : String) :
    validateManifestArtifactKey relative = .ok () ↔ UnixPath.Plain relative.toList := by
  unfold validateManifestArtifactKey
  constructor
  · intro h
    split_ifs at h with hbad
    push Not at hbad
    exact fun part hpart => UnixPath.isName_iff.2 (hbad.2.2 part hpart)
  · intro h
    rw [if_neg]
    rintro (hslash | rfl | ⟨part, hpart, hbad⟩)
    · -- before a slash at the start, there is an empty part
      have habsolute := h.not_isAbsolute
      simp [UnixPath.isAbsolute, hslash] at habsolute
    · exact h.ne_nil rfl
    · rcases UnixPath.isName_iff.1 (h part hpart) with ⟨hne, hdot, hdots⟩
      rcases hbad with hbad | hbad | hbad
      · exact hne hbad
      · exact hdot hbad
      · exact hdots hbad

/-- A raw file is recorded so that it is found again: it is given by the path of the root and
names behind it, or by names alone and the root is the working directory; and it is not the
file that the manifest is written to. -/
def Recordable (cwd root path : String) : Prop :=
  (match UnixPath.stripPrefix path.toList root.toList with
    | some rest => UnixPath.Plain rest
    | none => UnixPath.Plain path.toList ∧
        UnixPath.resolve cwd.toList root.toList = UnixPath.resolve cwd.toList []) ∧
  placeOf cwd root path ≠ .dataset "manifest.json"

/-- A plain path leads to its own names below the root only from the root. -/
theorem placeOf_plain_iff {cwd root path : String} (h : UnixPath.Plain path.toList) :
    placeOf cwd root path = .dataset path ↔
      UnixPath.resolve cwd.toList root.toList = UnixPath.resolve cwd.toList [] := by
  have hpath := @UnixPath.resolve_plain cwd.toList path.toList h
  constructor
  · -- the names below the root are the parts of the path, so nothing else is on the way to it
    intro hplace
    unfold placeOf at hplace
    simp only at hplace
    split_ifs at hplace with hbelow
    rcases hbelow with ⟨names, hnames⟩
    rw [← hnames, List.drop_left, FilePlace.dataset.injEq] at hplace
    have htext : UnixPath.joinParts names = path.toList := by
      rw [← hplace, String.toList_ofList]
    have hslash : ∀ name ∈ names, '/' ∉ name := by
      intro name hname
      apply @UnixPath.not_mem_of_mem_resolve cwd.toList path.toList
      rw [← hnames]
      exact List.mem_append_right _ hname
    have hne : names ≠ [] := by
      rintro rfl
      exact h.ne_nil htext.symm
    have hsame : path.toList.splitOn '/' = names := by
      rw [← htext, UnixPath.splitOn_joinParts hslash hne]
    rw [← hnames, hsame] at hpath
    exact List.append_cancel_right hpath
  · intro hroot
    rw [← hroot] at hpath
    rw [placeOf_of_resolve hpath, UnixPath.joinParts_splitOn, String.ofList_toList]

/-- A raw file is recordable exactly if replay accepts its key, finds it again under the key,
and the manifest is not written over it. -/
theorem recordable_iff (cwd root path : String) :
    Recordable cwd root path ↔
      validateManifestArtifactKey (artifactKey root path) = .ok () ∧
        placeOf cwd root (joinPath root (artifactKey root path)) = placeOf cwd root path ∧
        placeOf cwd root path ≠ .dataset "manifest.json" := by
  unfold Recordable
  rw [← and_assoc, and_congr_left_iff, validateManifestArtifactKey_iff]
  intro _
  cases hstrip : UnixPath.stripPrefix path.toList root.toList with
  | some rest =>
    -- the key is what is left of the path
    have hkey : artifactKey root path = String.ofList rest := by rw [artifactKey, hstrip]; rfl
    rw [hkey, String.toList_ofList]
    refine ⟨fun hplain => ⟨hplain, ?_⟩, And.left⟩
    rw [placeOf_join (by rwa [String.toList_ofList])]
    have hpath := UnixPath.components_of_stripPrefix hstrip hplain
    rw [placeOf_of_resolve (UnixPath.resolve_of_components hpath), UnixPath.joinParts_splitOn]
  | none =>
    -- the key is the path itself, which replay reads from the root
    have hkey : artifactKey root path = path := by
      rw [artifactKey, hstrip, Option.getD_none, String.ofList_toList]
    rw [hkey]
    refine and_congr_right fun hplain => ?_
    rw [placeOf_join hplain, ← placeOf_plain_iff hplain, eq_comm]

end HotIndex
