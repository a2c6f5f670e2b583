import HotIndex.Dataset.Normalize
import HotIndex.Lib.Consecutive
import HotIndex.Lib.Fallible

/-!
# Normalized Ranges Are Gap-Free

The checks of `normalize_protobuf_tx_only` act at different places: within a chunk on
neighbouring versions, at the end of a chunk on its range and count, and before all of
it on the names of the files. Together they leave only one possibility for the rows of
`txs.ndjson`: the versions from the start version of the manifest to its end version,
one after the other (`normalize_gap_free`).
-/

namespace HotIndex

open Lib

/-! ## One transaction -/

theorem checkSuccessor_eq_ok_iff {chunk : ChunkFile} {previous : Option UInt64}
    {version : UInt64} :
    checkSuccessor chunk previous version = .ok () ↔
      ∀ p ∈ previous, version.toNat = p.toNat + 1 := by
  cases previous with
  | none => simp [checkSuccessor]
  | some p =>
    simp only [checkSuccessor, bind_eq_ok_iff, checkedNextVersion_eq_ok_iff, Option.mem_def,
      Option.some.injEq, forall_eq']
    constructor
    · -- the check has no place for a version that wraps
      rintro ⟨expected, hexpected, h⟩
      split_ifs at h with hne
      rw [not_not.1 hne, hexpected]
    · intro h
      exact ⟨version, h, by simp⟩

theorem countTransaction_ok {count next : UInt64} (h : countTransaction count = .ok next) :
    next.toNat = count.toNat + 1 := by
  unfold countTransaction at h
  split_ifs at h with hmax
  have hnext : checkedNextVersion count = .ok next := by
    unfold checkedNextVersion
    rw [if_neg hmax]
    exact h
  exact checkedNextVersion_eq_ok_iff.1 hnext

section Decode

variable {json : JsonText} {options : ParserOptions}

/-- What the loop state says about the rows written so far. -/
structure DecodeState.Tracks (st : DecodeState) : Prop where
  first : st.firstVersion = (st.txLines.map TxRow.version).min?
  last : st.lastVersion = (st.txLines.map TxRow.version).max?
  count : st.uniqueTxCount = UInt64.ofNat st.txLines.length

/-- What the chunk state says about the transactions of the chunk decoded so far. -/
structure ChunkState.Tracks (txs : List Transaction) (cs : ChunkState) : Prop where
  first : cs.chunkFirstVersion = (txs.map Transaction.version).head?
  last : cs.chunkLastVersion = (txs.map Transaction.version).getLast?
  previous : cs.previousChunkVersion = (txs.map Transaction.version).getLast?
  count : cs.chunkTransactionCount.toNat = txs.length
  consecutive : ∃ start, ConsecutiveFrom start (txs.map (fun tx => tx.version.toNat))

private theorem min?_concat (l : List UInt64) (v : UInt64) :
    (l ++ [v]).min? = some (l.min?.elim v (min · v)) := by
  cases l with
  | nil => rfl
  | cons a l =>
    show some ((l ++ [v]).foldl min a) = some (min (l.foldl min a) v)
    rw [List.foldl_append]
    rfl

private theorem max?_concat (l : List UInt64) (v : UInt64) :
    (l ++ [v]).max? = some (l.max?.elim v (max · v)) := by
  cases l with
  | nil => rfl
  | cons a l =>
    show some ((l ++ [v]).foldl max a) = some (max (l.foldl max a) v)
    rw [List.foldl_append]
    rfl

/-- A successful step adds the row of its transaction and moves both states on. -/
theorem decodeTransaction_ok {chunk : ChunkFile} {st st' : DecodeState × ChunkState}
    {tx : Transaction} {done : List Transaction}
    (h : decodeTransaction json options chunk st tx = .ok st') (hst : st.1.Tracks)
    (hcs : st.2.Tracks done) :
    st'.1.Tracks ∧ st'.2.Tracks (done ++ [tx]) ∧
      st'.1.txLines = st.1.txLines ++ [txRowFromTransaction tx options] := by
  obtain ⟨⟨⟩, hsucc, h⟩ := bind_eq_ok_iff.1 h
  obtain ⟨count, hcount, h⟩ := bind_eq_ok_iff.1 h
  obtain ⟨seen, -, h⟩ := bind_eq_ok_iff.1 h
  obtain ⟨output, -, h⟩ := bind_eq_ok_iff.1 h
  cases h
  rw [checkSuccessor_eq_ok_iff, hcs.previous] at hsucc
  refine ⟨⟨?_, ?_, ?_⟩, ⟨?_, ?_, ?_, ?_, ?_⟩, rfl⟩
  · simp only [List.map_append, List.map_singleton]
    rw [min?_concat, ← hst.first]
    rfl
  · simp only [List.map_append, List.map_singleton]
    rw [max?_concat, ← hst.last]
    rfl
  · simp only [List.length_append, List.length_singleton, hst.count, UInt64.ofNat_add]
    rfl
  · simp only [hcs.first]
    cases done <;> rfl
  · simp
  · simp
  · rw [countTransaction_ok hcount, hcs.count, List.length_append, List.length_singleton]
  · obtain ⟨start, hstart⟩ := hcs.consecutive
    rcases List.eq_nil_or_concat done with rfl | ⟨init, last, rfl⟩
    · exact ⟨tx.version.toNat, by simp⟩
    · -- the successor check is against the last version of the run
      refine ⟨start, ?_⟩
      rw [List.map_append, ConsecutiveFrom.append_iff]
      refine ⟨hstart, ?_⟩
      have hnext : tx.version.toNat = last.version.toNat + 1 := by
        apply hsucc
        simp
      rw [List.concat_eq_append, List.map_append, ConsecutiveFrom.append_iff] at hstart
      have hlast : last.version.toNat = start + init.length := by
        simpa using hstart.2
      simp [hnext, hlast, add_assoc]

/-! ## One chunk -/

/-- The chunk holds consecutive versions, from the first that its name declares to the last
if it declares any. -/
structure ChunkFile.Decoded (chunk : ChunkFile) : Prop where
  nonempty : chunk.versions ≠ []
  consecutive : ∃ start, ConsecutiveFrom start chunk.versions
  declared : ∀ range ∈ chunk.declaredRange,
    chunk.versions.head? = some range.1.toNat ∧ chunk.versions.getLast? = some range.2.toNat

/-- A decoded chunk whose name declares a range holds that range. -/
theorem ChunkFile.Decoded.versions_eq {chunk : ChunkFile} (h : chunk.Decoded)
    {range : UInt64 × UInt64} (hrange : range ∈ chunk.declaredRange) :
    range.1 ≤ range.2 ∧
      chunk.versions = List.range' range.1.toNat (range.2.toNat + 1 - range.1.toNat) := by
  obtain ⟨start, hstart⟩ := h.consecutive
  obtain ⟨hhead, hlast⟩ := h.declared range hrange
  obtain ⟨hle, hversions⟩ := hstart.eq_range'_of_ends hhead hlast
  exact ⟨UInt64.le_iff_toNat_le.2 hle, hversions⟩

theorem validateDecodedRawChunk_ok {chunk : ChunkFile} {first last : Option UInt64}
    {count : UInt64} (h : validateDecodedRawChunk chunk first last count = .ok ()) :
    first ≠ none ∧ ∀ range ∈ chunk.declaredRange, first = some range.1 ∧ last = some range.2 := by
  unfold validateDecodedRawChunk at h
  cases first with
  | none => cases h
  | some first =>
    cases last with
    | none => cases h
    | some last =>
      refine ⟨Option.some_ne_none _, fun range hrange => ?_⟩
      simp only [Option.mem_def.1 hrange] at h
      -- only the range of the file name is of interest here, not its count
      split_ifs at h with hne _ _
      rw [not_or, not_not, not_not] at hne
      rw [hne.1, hne.2]
      exact ⟨rfl, rfl⟩

/-- A chunk that is decoded without an error passes its checks as a whole. -/
theorem decodeChunk_ok {chunk : ChunkFile} {st st' : DecodeState}
    (h : decodeChunk json options st chunk = .ok st') (hst : st.Tracks) :
    st'.Tracks ∧ chunk.Decoded ∧ st'.txLines =
      st.txLines ++ chunk.transactions.map (fun tx => txRowFromTransaction tx options) := by
  obtain ⟨⟨st₁, cs⟩, hloop, h⟩ := bind_eq_ok_iff.1 h
  obtain ⟨⟨⟩, -, h⟩ := bind_eq_ok_iff.1 h
  obtain ⟨⟨⟩, hvalid, h⟩ := bind_eq_ok_iff.1 h
  cases h
  -- the loop rule, with the transactions decoded so far
  obtain ⟨hst₁, hcs, hlines⟩ := foldlM_induction (P := fun done s =>
      s.1.Tracks ∧ s.2.Tracks done ∧
        s.1.txLines = st.txLines ++ done.map (fun tx => txRowFromTransaction tx options))
    hloop ⟨hst, ⟨rfl, rfl, rfl, rfl, 0, ConsecutiveFrom.nil 0⟩, by simp⟩
    (fun done tx s s' _ ⟨hs, hcs, hlines⟩ hstep => by
      obtain ⟨hs', hcs', hline⟩ := decodeTransaction_ok hstep hs hcs
      exact ⟨hs', hcs', by rw [hline, hlines]; simp⟩)
  obtain ⟨hnonempty, hdeclared⟩ := validateDecodedRawChunk_ok hvalid
  have hversions : chunk.versions =
      (chunk.transactions.map Transaction.version).map UInt64.toNat := by
    simp [ChunkFile.versions]
  refine ⟨hst₁, ⟨?_, hcs.consecutive, ?_⟩, hlines⟩
  · intro hnil
    rw [hversions, List.map_eq_nil_iff] at hnil
    rw [hcs.first, hnil] at hnonempty
    exact hnonempty rfl
  · intro range hrange
    obtain ⟨hfirst, hlast⟩ := hdeclared range hrange
    rw [hcs.first] at hfirst
    rw [hcs.last] at hlast
    rw [hversions, List.head?_map, List.getLast?_map, hfirst, hlast]
    exact ⟨rfl, rfl⟩

theorem decodeChunks_ok {rawInputs : List ChunkFile} {st : DecodeState}
    (h : decodeChunks json options rawInputs = .ok st) :
    st.Tracks ∧ (∀ chunk ∈ rawInputs, chunk.Decoded) ∧ st.txLines =
      (rawInputs.flatMap ChunkFile.transactions).map
        (fun tx => txRowFromTransaction tx options) := by
  -- on the chunks that are decoded so far
  obtain ⟨hst, hdecoded, hlines⟩ := foldlM_induction (P := fun done s =>
      s.Tracks ∧ (∀ chunk ∈ done, chunk.Decoded) ∧
        s.txLines = (done.flatMap ChunkFile.transactions).map
          (fun tx => txRowFromTransaction tx options))
    h ⟨⟨rfl, rfl, rfl⟩, by simp, rfl⟩
    (fun done chunk s s' _ ⟨hs, hdecoded, hlines⟩ hstep => by
      obtain ⟨hs', hchunk, hline⟩ := decodeChunk_ok hstep hs
      refine ⟨hs', ?_, by rw [hline, hlines]; simp⟩
      intro c hc
      rcases List.mem_append.1 hc with hc | hc
      · exact hdecoded c hc
      · exact List.mem_singleton.1 hc ▸ hchunk)
  exact ⟨hst, hdecoded, hlines⟩

end Decode

/-! ## The names of the chunks -/

/-- Chunks that hold what their names declare, and whose names follow on each other, hold
consecutive versions altogether. -/
theorem consecutive_of_validateDeclared {chunks : List ChunkFile} {previousLast : Option UInt64}
    (h : validateDeclaredFrom true true previousLast chunks = .ok ())
    (hdecoded : ∀ chunk ∈ chunks, chunk.Decoded) :
    ∃ start, ConsecutiveFrom start (chunks.flatMap ChunkFile.versions) ∧
      ∀ p ∈ previousLast, chunks ≠ [] → start = p.toNat + 1 := by
  induction chunks generalizing previousLast with
  | nil => exact ⟨0, ConsecutiveFrom.nil 0, by simp⟩
  | cons chunk rest ih =>
    rw [validateDeclaredFrom] at h
    cases hrange : chunk.declaredRange with
    | none => simp [hrange] at h
    | some range =>
      obtain ⟨first, last⟩ := range
      simp only [hrange] at h
      split_ifs at h with hle
      obtain ⟨⟨⟩, hfollows, hrest⟩ := bind_eq_ok_iff.1 h
      obtain ⟨start', hstart', hnext⟩ := ih hrest
        (fun c hc => hdecoded c (List.mem_cons_of_mem _ hc))
      have hchunk := hdecoded chunk List.mem_cons_self
      obtain ⟨start, hstart⟩ := hchunk.consecutive
      obtain ⟨hhead, hlast⟩ := hchunk.declared (first, last) hrange
      -- the chunk holds the versions from `first` to `last`
      rw [hstart.head?_eq hchunk.nonempty, Option.some.injEq] at hhead
      rw [hstart.getLast?_eq hchunk.nonempty, Option.some.injEq] at hlast
      simp only at hhead hlast
      have hpos : 0 < chunk.versions.length := List.length_pos_iff.2 hchunk.nonempty
      refine ⟨start, ?_, ?_⟩
      · rw [List.flatMap_cons, ConsecutiveFrom.append_iff]
        refine ⟨hstart, ?_⟩
        by_cases hnil : rest = []
        · subst hnil
          exact ConsecutiveFrom.nil _
        · have hs : start' = last.toNat + 1 := hnext last rfl hnil
          rwa [show start + chunk.versions.length = start' by omega]
      · -- the name was compared with the end of the chunk before it
        intro p hp _
        rw [Option.mem_def.1 hp, checkFollows, bind_eq_ok_iff] at hfollows
        obtain ⟨expected, hexpected, hfirst⟩ := hfollows
        split_ifs at hfirst with hne
        have hnextVersion := checkedNextVersion_eq_ok_iff.1 hexpected
        rw [not_not] at hne
        rw [hhead, hne, hnextVersion]

/-! ## The dataset -/

section Dataset

variable {json : JsonText} {options : ParserOptions} {input : RawPath}
  {hashes : Except HotIndexError (SortedMap Text String)} {dataset : NormalizedDataset}

/-- A run that succeeds resolved its inputs, checked their names and decoded them. -/
theorem normalizeProtobuf_ok (h : normalizeProtobuf json options input hashes = .ok dataset) :
    ∃ rawInputs st files, resolveProtobufRawInputs input = .ok rawInputs ∧
      validateDeclaredRawChunkSequence rawInputs input.isDir = .ok () ∧
      decodeChunks json options rawInputs = .ok st ∧
      rawInputs ≠ [] ∧ dataset = protobufDataset options st files := by
  obtain ⟨rawInputs, hresolve, h⟩ := bind_eq_ok_iff.1 h
  unfold normalizeProtobufTxOnly at h
  -- a directory without chunks is an error
  split_ifs at h with hempty
  · cases h
  · obtain ⟨⟨⟩, hvalid, h⟩ := bind_eq_ok_iff.1 h
    obtain ⟨st, hst, h⟩ := bind_eq_ok_iff.1 h
    obtain ⟨files, -, h⟩ := bind_eq_ok_iff.1 h
    cases h
    refine ⟨rawInputs, st, files, hresolve, hvalid, hst, ?_, rfl⟩
    simpa using hempty

/-- The inputs of a successful run hold consecutive versions altogether: one file by the
successor check, a directory by the names of its chunks as well. -/
theorem consecutive_rawInputs {rawInputs : List ChunkFile} {st : DecodeState}
    (hresolve : resolveProtobufRawInputs input = .ok rawInputs)
    (hvalid : validateDeclaredRawChunkSequence rawInputs input.isDir = .ok ())
    (hst : decodeChunks json options rawInputs = .ok st) :
    ∃ start, ConsecutiveFrom start (rawInputs.flatMap ChunkFile.versions) := by
  obtain ⟨-, hdecoded, -⟩ := decodeChunks_ok hst
  cases input with
  -- a file alone is checked from its first transaction on
  | file chunk =>
    cases hresolve
    obtain ⟨start, hstart⟩ := (hdecoded chunk (by simp)).consecutive
    exact ⟨start, by simpa using hstart⟩
  -- in a directory, the declared ranges tie the chunks to each other
  | directory display entries =>
    obtain ⟨start, hstart, -⟩ := consecutive_of_validateDeclared hvalid hdecoded
    exact ⟨start, hstart⟩
  | neither display => cases hresolve

/-- Ascending versions are least at their start and greatest at their end. -/
theorem min?_eq_of_consecutive {l : List UInt64} {start : Nat}
    (h : ConsecutiveFrom start (l.map UInt64.toNat)) (hne : l ≠ []) :
    ∃ first last, l.min? = some first ∧ l.max? = some last ∧ first.toNat = start ∧
      last.toNat = start + l.length - 1 := by
  have hlen : 0 < l.length := List.length_pos_iff.2 hne
  have hmem : ∀ v ∈ l, start ≤ v.toNat ∧ v.toNat < start + l.length := by
    intro v hv
    simpa using (h.mem_iff v.toNat).1 (List.mem_map_of_mem hv)
  -- both ends of the range are in the list
  obtain ⟨first, hfirst, hfirstNat⟩ : ∃ v ∈ l, v.toNat = start := by
    have := (h.mem_iff start).2 (by simp [hlen])
    simpa using this
  obtain ⟨last, hlast, hlastNat⟩ : ∃ v ∈ l, v.toNat = start + l.length - 1 := by
    have := (h.mem_iff (start + l.length - 1)).2 (by simp; omega)
    simpa using this
  refine ⟨first, last, ?_, ?_, hfirstNat, hlastNat⟩
  · refine List.min?_eq_some_iff.2 ⟨hfirst, fun v hv => ?_⟩
    rw [UInt64.le_iff_toNat_le, hfirstNat]
    exact (hmem v hv).1
  · refine List.max?_eq_some_iff.2 ⟨hlast, fun v hv => ?_⟩
    rw [UInt64.le_iff_toNat_le, hlastNat]
    have := (hmem v hv).2
    omega

/-- A manifest whose count is the length of its range passes the benchmark's check, as far
as the length fits into a word. -/
theorem validateManifestRange_ok {manifest : DatasetManifest} {last : UInt64}
    (hend : manifest.endVersion = some last) (hle : manifest.startVersion.toNat ≤ last.toNat)
    (hcount : manifest.rawTransactionCount.toNat =
      last.toNat + 1 - manifest.startVersion.toNat) :
    validateManifestRange manifest = .ok () := by
  have hlt := manifest.rawTransactionCount.toNat_lt
  have hle' : manifest.startVersion ≤ last := UInt64.le_iff_toNat_le.2 hle
  have hsub : (last - manifest.startVersion).toNat =
      last.toNat - manifest.startVersion.toNat := UInt64.toNat_sub_of_le _ _ hle'
  have hnotEmpty : ¬ manifest.rawTransactionCount = 0 := by
    intro hzero
    rw [hzero, UInt64.toNat_zero] at hcount
    omega
  -- all of `u64` would have a length that is no `u64`
  have hnotAll : ¬ last - manifest.startVersion = u64Max := by
    intro hmax
    rw [hmax, toNat_u64Max] at hsub
    omega
  -- the length of the range does not wrap, as it is the count
  have hexpected : manifest.rawTransactionCount = last - manifest.startVersion + 1 := by
    rw [← UInt64.toNat_inj, UInt64.toNat_add, hsub, hcount]
    show _ = (last.toNat - manifest.startVersion.toNat + 1) % 2 ^ 64
    rw [Nat.mod_eq_of_lt (by omega)]
    omega
  unfold validateManifestRange
  rw [hend]
  simp only [not_lt.2 hle', if_false, hnotEmpty, hnotAll, ← hexpected, ne_eq, not_true]

/-- A range of versions that is not all of `u64` has fewer than `2 ^ 64` of them. -/
theorem length_lt_size_of_not_all {first last : UInt64} {start length : Nat}
    (hfirst : first.toNat = start) (hlast : last.toNat = start + length - 1)
    (hall : ¬ (first = 0 ∧ last = u64Max)) : length < UInt64.size := by
  have hlt := last.toNat_lt
  rcases Nat.lt_or_ge length UInt64.size with hsmall | hlarge
  · exact hsmall
  · simp only [UInt64.size] at hlarge
    apply absurd _ hall
    constructor
    · rw [← UInt64.toNat_inj, hfirst, UInt64.toNat_zero]
      omega
    · rw [← UInt64.toNat_inj, toNat_u64Max]
      omega

/-- **Normalization is gap-free.** If a normalize run succeeds, on one file or on the chunks
of a directory listed in any order, `txs.ndjson` holds exactly the versions from the start
version of the manifest to its end version, ascending, each once; the manifest counts them;
every chunk that names a range holds exactly that range; and unless the range is all of
`u64` the manifest passes the benchmark's range check. -/
theorem normalize_gap_free (h : normalizeProtobuf json options input hashes = .ok dataset) :
    ∃ rawInputs endVersion,
      resolveProtobufRawInputs input = .ok rawInputs ∧
      dataset.manifest.endVersion = some endVersion ∧
      dataset.manifest.startVersion ≤ endVersion ∧
      dataset.rows.txs.map (fun tx => tx.version.toNat) =
        List.range' dataset.manifest.startVersion.toNat
          (endVersion.toNat + 1 - dataset.manifest.startVersion.toNat) ∧
      dataset.manifest.rawTransactionCount = UInt64.ofNat dataset.rows.txs.length ∧
      (∀ chunk ∈ rawInputs, ∀ range ∈ chunk.declaredRange, range.1 ≤ range.2 ∧
        chunk.versions = List.range' range.1.toNat (range.2.toNat + 1 - range.1.toNat)) ∧
      (¬ (dataset.manifest.startVersion = 0 ∧ endVersion = u64Max) →
        dataset.manifest.rawTransactionCount.toNat = dataset.rows.txs.length ∧
        validateManifestRange dataset.manifest = .ok ()) := by
  obtain ⟨rawInputs, st, files, hresolve, hvalid, hst, hinputs, rfl⟩ := normalizeProtobuf_ok h
  obtain ⟨htracks, hdecoded, hlines⟩ := decodeChunks_ok hst
  obtain ⟨start, hstart⟩ := consecutive_rawInputs hresolve hvalid hst
  set versions := st.txLines.map TxRow.version with hversions
  have hnat : versions.map UInt64.toNat = rawInputs.flatMap ChunkFile.versions := by
    rw [hversions, hlines, List.map_map, List.map_map, List.map_flatMap]
    rfl
  have hconsecutive : ConsecutiveFrom start (versions.map UInt64.toNat) := hnat ▸ hstart
  -- no input is empty, so there is a first version
  have hne : versions ≠ [] := by
    obtain ⟨chunk, hchunk⟩ := List.exists_mem_of_ne_nil rawInputs hinputs
    intro hnil
    rw [hnil, List.map_nil, eq_comm, List.flatMap_eq_nil_iff] at hnat
    exact (hdecoded chunk hchunk).nonempty (hnat chunk hchunk)
  obtain ⟨first, last, hmin, hmax, hfirst, hlast⟩ := min?_eq_of_consecutive hconsecutive hne
  have hlen : 0 < versions.length := List.length_pos_iff.2 hne
  have hlength : st.txLines.length = versions.length := by simp [hversions]
  have hstartVersion : (protobufDataset options st files).manifest.startVersion = first := by
    show st.firstVersion.getD 0 = first
    rw [htracks.first, hmin]
    rfl
  have hendVersion : (protobufDataset options st files).manifest.endVersion = some last :=
    htracks.last.trans hmax
  have hcount : (protobufDataset options st files).manifest.rawTransactionCount =
      UInt64.ofNat versions.length := htracks.count.trans (by rw [hlength])
  rw [hstartVersion, hendVersion, hcount]
  refine ⟨rawInputs, last, hresolve, rfl, ?_, ?_, ?_, ?_, ?_⟩
  · rw [UInt64.le_iff_toNat_le]
    omega
  · show st.txLines.map (fun tx => tx.version.toNat) = _
    have hrange : versions.map UInt64.toNat = List.range' start versions.length := by
      have := hconsecutive
      rwa [ConsecutiveFrom, List.length_map] at this
    rw [hfirst, hlast, show start + versions.length - 1 + 1 - start = versions.length by omega,
      ← hrange, hversions, List.map_map]
    rfl
  · show _ = UInt64.ofNat st.txLines.length
    rw [hlength]
  · exact fun chunk hchunk range hrange => (hdecoded chunk hchunk).versions_eq hrange
  · intro hall
    have hbound := length_lt_size_of_not_all hfirst hlast hall
    have hcountNat : (UInt64.ofNat versions.length).toNat = versions.length :=
      UInt64.toNat_ofNat_of_lt' hbound
    refine ⟨hcountNat.trans hlength.symm, validateManifestRange_ok hendVersion ?_ ?_⟩
    · rw [hstartVersion]
      omega
    · rw [hcount, hcountNat, hstartVersion]
      omega

/-- A raw directory whose listing shows the later chunk first, and a file beside them. -/
def sampleArchive : RawPath :=
  let tx (version : UInt64) : Transaction :=
    { version := version, infoHash := none, timestamp := none, type := 0, epoch := 1,
      blockHeight := 1, txnData := some .stateCheckpoint }
  let entry (name : String) (versions : List UInt64) : DirEntry :=
    { isFile := true, chunk := {
      display := "raw/" ++ name, fileName := some name, transactions := versions.map tx,
      failure := none } }
  .directory "raw" [entry "transactions_9_10.pb.zst" [9, 10],
    entry "record_checkpoint.json" [], entry "transactions_7_8.pb.zst" [7, 8]]

/-- Options of a run on a local network. -/
def sampleOptions : ParserOptions where
  network := .localnet
  datasetId := ⟨"local"⟩
  packageAddress := zeroAddress
  orderbookAddress := zeroAddress

theorem normalize_gap_free_sampleArchive :
    ∃ dataset, normalizeProtobuf (.ofTexts []) sampleOptions sampleArchive (.ok .empty) =
        .ok dataset ∧
      ∃ rawInputs endVersion,
        resolveProtobufRawInputs sampleArchive = .ok rawInputs ∧
        dataset.manifest.endVersion = some endVersion ∧
        dataset.manifest.startVersion ≤ endVersion ∧
        dataset.rows.txs.map (fun tx => tx.version.toNat) =
          List.range' dataset.manifest.startVersion.toNat
            (endVersion.toNat + 1 - dataset.manifest.startVersion.toNat) ∧
        dataset.manifest.rawTransactionCount = UInt64.ofNat dataset.rows.txs.length ∧
        (∀ chunk ∈ rawInputs, ∀ range ∈ chunk.declaredRange, range.1 ≤ range.2 ∧
          chunk.versions = List.range' range.1.toNat (range.2.toNat + 1 - range.1.toNat)) ∧
        (¬ (dataset.manifest.startVersion = 0 ∧ endVersion = u64Max) →
          dataset.manifest.rawTransactionCount.toNat = dataset.rows.txs.length ∧
          validateManifestRange dataset.manifest = .ok ()) := by
  have hok : (normalizeProtobuf (.ofTexts []) sampleOptions sampleArchive (.ok .empty)).toBool =
      true := by decide +kernel
  -- the archive normalizes: the evaluation above says so
  cases h : normalizeProtobuf (.ofTexts []) sampleOptions sampleArchive (.ok .empty) with
  | error error =>
    rw [h] at hok
    cases hok
  | ok dataset => exact ⟨dataset, rfl, normalize_gap_free h⟩

end Dataset

end HotIndex
