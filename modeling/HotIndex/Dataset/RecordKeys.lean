import HotIndex.Dataset.QueryCorpus
import HotIndex.Dataset.RecordAccount
import HotIndex.Lib.Sampling
import HotIndex.Lib.Strided

/-!
# The Recorder's Keys

`RecordKeyWriter` notes the version of every recorded transaction, and samples some of them for
the query files. The stride of the sample is chosen so that the expected transactions fit into
the limit of the sample; so the limit, which is tested as well, is never what ends the sample
(`sampledVersions_exact`).
-/

namespace HotIndex

open Lib

/-! ## The writer -/

/-- `u64::div_ceil` -/
def divCeil (n m : UInt64) : UInt64 :=
  if 0 < n % m then n / m + 1 else n / m

/-- `RecordKeyWriter`, without its paths. -/
structure RecordKeyWriter where
  /-- The versions in the temporary key file -/
  txVersions : List UInt64
  sampledVersions : List UInt64
  sampleStride : UInt64
  sampleLimit : UInt64
  /-- A remainder is taken by the stride -/
  sampleStride_pos : 0 < sampleStride

theorem toNat_max (a b : UInt64) : (max a b).toNat = max a.toNat b.toNat := by
  rw [max_def, max_def]
  simp only [UInt64.le_iff_toNat_le]
  split_ifs <;> rfl

namespace RecordKeyWriter

/-- `RecordKeyWriter::create` -/
def create (keySampleLimit expectedCount : UInt64) : RecordKeyWriter where
  txVersions := []
  sampledVersions := []
  sampleStride := max (divCeil expectedCount (max keySampleLimit 1)) 1
  sampleLimit := max keySampleLimit 1
  sampleStride_pos := by
    rw [UInt64.lt_iff_toNat_lt, toNat_max]
    exact lt_max_of_lt_right (by decide)

/-- `RecordKeyWriter::write_version` -/
def writeVersion (writer : RecordKeyWriter) (version zeroBasedIdx : UInt64) : RecordKeyWriter :=
  { writer with
    txVersions := writer.txVersions ++ [version]
    -- a `usize` has 64 bits, so the limit is compared whole
    sampledVersions :=
      if zeroBasedIdx % writer.sampleStride = 0 ∧
          writer.sampledVersions.length < writer.sampleLimit.toNat then
        writer.sampledVersions ++ [version]
      else writer.sampledVersions }

/-- The calls of `write_version` for some transactions, the first of which is number `count`. -/
def writeVersions (writer : RecordKeyWriter) (count : UInt64) : List UInt64 → RecordKeyWriter
  | [] => writer
  | version :: rest => (writer.writeVersion version count).writeVersions (count + 1) rest

end RecordKeyWriter

/-! ## The query files -/

/-- The records of `write_point_tx_query_file` -/
def writePointTxQueryFile (versions : List UInt64) : List QueryCorpusRecord :=
  versions.map (fun version => { queryKind := .getTxByVersion, txVersion := some version })

/-- The records of `write_multi_get_tx_query_file` -/
def writeMultiGetTxQueryFile (versions : List UInt64) (batchSize : Nat)
    (hbatch : 0 < batchSize) : List QueryCorpusRecord :=
  ((chunks batchSize hbatch versions).filter (fun chunk => !chunk.isEmpty)).map
    (fun chunk => { queryKind := .multiGetTxVersions, txVersions := chunk })

namespace RecordKeyWriter

/-- `point_tx_versions.ndjson`, as `RecordKeyWriter::finish` writes it. -/
def pointFile (writer : RecordKeyWriter) : List QueryCorpusRecord :=
  writePointTxQueryFile writer.sampledVersions

/-- `multi_get_tx_versions.ndjson`, in batches of a hundred. -/
def multiFile (writer : RecordKeyWriter) : List QueryCorpusRecord :=
  writeMultiGetTxQueryFile writer.sampledVersions 100 (by decide)

end RecordKeyWriter

/-- The batches concatenate to the versions; none is empty or too long. -/
theorem writeMultiGetTxQueryFile_batches (versions : List UInt64) {batchSize : Nat}
    (hbatch : 0 < batchSize) :
    (writeMultiGetTxQueryFile versions batchSize hbatch).flatMap QueryCorpusRecord.txVersions =
        versions ∧
      ∀ record ∈ writeMultiGetTxQueryFile versions batchSize hbatch,
        record.txVersions ≠ [] ∧ record.txVersions.length ≤ batchSize := by
  have hbounds := @chunks_bounds _ batchSize hbatch versions
  -- no chunk is empty, so the filter keeps all of them
  have hkept : (chunks batchSize hbatch versions).filter (fun chunk => !chunk.isEmpty) =
      chunks batchSize hbatch versions := by
    refine List.filter_eq_self.2 fun chunk hchunk => ?_
    simpa using (hbounds chunk hchunk).1
  unfold writeMultiGetTxQueryFile
  rw [hkept]
  constructor
  · rw [List.flatMap_map]
    simpa using flatten_chunks versions
  · intro record hrecord
    obtain ⟨chunk, hchunk, rfl⟩ := List.mem_map.1 hrecord
    exact hbounds chunk hchunk

/-! ## The stride and the limit -/

theorem toNat_divCeil {n m : UInt64} (hm : 0 < m.toNat) :
    (divCeil n m).toNat = n.toNat ⌈/⌉ m.toNat := by
  have hmod : 0 < n % m ↔ 0 < n.toNat % m.toNat := by
    rw [UInt64.lt_iff_toNat_lt, UInt64.toNat_mod]
    rfl
  have hsplit := Nat.div_add_mod n.toNat m.toNat
  unfold divCeil
  rw [Nat.ceilDiv_eq_add_pred_div]
  split_ifs with hrest
  · rw [hmod] at hrest
    have hlt := Nat.mod_lt n.toNat hm
    -- a rest is smaller than the divisor, so the quotient leaves room for the one
    have hquotient : n.toNat / m.toNat ≤ m.toNat * (n.toNat / m.toNat) :=
      Nat.le_mul_of_pos_left _ hm
    have hroom : n.toNat / m.toNat + 1 < 2 ^ 64 := by
      have := n.toNat_lt
      omega
    rw [UInt64.toNat_add, UInt64.toNat_div, ceil_div_of_mod_pos hm hrest]
    exact Nat.mod_eq_of_lt hroom
  · have hzero : n.toNat % m.toNat = 0 := Nat.eq_zero_of_not_pos fun h => hrest (hmod.2 h)
    rw [UInt64.toNat_div]
    refine (Nat.div_eq_of_lt_le ?_ ?_).symm
    · rw [Nat.mul_comm]
      omega
    · rw [Nat.add_mul, Nat.mul_comm (n.toNat / m.toNat)]
      omega

/-- The stride of a writer, as a number. -/
def strideFor (keySampleLimit expectedCount : UInt64) : Nat :=
  max 1 (expectedCount.toNat ⌈/⌉ max 1 keySampleLimit.toNat)

namespace RecordKeyWriter

theorem toNat_sampleLimit_create (keySampleLimit expectedCount : UInt64) :
    (create keySampleLimit expectedCount).sampleLimit.toNat = max 1 keySampleLimit.toNat := by
  rw [create, toNat_max, Nat.max_comm]
  rfl

theorem toNat_sampleStride_create (keySampleLimit expectedCount : UInt64) :
    (create keySampleLimit expectedCount).sampleStride.toNat =
      strideFor keySampleLimit expectedCount := by
  have hlimit : (max keySampleLimit 1).toNat = max 1 keySampleLimit.toNat :=
    toNat_sampleLimit_create keySampleLimit expectedCount
  unfold create strideFor
  rw [toNat_max, toNat_divCeil (by rw [hlimit]; omega), hlimit, Nat.max_comm]
  rfl

end RecordKeyWriter

/-- As many strides as the sample may hold cover the expected transactions. -/
theorem expectedCount_le (keySampleLimit expectedCount : UInt64) :
    expectedCount.toNat ≤
      max 1 keySampleLimit.toNat * strideFor keySampleLimit expectedCount := by
  have hpos : 0 < max 1 keySampleLimit.toNat := by omega
  calc expectedCount.toNat
      ≤ max 1 keySampleLimit.toNat * (expectedCount.toNat ⌈/⌉ max 1 keySampleLimit.toNat) :=
        le_smul_ceilDiv hpos
    _ ≤ max 1 keySampleLimit.toNat * strideFor keySampleLimit expectedCount :=
        Nat.mul_le_mul_left _ (Nat.le_max_right _ _)

/-! ## The sample -/

namespace RecordKeyWriter

theorem writeVersions_append (writer : RecordKeyWriter) (count : UInt64)
    (versions rest : List UInt64) :
    writer.writeVersions count (versions ++ rest) =
      (writer.writeVersions count versions).writeVersions
        (count + UInt64.ofNat versions.length) rest := by
  induction versions generalizing writer count with
  | nil => simp [writeVersions]
  | cons version versions ih =>
    rw [List.cons_append, writeVersions, writeVersions, ih, List.length_cons,
      UInt64.ofNat_add]
    congr 1
    rw [add_assoc, add_comm (1 : UInt64)]
    rfl

/-- What is noted changes neither the stride nor the limit. -/
theorem writeVersions_settings (writer : RecordKeyWriter) (count : UInt64)
    (versions : List UInt64) :
    (writer.writeVersions count versions).sampleStride = writer.sampleStride ∧
      (writer.writeVersions count versions).sampleLimit = writer.sampleLimit := by
  induction versions generalizing writer count with
  | nil => exact ⟨rfl, rfl⟩
  | cons version rest ih => exact ih (writer.writeVersion version count) (count + 1)

/-- The writer behind some transactions of a run. -/
def ofRun (keySampleLimit expectedCount : UInt64) (versions : List UInt64) : RecordKeyWriter :=
  (create keySampleLimit expectedCount).writeVersions 0 versions

section OfRun

variable {keySampleLimit expectedCount : UInt64} {versions : List UInt64}

theorem ofRun_sampleStride (versions : List UInt64) :
    (ofRun keySampleLimit expectedCount versions).sampleStride.toNat =
      strideFor keySampleLimit expectedCount := by
  unfold ofRun
  rw [(writeVersions_settings _ _ _).1, toNat_sampleStride_create]

theorem ofRun_sampleLimit (versions : List UInt64) :
    (ofRun keySampleLimit expectedCount versions).sampleLimit.toNat =
      max 1 keySampleLimit.toNat := by
  unfold ofRun
  rw [(writeVersions_settings _ _ _).2, toNat_sampleLimit_create]

/-- A transaction is handed on with the number of those before it. -/
theorem ofRun_concat (versions : List UInt64) (version : UInt64) :
    ofRun keySampleLimit expectedCount (versions ++ [version]) =
      (ofRun keySampleLimit expectedCount versions).writeVersion version
        (UInt64.ofNat versions.length) := by
  unfold ofRun
  rw [writeVersions_append, zero_add]
  rfl

/-- Before the expected end of the run, a sample leaves room for the next multiple. -/
theorem room_of_isSample {sample : List UInt64}
    (h : IsSample (strideFor keySampleLimit expectedCount) versions sample)
    (hcount : versions.length < expectedCount.toNat)
    (hdvd : strideFor keySampleLimit expectedCount ∣ versions.length) :
    sample.length < max 1 keySampleLimit.toNat := by
  obtain ⟨multiple, hmultiple⟩ := hdvd
  -- a whole number of strides has been passed, with one sample each
  have hlength : sample.length ≤ multiple :=
    (h.length_le_iff multiple).2 (by rw [hmultiple, Nat.mul_comm])
  have hbelow : strideFor keySampleLimit expectedCount * multiple <
      strideFor keySampleLimit expectedCount * max 1 keySampleLimit.toNat := by
    rw [← hmultiple, Nat.mul_comm _ (max 1 keySampleLimit.toNat)]
    exact lt_of_lt_of_le hcount (expectedCount_le keySampleLimit expectedCount)
  exact lt_of_le_of_lt hlength (Nat.lt_of_mul_lt_mul_left hbelow)

/-- The sample of a run is kept up by each transaction. -/
theorem isSample_ofRun (hcount : versions.length ≤ expectedCount.toNat) :
    IsSample (strideFor keySampleLimit expectedCount) versions
      (ofRun keySampleLimit expectedCount versions).sampledVersions := by
  have hstride : 0 < strideFor keySampleLimit expectedCount :=
    lt_of_lt_of_le Nat.one_pos (Nat.le_max_left _ _)
  induction versions using List.reverseRecOn with
  | nil => exact IsSample.nil _
  | append_singleton versions version ih =>
    rw [List.length_append, List.length_singleton] at hcount
    have hsample := ih (by omega)
    have hword : versions.length < 2 ^ 64 := lt_of_lt_of_le hcount expectedCount.toNat_lt.le
    have hmultiple : UInt64.ofNat versions.length %
          (ofRun keySampleLimit expectedCount versions).sampleStride = 0 ↔
        strideFor keySampleLimit expectedCount ∣ versions.length := by
      rw [← UInt64.toNat_inj, UInt64.toNat_mod, ofRun_sampleStride,
        UInt64.toNat_ofNat_of_lt' hword, Nat.dvd_iff_mod_eq_zero]
      rfl
    rw [ofRun_concat, writeVersion, ofRun_sampleLimit]
    simp only [hmultiple]
    split_ifs with hpush
    · exact hsample.push hstride hpush.1 version
    · -- there is room, so it is not a multiple
      refine hsample.skip (fun hdvd => hpush ⟨hdvd, ?_⟩) version
      exact room_of_isSample hsample hcount hdvd

end OfRun

end RecordKeyWriter

/-- **The limit never cuts.** In a run of at most the expected transactions, the sample consists
of the versions at the multiples of the stride. Whenever one is due there is room for it, and in
the end there are no more than the limit. The batches of the multi-get file concatenate to the
point file, and none is empty or longer than a hundred. -/
theorem sampledVersions_exact (keySampleLimit expectedCount : UInt64) (versions : List UInt64)
    (hcount : versions.length ≤ expectedCount.toNat) :
    let stride := max 1 (expectedCount.toNat ⌈/⌉ max 1 keySampleLimit.toNat)
    let writer := RecordKeyWriter.ofRun keySampleLimit expectedCount versions
    writer.sampleStride.toNat = stride ∧
      (∀ j : Nat, writer.sampledVersions[j]? = versions[j * stride]?) ∧
      (∀ idx < versions.length, stride ∣ idx →
        (RecordKeyWriter.ofRun keySampleLimit expectedCount
          (versions.take idx)).sampledVersions.length < writer.sampleLimit.toNat) ∧
      writer.sampledVersions.length ≤ max 1 keySampleLimit.toNat ∧
      (writer.multiFile.flatMap QueryCorpusRecord.txVersions).map some =
        writer.pointFile.map QueryCorpusRecord.txVersion ∧
      ∀ record ∈ writer.multiFile,
        record.txVersions ≠ [] ∧ record.txVersions.length ≤ 100 := by
  intro stride writer
  have hsample := @RecordKeyWriter.isSample_ofRun keySampleLimit expectedCount versions hcount
  obtain ⟨hflatten, hbounds⟩ := @writeMultiGetTxQueryFile_batches writer.sampledVersions 100
    (by decide)
  refine ⟨RecordKeyWriter.ofRun_sampleStride versions, hsample, ?_, ?_, ?_, hbounds⟩
  · -- the samples before `idx` are those of the run up to there
    intro idx hidx hdvd
    have hlength : (versions.take idx).length = idx := by
      rw [List.length_take, Nat.min_eq_left hidx.le]
    have hbefore := @RecordKeyWriter.isSample_ofRun keySampleLimit expectedCount
      (versions.take idx) (by omega)
    rw [RecordKeyWriter.ofRun_sampleLimit]
    refine RecordKeyWriter.room_of_isSample hbefore (by omega) ?_
    rwa [hlength]
  · -- strides of this length fit into the run as often as there may be samples
    rw [hsample.length_le_iff]
    exact hcount.trans (expectedCount_le keySampleLimit expectedCount)
  · unfold RecordKeyWriter.multiFile RecordKeyWriter.pointFile writePointTxQueryFile
    rw [hflatten, List.map_map]
    rfl

example : (RecordKeyWriter.ofRun 2 5 [10, 11, 12, 13]).sampledVersions = [10, 13] := by decide

/-- Two of four transactions are sampled, where five were expected. -/
theorem sampledVersions_exact_four :
    let stride := max 1 ((5 : UInt64).toNat ⌈/⌉ max 1 (2 : UInt64).toNat)
    let writer := RecordKeyWriter.ofRun 2 5 [10, 11, 12, 13]
    writer.sampleStride.toNat = stride ∧
      (∀ j : Nat, writer.sampledVersions[j]? = ([10, 11, 12, 13] : List UInt64)[j * stride]?) ∧
      (∀ idx < 4, stride ∣ idx →
        (RecordKeyWriter.ofRun 2 5 (([10, 11, 12, 13] : List UInt64).take
          idx)).sampledVersions.length < writer.sampleLimit.toNat) ∧
      writer.sampledVersions.length ≤ max 1 (2 : UInt64).toNat ∧
      (writer.multiFile.flatMap QueryCorpusRecord.txVersions).map some =
        writer.pointFile.map QueryCorpusRecord.txVersion ∧
      ∀ record ∈ writer.multiFile,
        record.txVersions ≠ [] ∧ record.txVersions.length ≤ 100 :=
  sampledVersions_exact 2 5 [10, 11, 12, 13] (by decide)

/-! ## The writer in the loop -/

/-- The key writer of an attempt, behind the versions that the loop has handed to it. -/
def RecordLoop.keyWriter (keySampleLimit expectedCount : UInt64) (loop : RecordLoop) :
    RecordKeyWriter :=
  .ofRun keySampleLimit expectedCount loop.keyVersions

/-- The loop counts the versions that it hands on. -/
def RecordLoop.KeysCounted (loop : RecordLoop) : Prop :=
  loop.count = UInt64.ofNat loop.keyVersions.length

section Loop

variable {env : RecordEnv} {request : LiveRecordRequest} {point : Traced OutDir FsStep}
  {loop : RecordLoop}

/-- A flush hands nothing on. -/
theorem flushFullChunk_keys (writer : ActiveChunk) (loop : RecordLoop) :
    Runs (fun _ => True) (fun _ => True) (flushFullChunk env request writer loop) point
      (fun loop' _ => loop'.count = loop.count ∧ loop'.keyVersions = loop.keyVersions) := by
  -- closing a chunk touches neither the count nor the keys
  have hfinish : Runs (fun _ => True) (fun _ => True) (finishActiveChunk env loop) point
      (fun loop' _ => loop'.count = loop.count ∧ loop'.keyVersions = loop.keyVersions) := by
    unfold finishActiveChunk
    cases loop.activeChunk with
    | none => exact .pure trivial ⟨rfl, rfl⟩
    | some chunk => exact (Runs.any _).bind fun _ _ _ _ => .pure trivial ⟨rfl, rfl⟩
  unfold flushFullChunk
  split_ifs
  · exact hfinish.bind fun _ _ _ h => (Runs.any _).bind fun _ _ _ _ => .pure trivial h
  · exact .pure trivial ⟨rfl, rfl⟩

/-- Recording a transaction hands its version to the key writer, with the count before it. -/
theorem writeTransaction_keys (hcounted : loop.KeysCounted) (tx : Transaction)
    (keySampleLimit expectedCount : UInt64) :
    Runs (fun _ => True) (fun _ => True) (writeTransaction env request loop tx) point
      (fun loop' _ => loop'.KeysCounted ∧ loop'.keyWriter keySampleLimit expectedCount =
        (loop.keyWriter keySampleLimit expectedCount).writeVersion tx.version loop.count) := by
  unfold writeTransaction
  -- opening, writing and counting leave the versions alone
  refine (Runs.any _).bind fun opened _ _ _ => ?_
  refine (Runs.any _).bind fun writer _ _ _ => ?_
  refine (Runs.any _).bind fun rawBytes _ _ _ => ?_
  refine (flushFullChunk_keys _ _).imp fun loop' _ _ hkeys => ?_
  obtain ⟨hcount, hversions⟩ := hkeys
  constructor
  · rw [RecordLoop.KeysCounted, hcount, hversions, List.length_append, UInt64.ofNat_add,
      ← hcounted]
    rfl
  · rw [RecordLoop.keyWriter, hversions, RecordKeyWriter.ofRun_concat, ← hcounted]
    rfl

theorem recordTransactions_keys (hcounted : loop.KeysCounted) (txs : List Transaction) :
    Runs (fun _ => True) (fun _ => True) (recordTransactions env request loop txs) point
      (fun loop' _ => loop'.KeysCounted) := by
  induction txs generalizing loop point with
  | nil => exact .pure trivial hcounted
  | cons tx rest ih =>
    rw [recordTransactions]
    split_ifs
    · exact .pure trivial hcounted
    · -- each transaction adds one to the count and one key
      refine (writeTransaction_keys hcounted tx 0 0).bind fun loop' next _ h => ?_
      split_ifs
      · exact .pure trivial h.1
      · exact ih h.1

/-- **The numbers of a stream.** Whatever the server sends, the versions of a stream are handed
on with their numbers, so the writer of the stream is that of a run from its beginning. -/
theorem recordResponses_keys (hcounted : loop.KeysCounted) (responses : List StreamResponse) :
    Runs (fun _ => True) (fun _ => True) (recordResponses env request loop responses) point
      (fun loop' _ => loop'.KeysCounted) := by
  induction responses generalizing loop point with
  | nil => exact .pure trivial hcounted
  | cons response rest ih =>
    rw [recordResponses]
    have hstart : ({ loop with chainId := response.chainId.or loop.chainId } :
        RecordLoop).KeysCounted := hcounted
    refine (recordTransactions_keys hstart response.transactions).bind fun loop' next _ h => ?_
    split_ifs
    · exact .pure trivial h
    · exact ih h

end Loop

end HotIndex
