import HotIndex.Lib.PrefixCode
import HotIndex.Lib.ScanOrder
import HotIndex.Storage.Refinement

/-!
# Checksum Framing

`update_checksum` feeds every key and value to the hash behind its length, so the hashed
stream is a concatenation of code words of a prefix code and determines the rows
(`checksumStream_inj`). With a hash that does not send two different streams to one digest,
equal checksums of two column families, of either engine, mean equal rows.
-/

namespace HotIndex

open Lib

/-! ## The hashed stream -/

/-- The bytes that the rows of a family are hashed as. -/
def checksumStream (rows : List (Bytes × Bytes)) : Bytes :=
  rows.foldl (fun hash row => updateChecksum hash row.1 row.2) []

/-- Both lengths of a row are written in full: a `usize` cast to `u64` loses nothing. -/
def RowFits (row : Bytes × Bytes) : Prop := row.1.length < 2 ^ 64 ∧ row.2.length < 2 ^ 64

instance (row : Bytes × Bytes) : Decidable (RowFits row) :=
  inferInstanceAs (Decidable (_ ∧ _))

/-- A row as the hash sees it. -/
def rowFrame (row : Bytes × Bytes) : Bytes := lengthPrefixed 8 row.1 ++ lengthPrefixed 8 row.2

theorem beU64_length {n : Nat} (h : n < 2 ^ 64) : Key.beU64 (UInt64.ofNat n) = beBytes 8 n := by
  unfold Key.beU64
  rw [UInt64.toNat_ofNat_of_lt' h]

theorem updateChecksum_eq (hash : Bytes) {row : Bytes × Bytes} (h : RowFits row) :
    updateChecksum hash row.1 row.2 = hash ++ rowFrame row := by
  unfold updateChecksum rowFrame lengthPrefixed
  rw [beU64_length h.1, beU64_length h.2]
  simp only [List.append_assoc]

theorem checksumStream_eq {rows : List (Bytes × Bytes)} (h : ∀ row ∈ rows, RowFits row) :
    checksumStream rows = rows.flatMap rowFrame := by
  -- generalized to a hash that was fed before
  have hfold : ∀ hash : Bytes,
      rows.foldl (fun hash row => updateChecksum hash row.1 row.2) hash =
        hash ++ rows.flatMap rowFrame := by
    induction rows with
    | nil => simp
    | cons row rows ih =>
      simp only [List.forall_mem_cons] at h
      intro hash
      rw [List.foldl_cons, updateChecksum_eq hash h.1, ih h.2, List.flatMap_cons,
        List.append_assoc]
  rw [checksumStream, hfold, List.nil_append]

/-- The frame of a row is told apart from whatever the next rows begin with. -/
theorem prefixCode_rowFrame : PrefixCode rowFrame RowFits := by
  have hfield := prefixCode_lengthPrefixed 8
  norm_num at hfield
  have hrow := hfield.prod hfield
  intro a b ha hb rest rest' heq
  exact hrow a b ⟨by simpa using ha.1, by simpa using ha.2⟩
    ⟨by simpa using hb.1, by simpa using hb.2⟩ rest rest' heq

theorem rowFrame_ne_nil (row : Bytes × Bytes) : rowFrame row ≠ [] := by
  unfold rowFrame
  simp [lengthPrefixed_ne_nil (by decide : 0 < 8)]

/-- **Framing.** The hashed stream determines the rows. -/
theorem checksumStream_inj {rows rows' : List (Bytes × Bytes)} (h : ∀ row ∈ rows, RowFits row)
    (h' : ∀ row ∈ rows', RowFits row) (heq : checksumStream rows = checksumStream rows') :
    rows = rows' := by
  rw [checksumStream_eq h, checksumStream_eq h'] at heq
  exact prefixCode_rowFrame.flatMap_inj rowFrame_ne_nil h h' heq

/-! ## Hexadecimal digests -/

theorem hexDigit_inj {m n : Nat} (hm : m < 16) (hn : n < 16) (h : hexDigit m = hexDigit n) :
    m = n := by
  have hdigits : ∀ m < 16, ∀ n < 16, hexDigit m = hexDigit n → m = n := by decide
  exact hdigits m hm n hn h

theorem hexLower_injective : Function.Injective hexLower := by
  have hcode : PrefixCode (fun b : UInt8 => [hexDigit (b.toNat / 16), hexDigit (b.toNat % 16)])
      (fun _ => True) := by
    -- a byte is determined by its two digits
    intro a b _ _ rest rest' heq
    simp only [List.cons_append, List.nil_append, List.cons.injEq] at heq
    rcases heq with ⟨hhigh, hlow, hrest⟩
    have ha := a.toNat_lt
    have hb := b.toNat_lt
    have hhigh := hexDigit_inj (by omega) (by omega) hhigh
    have hlow := hexDigit_inj (by omega) (by omega) hlow
    exact ⟨UInt8.toNat_inj.1 (by omega), hrest⟩
  intro bytes bytes' h
  exact hcode.flatMap_inj (by simp) (by simp) (by simp) (String.ofList_injective h)

/-! ## Equal checksums -/

/-- A column family of an engine, its rows and the checksum that the engine computes of it. -/
inductive HasChecksum (sha256 : Bytes → Bytes) : List (Bytes × Bytes) → CfChecksum → Prop where
  | rocksDb (db : RocksDb) (family : ColumnFamily) :
      HasChecksum sha256 (db.cf family).entries (db.checksumCf sha256 family)
  | memory (json : SerdeJson) (inner : MemoryEngine) (family : ColumnFamily)
      (rows : List (Bytes × Bytes)) (checksum : CfChecksum) :
      (inner.familyRows json family).mapM id = .ok rows →
      MemoryEngine.checksumCf sha256 family (inner.familyRows json family) = .ok checksum →
      HasChecksum sha256 rows checksum

/-- A digest is that of the rows in key order. -/
theorem HasChecksum.hashHex_eq {sha256 : Bytes → Bytes} {rows : List (Bytes × Bytes)}
    {checksum : CfChecksum} (h : HasChecksum sha256 rows checksum) :
    checksum.hashHex = hexLower (sha256 (checksumStream (sortOn Prod.fst rows))) := by
  cases h with
  | rocksDb db family =>
    -- a family is kept in key order
    have hsorted : sortOn Prod.fst (db.cf family).entries = (db.cf family).entries :=
      sortOn_eq_self ((db.cf family).sorted.imp LT.lt.le)
    rw [RocksDb.checksumCf_eq, hsorted]
    rfl
  | memory json inner family _ _ hrows hchecksum =>
    rw [MemoryEngine.checksumCf_ok sha256 family hrows] at hchecksum
    cases hchecksum
    rfl

/-- **Checksums identify rows.** Streams that are hashed alike are framed from equal rows; so
where the hash does not collide on the two streams, families with equal digests hold the same
rows, whichever engines they belong to. -/
theorem checksum_framing_injective :
    (∀ rows rows' : List (Bytes × Bytes), (∀ row ∈ rows, RowFits row) →
      (∀ row ∈ rows', RowFits row) → checksumStream rows = checksumStream rows' →
      rows = rows') ∧
    ∀ (sha256 : Bytes → Bytes) (rows rows' : List (Bytes × Bytes))
      (checksum checksum' : CfChecksum),
      HasChecksum sha256 rows checksum → HasChecksum sha256 rows' checksum' →
      (∀ row ∈ rows, RowFits row) → (∀ row ∈ rows', RowFits row) →
      Set.InjOn sha256 {checksumStream (sortOn Prod.fst rows),
        checksumStream (sortOn Prod.fst rows')} →
      checksum.hashHex = checksum'.hashHex → rows.Perm rows' := by
  constructor
  · intro rows rows' h h' heq
    exact checksumStream_inj h h' heq
  · intro sha256 rows rows' checksum checksum' hc hc' h h' hinj heq
    rw [hc.hashHex_eq, hc'.hashHex_eq] at heq
    -- equal digests come from one stream, and the stream gives back its rows
    have hstream := hinj (by simp) (by simp) (hexLower_injective heq)
    have hrows : sortOn Prod.fst rows = sortOn Prod.fst rows' :=
      checksumStream_inj (fun row hrow => h row (mem_sortOn.1 hrow))
        (fun row hrow => h' row (mem_sortOn.1 hrow)) hstream
    calc rows.Perm (sortOn Prod.fst rows) := (sortOn_perm Prod.fst rows).symm
      _ = sortOn Prod.fst rows' := hrows
      _ |>.Perm rows' := sortOn_perm Prod.fst rows'

/-- One row, written once and written over. -/
def sampleFamilies : RocksDb × RocksDb :=
  (RocksDb.empty.store (.orderById, [1], [2]),
    (RocksDb.empty.store (.orderById, [1], [3])).store (.orderById, [1], [2]))

theorem checksum_framing_injective_sample :
    checksumStream [([], [0])] ≠ checksumStream [([0], [])] ∧
      (sampleFamilies.1.cf .orderById).entries.Perm (sampleFamilies.2.cf .orderById).entries := by
  constructor
  · intro h
    have hrows := checksum_framing_injective.1 _ _ (by decide) (by decide) h
    simp at hrows
  · exact checksum_framing_injective.2 Sha256.digest _ _ _ _
      (.rocksDb sampleFamilies.1 .orderById) (.rocksDb sampleFamilies.2 .orderById)
      (by decide) (by decide) (by rw [show (sampleFamilies.2.cf .orderById).entries =
        (sampleFamilies.1.cf .orderById).entries by decide]; simp) rfl

end HotIndex
