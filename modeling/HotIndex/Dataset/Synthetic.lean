import HotIndex.Bench.WarmUp
import HotIndex.Dataset.CorpusRebuild
import HotIndex.Lib.DecimalText
import HotIndex.Storage.Refinement

/-!
# Synthetic Datasets

`decibel-dataset synthetic`: rows that are made up from their index, written as a dataset with
its query corpus and a manifest. A run always succeeds; what it leaves passes the checks of a
replay, and a replay leaves both engines with the same checksums (`synthetic_replays`).

The times and versions of the rows are sums of `u64`, in range up to `syntheticLimit` rows.
-/

namespace HotIndex

open Lib RustText

/-! ## Rows -/

structure SyntheticDataset where
  txs : List TxRow
  events : List NormalizedEvent
  fills : List FillRow
  orders : List OrderRow
  positions : List PositionRow
  builderRows : List BuilderAttributionRow

/-- The local variables of the loop of `SyntheticDataset::generate`. -/
structure SyntheticIndex where
  idx : Nat

namespace SyntheticIndex

variable (row : SyntheticIndex)

def version : UInt64 := 4365621793 + UInt64.ofNat row.idx

def timestampUs : UInt64 := 1770000000000000 + UInt64.ofNat row.idx * 1000000

def marketId : String :=
  match row.idx % 3 with
  | 0 => "BTC-PERP"
  | 1 => "ETH-PERP"
  | _ => "APT-PERP"

def account : String := "0x" ++ hexPadded 64 (1 + row.idx % 32)

def builderAddr : String := "0x" ++ hexPadded 64 (10000 + row.idx % 4)

def fillId : String := "fill-" ++ padLeftZeros 8 (toString row.idx)

def orderId : String := "order-" ++ padLeftZeros 8 (toString row.idx)

def notional : String := toString (100 + row.idx % 50)

def txHash : String := "0x" ++ hexPadded 64 row.version.toNat

def side : String := if row.idx % 2 = 0 then "buy" else "sell"

def price : String := toString (1000 + row.idx % 100)

def tx : TxRow where
  network := .mainnet
  version := row.version
  txHash := row.txHash
  blockTimestampUs := row.timestampUs
  eventCount := 1
  datasetId := some ⟨"synthetic_smoke"⟩
  rawSummary := some "synthetic Decibel-like transaction"

def event : NormalizedEvent where
  network := .mainnet
  version := row.version
  eventIdx := 0
  txHash := row.txHash
  blockTimestampUs := row.timestampUs
  eventType := .orderFilled
  marketId := some row.marketId
  account := some row.account
  subaccount := none
  orderId := some row.orderId
  builderAddr := some row.builderAddr
  payload := .rawJson ("\x7b\"synthetic\":true,\"market_id\":\"" ++ row.marketId ++
    "\",\"fill_id\":\"" ++ row.fillId ++ "\"\x7d")

def fill : FillRow where
  version := row.version
  eventIdx := 0
  fillId := row.fillId
  marketId := row.marketId
  account := row.account
  subaccount := none
  orderId := some row.orderId
  side := some row.side
  price := row.price
  size := "1"
  notional := some row.notional
  builderAddr := some row.builderAddr
  builderFeeBps := some 5
  timestampUs := row.timestampUs
  rawEventType := "TradeEvent"

def order : OrderRow where
  orderId := row.orderId
  account := row.account
  marketId := row.marketId
  side := some row.side
  price := some row.price
  size := some "1"
  status := some "filled"
  version := row.version
  eventIdx := 0
  timestampUs := row.timestampUs
  rawEventType := "OrderEvent"

def position : PositionRow where
  account := row.account
  marketId := row.marketId
  subaccount := none
  size := if row.idx % 2 = 0 then "1" else "-1"
  entryPrice := some row.price
  sourceVersion := row.version
  sourceEventIdx := 0
  timestampUs := row.timestampUs

def builderRow : BuilderAttributionRow where
  builderAddr := row.builderAddr
  marketId := row.marketId
  account := row.account
  version := row.version
  eventIdx := 0
  fillId := row.fillId
  notional := some row.notional
  builderFeeBps := some 5
  estimatedFeeAmount := some "0.01"
  timestampUs := row.timestampUs

end SyntheticIndex

/-- The artifacts of a dataset with its query corpus. -/
def syntheticArtifacts : List String := normalizedArtifacts ++ queryCorpusArtifacts

namespace SyntheticDataset

/-- `SyntheticDataset::generate` -/
def generate (count : Nat) : SyntheticDataset where
  txs := (List.range count).map fun idx => (SyntheticIndex.mk idx).tx
  events := (List.range count).map fun idx => (SyntheticIndex.mk idx).event
  fills := (List.range count).map fun idx => (SyntheticIndex.mk idx).fill
  orders := (List.range count).map fun idx => (SyntheticIndex.mk idx).order
  positions := (List.range count).map fun idx => (SyntheticIndex.mk idx).position
  builderRows := (List.range count).map fun idx => (SyntheticIndex.mk idx).builderRow

variable (dataset : SyntheticDataset)

/-! ## Writing -/

/-- The rows as a parser would have returned them. -/
def rows : ParserOutput where
  txs := dataset.txs
  events := dataset.events
  fills := dataset.fills
  orders := dataset.orders
  positions := dataset.positions
  builderRows := dataset.builderRows
  rawTransactionCount := UInt64.ofNat dataset.txs.length

def queryRows : QueryCorpusRows where
  txs := dataset.txs
  events := dataset.events
  fills := dataset.fills
  builderRows := dataset.builderRows

/-- The manifest that `write_synthetic_dataset` writes. -/
def manifest (hashes : SortedMap Text String) : DatasetManifest where
  datasetId := ⟨"synthetic_smoke"⟩
  schemaVersion := logicalSchemaVersion
  network := .localnet
  startVersion := (dataset.events.head?.map NormalizedEvent.version).getD 0
  endVersion := dataset.events.getLast?.map NormalizedEvent.version
  packageAddress := zeroAddress
  orderbookAddress := zeroAddress
  rawTransactionCount := UInt64.ofNat dataset.txs.length
  decibelEventCount := UInt64.ofNat dataset.events.length
  fillCount := UInt64.ofNat dataset.fills.length
  orderCount := UInt64.ofNat dataset.orders.length
  positionCount := UInt64.ofNat dataset.positions.length
  builderCodeRowCount := UInt64.ofNat dataset.builderRows.length
  hashes := hashes

/-- The dataset of these rows under its manifest. -/
def normalized (hashes : SortedMap Text String) : NormalizedDataset where
  manifest := dataset.manifest hashes
  rows := dataset.rows
  decibelEventCount_eq := rfl
  fillCount_eq := rfl

/-- The files of `write_synthetic_dataset`, in the order they are written. -/
def files (env : DatasetEnv) : List (String × Bytes) :=
  rowFiles env dataset.rows ++ [warningsFile ""] ++
    queryFiles env (buildQueryCorpus dataset.queryRows)

/-- `write_synthetic_dataset` -/
def write (env : DatasetEnv) : DatasetM Unit := do
  writeFiles (dataset.files env)
  let dir ← StoreM.read
  let hashes ← StoreM.ofExcept (insertArtifactHashes env dir .empty syntheticArtifacts)
  StoreM.perform (.manifest (dataset.manifest hashes))

end SyntheticDataset

/-- `synthetic_command` -/
def syntheticCommand (env : DatasetEnv) (count : Nat) : DatasetM Unit :=
  (SyntheticDataset.generate count).write env

/-! ## What a run leaves -/

theorem syntheticArtifacts_nodup : syntheticArtifacts.Nodup := by decide

theorem syntheticArtifacts_keys : ∀ relative ∈ syntheticArtifacts,
    validateManifestArtifactKey relative = .ok () ∧ relative ≠ "manifest.json" := by
  decide +kernel

namespace SyntheticDataset

variable {dataset : SyntheticDataset} {env : DatasetEnv} {start : DatasetDir}

theorem names_files (dataset : SyntheticDataset) (env : DatasetEnv) :
    (dataset.files env).map Prod.fst = syntheticArtifacts := by
  unfold files
  rw [List.map_append, names_queryFiles]
  rfl

/-- A dataset behind its run: its files, and the manifest with their digests. -/
structure Written (dataset : SyntheticDataset) (env : DatasetEnv) (dir : DatasetDir)
    (hashes : SortedMap Text String) : Prop where
  manifest : dir.manifest = some (dataset.manifest hashes)
  files : ∀ file ∈ dataset.files env, dir.files.get? ⟨file.1⟩ = some file.2
  digests : ∀ relative ∈ syntheticArtifacts, ∃ content,
    dir.files.get? ⟨relative⟩ = some content ∧
      hashes.get? ⟨relative⟩ = some (sha256Hex content)
  accepted : acceptManifest env dir = .ok (dataset.manifest hashes)

/-- **A run succeeds.** Whatever the root held before, its files are there in the end. -/
theorem write_ok (dataset : SyntheticDataset) (env : DatasetEnv) (start : DatasetDir) :
    (dataset.write env start).result = .ok () ∧
      ∃ hashes, dataset.Written env (Store.applyAll start (dataset.write env start).steps)
        hashes := by
  have hnodup : ((dataset.files env).map Prod.fst).Nodup := by
    rw [dataset.names_files env]
    exact syntheticArtifacts_nodup
  have hall : ∀ relative ∈ syntheticArtifacts,
      ∃ content, (relative, content) ∈ dataset.files env := by
    intro relative hrelative
    rw [← dataset.names_files env] at hrelative
    obtain ⟨file, hfile, rfl⟩ := List.mem_map.1 hrelative
    exact ⟨file.2, hfile⟩
  set before := Store.applyAll start (fileWrites (dataset.files env)) with hbefore
  have hfiles : ∀ file ∈ dataset.files env, before.files.get? ⟨file.1⟩ = some file.2 :=
    fun file hfile => get?_fileWrites_of_nodup hnodup hfile
  have hread : ∀ relative ∈ syntheticArtifacts,
      before.read? env (.dataset relative) = before.files.get? ⟨relative⟩ :=
    fun relative hrelative => if_neg (syntheticArtifacts_keys relative hrelative).2
  -- the artifacts are among the files, so their digests can be taken
  obtain ⟨hashes, hhashes⟩ := @insertArtifactHashes_isOk env before .empty syntheticArtifacts
    (fun relative hrelative => by
      obtain ⟨content, hfile⟩ := hall relative hrelative
      rw [hread relative hrelative, hfiles _ hfile]
      rfl)
  have hrun : dataset.write env start =
      ⟨.ok (), fileWrites (dataset.files env) ++ [.manifest (dataset.manifest hashes)]⟩ :=
    publish_apply.trans (by rw [hhashes])
  have haccept : acceptManifest env (before.apply (.manifest (dataset.manifest hashes))) =
      .ok (dataset.manifest hashes) := by
    have hpublishes : Publishes env before (artifactFiles syntheticArtifacts)
        (dataset.manifest hashes) (before.apply (.manifest (dataset.manifest hashes))) :=
      ⟨rfl, rfl, (insertArtifactHashes_eq ..).symm.trans hhashes⟩
    refine hpublishes.passes (fun file hfile => ?_)
    obtain ⟨relative, hrelative, rfl⟩ := List.mem_map.1 hfile
    obtain ⟨hkey, hne⟩ := syntheticArtifacts_keys relative hrelative
    exact ⟨hkey, rfl, hne⟩
  have hends : Store.applyAll start (dataset.write env start).steps =
      before.apply (.manifest (dataset.manifest hashes)) := by
    rw [hrun, Store.applyAll_append, ← hbefore]
    rfl
  refine ⟨by rw [hrun], hashes, ?_⟩
  rw [hends]
  -- the files are not to be computed
  clear_value before
  refine ⟨rfl, hfiles, fun relative hrelative => ?_, haccept⟩
  obtain ⟨content, hcontent, hdigest⟩ := (insertArtifactHashes_ok hhashes).1 relative hrelative
  rw [hread relative hrelative] at hcontent
  exact ⟨content, hcontent, hdigest⟩

variable {dir : DatasetDir} {hashes : SortedMap Text String}

theorem Written.leaves (h : dataset.Written env dir hashes) :
    Leaves env (dataset.normalized hashes) dir where
  manifest := h.manifest
  rows := fun file hfile =>
    h.files file (List.mem_append_left _ (List.mem_append_left _ hfile))

theorem Written.hasCorpus (h : dataset.Written env dir hashes) :
    HasCorpus env dir dataset.queryRows where
  files := fun file hfile => h.files file (List.mem_append_right _ hfile)
  digests := by
    refine ⟨_, h.manifest, fun relative hrelative content hcontent => ?_⟩
    obtain ⟨content', hcontent', hdigest⟩ := h.digests relative (List.mem_append_right _ hrelative)
    obtain rfl := Option.some.inj (hcontent.symm.trans hcontent')
    exact hdigest

end SyntheticDataset

/-! ## Rows that differ -/

/-- Up to this index, times and versions are in the range of `u64`. -/
def syntheticLimit : Nat := 2 ^ 44

theorem toList_padLeftZeros (width n : Nat) : (padLeftZeros width (toString n)).toList =
    List.replicate (width - (Nat.toDigits 10 n).length) '0' ++ Nat.toDigits 10 n := by
  have hdigits : (toString n).toList = Nat.toDigits 10 n := Nat.toList_repr
  rw [padLeftZeros, String.toList_ofList, hdigits]

/-- Padding keeps numbers apart. -/
theorem padLeftZeros_inj {width m n : Nat}
    (h : padLeftZeros width (toString m) = padLeftZeros width (toString n)) : m = n := by
  have hvalue : ∀ n, digitsValue (padLeftZeros width (toString n)).toList = n := by
    intro n
    rw [toList_padLeftZeros, digitsValue_append]
    simp [digitsValue]
  rw [← hvalue m, h, hvalue n]

theorem textOk_of_printable {text : String} (h : Printable text) : Key.TextOk text := by
  unfold Key.TextOk
  rw [asBytes_eq_flatMap, List.mem_flatMap]
  rintro ⟨c, hc, hbyte⟩
  -- a byte below 128 is the whole character
  have hzero := toNat_of_mem_utf8EncodeChar hbyte (by decide)
  have hprintable := h c hc
  rw [hzero] at hprintable
  exact absurd hprintable (by decide)

/-- No hexadecimal digit is a control character. -/
theorem printable_toDigits (n : Nat) : ∀ c ∈ Nat.toDigits 16 n, 32 ≤ c.toNat := by
  have hdigit : ∀ d < 16, 32 ≤ (Nat.digitChar d).toNat := by decide
  induction n using Nat.strong_induction_on with
  | _ n ih =>
    rw [Nat.toDigits_eq_if (by decide)]
    -- the last digit, behind the digits of the quotient
    split_ifs with hlt
    · simpa using hdigit n hlt
    · intro c hc
      rcases List.mem_append.1 hc with hc | hc
      · exact ih (n / 16) (by omega) c hc
      · rw [List.mem_singleton.1 hc]
        exact hdigit _ (Nat.mod_lt _ (by decide))

theorem textOk_hexPadded (width n : Nat) : Key.TextOk ("0x" ++ hexPadded width n) := by
  refine Key.textOk_append_iff.2 ⟨by decide, textOk_of_printable fun c hc => ?_⟩
  rw [hexPadded, String.toList_ofList] at hc
  rcases List.mem_append.1 hc with hzero | hdigit
  · rw [(List.mem_replicate.1 hzero).2]
    decide
  · exact printable_toDigits n c hdigit

theorem textOk_padLeftZeros (width n : Nat) : Key.TextOk (padLeftZeros width (toString n)) := by
  apply textOk_of_printable
  intro c hc
  rw [toList_padLeftZeros] at hc
  rcases List.mem_append.1 hc with hzero | hdigit
  · rw [(List.mem_replicate.1 hzero).2]
    decide
  · have hrange := toNat_of_isDigit (Nat.isDigit_of_mem_toDigits (by decide) (by decide) hdigit)
    omega

namespace SyntheticIndex

variable {i j : Nat}

theorem fillId_inj (h : (mk i).fillId = (mk j).fillId) : i = j :=
  padLeftZeros_inj (String.append_right_inj _ |>.1 h)

theorem toNat_version (h : i < syntheticLimit) : (mk i).version.toNat = 4365621793 + i := by
  unfold syntheticLimit at h
  have hsize : UInt64.size = 2 ^ 64 := rfl
  have hidx : (UInt64.ofNat i).toNat = i := UInt64.toNat_ofNat_of_lt' (by omega)
  unfold version
  rw [UInt64.toNat_add, hidx]
  show (4365621793 + i) % 2 ^ 64 = _
  omega

theorem version_inj (hi : i < syntheticLimit) (hj : j < syntheticLimit)
    (h : (mk i).version = (mk j).version) : i = j := by
  have hnat := congrArg UInt64.toNat h
  rw [toNat_version hi, toNat_version hj] at hnat
  omega

/-- The texts of a row may stand in keys. -/
theorem textOk (row : SyntheticIndex) : Key.TextOk row.marketId ∧ Key.TextOk row.account ∧
    Key.TextOk row.builderAddr ∧ Key.TextOk row.fillId ∧ Key.TextOk row.orderId := by
  have hmarkets : ∀ text ∈ ["BTC-PERP", "ETH-PERP", "APT-PERP"], Key.TextOk text := by
    decide +kernel
  refine ⟨hmarkets _ ?_, textOk_hexPadded _ _, textOk_hexPadded _ _, ?_, ?_⟩
  · unfold marketId
    split <;> simp
  · exact Key.textOk_append_iff.2 ⟨by decide, textOk_padLeftZeros _ _⟩
  · exact Key.textOk_append_iff.2 ⟨by decide, textOk_padLeftZeros _ _⟩

end SyntheticIndex

/-! ## Replaying it -/

section Replaying

variable {env : DatasetEnv} {start dir : DatasetDir} {count : Nat}
  {hashes : SortedMap Text String}

/-- The operations of a replay of what a run wrote. -/
def syntheticOps (count : Nat) (hashes : SortedMap Text String) : List PutOp :=
  ((SyntheticDataset.generate count).normalized hashes).replayOps

/-- A family of rows after the other, and the checkpoint behind them. -/
theorem syntheticOps_eq (count : Nat) (hashes : SortedMap Text String) :
    syntheticOps count hashes =
      (List.range count).map (fun idx => .putTx (SyntheticIndex.mk idx).tx) ++
        (List.range count).map (fun idx => .putEvent (SyntheticIndex.mk idx).event) ++
        (List.range count).map (fun idx => .putFill (SyntheticIndex.mk idx).fill) ++
        (List.range count).map (fun idx => .putOrder (SyntheticIndex.mk idx).order) ++
        (List.range count).map (fun idx => .putPosition (SyntheticIndex.mk idx).position) ++
        (List.range count).map
          (fun idx => .putBuilderAttribution (SyntheticIndex.mk idx).builderRow) ++
        [.putIngestCheckpoint
          ((SyntheticDataset.generate count).normalized hashes).checkpoint] := by
  unfold syntheticOps NormalizedDataset.replayOps
  -- there are no activity rows
  rw [show ((SyntheticDataset.generate count).normalized hashes).rows.activityRows = [] from rfl,
    List.map_nil, List.append_nil]
  simp only [SyntheticDataset.normalized, SyntheticDataset.rows, SyntheticDataset.generate,
    List.map_map, Function.comp_def]

theorem fills_syntheticOps : (syntheticOps count hashes).filterMap PutOp.fill? =
    (List.range count).map (fun idx => (SyntheticIndex.mk idx).fill) := by
  rw [syntheticOps_eq]
  simp [List.filterMap_append, List.filterMap_map, Function.comp_def, PutOp.fill?]

theorem builders_syntheticOps : (syntheticOps count hashes).filterMap PutOp.builderAttribution? =
    (List.range count).map (fun idx => (SyntheticIndex.mk idx).builderRow) := by
  rw [syntheticOps_eq]
  simp [List.filterMap_append, List.filterMap_map, Function.comp_def, PutOp.builderAttribution?]

-- the only activities of the dataset are those that its fills bring along
theorem activities_syntheticOps : (syntheticOps count hashes).filterMap PutOp.activity? =
    (List.range count).map (fun idx => (SyntheticIndex.mk idx).fill.activity) := by
  rw [syntheticOps_eq]
  simp [List.filterMap_append, List.filterMap_map, Function.comp_def, PutOp.activity?]

/-- Rows are distinct if a field tells them apart. -/
theorem nodup_syntheticRows {κ : Type} {row : Nat → κ}
    (hrow : ∀ i < count, ∀ j < count, row i = row j → i = j) :
    ((List.range count).map row).Nodup := by
  refine List.nodup_range.map_on fun i hi j hj => ?_
  exact hrow i (List.mem_range.1 hi) j (List.mem_range.1 hj)

/-- No two rows that the engines must tell apart are alike. -/
theorem rowsDistinct_syntheticOps (hcount : count ≤ syntheticLimit) :
    RowsDistinct (syntheticOps count hashes) := by
  refine ⟨?_, ?_, ?_⟩
  · rw [fills_syntheticOps, List.map_map]
    exact nodup_syntheticRows fun i _ j _ h => SyntheticIndex.fillId_inj h
  · rw [builders_syntheticOps, List.map_map]
    exact nodup_syntheticRows fun i _ j _ h => SyntheticIndex.fillId_inj (congrArg Prod.snd h)
  · rw [activities_syntheticOps, List.map_map]
    refine nodup_syntheticRows fun i hi j hj h => ?_
    -- the versions differ
    exact SyntheticIndex.version_inj (hi.trans_le hcount) (hj.trans_le hcount)
      (congrArg (fun key => key.2.2.2.1) h)

theorem textOk_syntheticOps : ∀ op ∈ syntheticOps count hashes, op.TextOk := by
  -- the six rows of one index
  have hrows : ∀ (idx : Nat), ∀ op ∈ [PutOp.putTx (SyntheticIndex.mk idx).tx,
      .putEvent (SyntheticIndex.mk idx).event, .putFill (SyntheticIndex.mk idx).fill,
      .putOrder (SyntheticIndex.mk idx).order, .putPosition (SyntheticIndex.mk idx).position,
      .putBuilderAttribution (SyntheticIndex.mk idx).builderRow], op.TextOk := by
    intro idx
    obtain ⟨hmarket, haccount, hbuilder, hfill, horder⟩ := (SyntheticIndex.mk idx).textOk
    simp [PutOp.TextOk, PutOp.keyTexts, SyntheticIndex.fill, SyntheticIndex.order,
      SyntheticIndex.position, SyntheticIndex.builderRow, hmarket, haccount, hbuilder, hfill,
      horder]
  have hcheckpoint : Key.TextOk zeroAddress := by decide +kernel
  intro op hop
  rw [syntheticOps_eq] at hop
  simp only [List.mem_append, List.mem_map, List.mem_singleton] at hop
  rcases hop with (((((⟨idx, -, rfl⟩ | ⟨idx, -, rfl⟩) | ⟨idx, -, rfl⟩) | ⟨idx, -, rfl⟩) |
    ⟨idx, -, rfl⟩) | ⟨idx, -, rfl⟩) | rfl
  case inr => exact List.forall_mem_singleton.2 hcheckpoint
  all_goals exact hrows idx _ (by simp)

/-- Both tools replay what a run left. -/
theorem replay_synthetic
    (hwritten : (SyntheticDataset.generate count).Written env dir hashes)
    (hjson : ∀ op ∈ (SyntheticDataset.generate count).rows.ingestRows.ops, env.serde.Lossless op)
    {σ : Type} (put : PutOp → EngineM σ Unit) :
    DatasetTool.replayIntoEngine env dir put = (syntheticOps count hashes).forM put ∧
      BenchTool.replayIntoEngine env dir put = (syntheticOps count hashes).forM put :=
  hwritten.leaves.replay hjson hwritten.accepted put

/-- **The smoke dataset.** A run succeeds on every root. Up to `syntheticLimit` rows, and if
`serde_json` reads back what it wrote, what it leaves passes the checks of a replay, either tool
replays the same, and a replay leaves both engines with the same checksums. -/
theorem synthetic_replays (env : DatasetEnv) (start dir : DatasetDir) (count : Nat)
    (hcount : count ≤ syntheticLimit)
    (hjson : ∀ op ∈ (SyntheticDataset.generate count).rows.ingestRows.ops, env.serde.Lossless op)
    (hdir : dir = Store.applyAll start (syntheticCommand env count start).steps) :
    (syntheticCommand env count start).result = .ok () ∧
      (∃ manifest, acceptManifest env dir = .ok manifest) ∧
      (∀ {σ : Type} (put : PutOp → EngineM σ Unit), BenchTool.replayIntoEngine env dir put =
        DatasetTool.replayIntoEngine env dir put) ∧
      ∃ db memory checksums,
        RocksDb.exec (DatasetTool.replayIntoEngine env dir (RocksDb.put env.serde)) .empty =
            (.ok (), db) ∧
          (DatasetTool.replayIntoEngine env dir MemoryEngine.putM).run.run .empty =
            (.ok (), memory) ∧
          db.checksums Sha256.digest = checksums ∧
          memory.checksums env.serde Sha256.digest = .ok checksums := by
  obtain ⟨hrun, hashes, hwritten⟩ := (SyntheticDataset.generate count).write_ok env start
  replace hwritten : (SyntheticDataset.generate count).Written env dir hashes := by
    rw [hdir]
    exact hwritten
  have htexts := @textOk_syntheticOps count hashes
  have hdistinct := @rowsDistinct_syntheticOps count hashes hcount
  refine ⟨hrun, ⟨_, hwritten.accepted⟩, fun put => ?_,
    RocksDb.afterRun env.serde (syntheticOps count hashes),
    MemoryEngine.empty.run (syntheticOps count hashes), _, ?_, ?_, rfl, ?_⟩
  · -- both tools put the generated rows, in the same order
    rw [(replay_synthetic hwritten hjson put).1, (replay_synthetic hwritten hjson put).2]
  · rw [(replay_synthetic hwritten hjson _).1]
    exact RocksDb.exec_run_empty env.serde htexts
  · rw [(replay_synthetic hwritten hjson _).1]
    exact MemoryEngine.forM_putM _ .empty
  · exact checksums_afterRun env.serde Sha256.digest htexts hdistinct

end Replaying

/-- Three rows of each kind, one in each market. -/
def smokeRows : ParserOutput := (SyntheticDataset.generate 3).rows

/-- The rows are all that is written and read. -/
def smokeEnv : DatasetEnv where
  serde := .ofOps smokeRows.ingestRows.ops
  query := ⟨fun _ => [], fun _ => .error "unexpected JSON"⟩
  json := .ofTexts []
  manifestText := fun _ => []
  readChunk := fun _ => ([], none)

theorem lossless_smokeRows : ∀ op ∈ smokeRows.ingestRows.ops, smokeEnv.serde.Lossless op := by
  have hdistinct : DistinctJson smokeRows.ingestRows.ops := by decide +kernel
  exact SerdeJson.ofOps_lossless hdistinct

/-- The run replaces a dataset of two fixture lines. -/
def smokeRoot : DatasetDir := Store.applyAll firstRoot (syntheticCommand smokeEnv 3 firstRoot).steps

theorem synthetic_replays_smokeRoot :
    ∃ db memory checksums,
      RocksDb.exec (DatasetTool.replayIntoEngine smokeEnv smokeRoot (RocksDb.put smokeEnv.serde))
          .empty = (.ok (), db) ∧
        (DatasetTool.replayIntoEngine smokeEnv smokeRoot MemoryEngine.putM).run.run .empty =
          (.ok (), memory) ∧
        db.checksums Sha256.digest = checksums ∧
        memory.checksums smokeEnv.serde Sha256.digest = .ok checksums :=
  (synthetic_replays smokeEnv firstRoot smokeRoot 3 (by decide) lossless_smokeRows rfl).2.2.2

end HotIndex
