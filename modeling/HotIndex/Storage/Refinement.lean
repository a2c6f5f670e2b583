import HotIndex.Storage.KeyOrder
import HotIndex.Storage.MemoryEngine
import HotIndex.Storage.RocksDbEngine
import HotIndex.Storage.RowJson
import HotIndex.Lib.Sha256

/-!
# The Engines Agree

Both engines answer from the last writes of their history; they differ in what they
file a row under. A typed map of the memory engine and a column family of the RocksDB
engine hold corresponding rows as soon as the byte key of the family tells writes
apart exactly as the key of the map does. From that one fact follow

- equal checksums, for histories in which no fill, attribution or activity is put
  twice (`checksums_agree`);
- equal answers to the point lookups, for every history (`lookups_agree`).
-/

namespace HotIndex

open Lib

/-! ## Column families and typed maps -/

/-- The rows of a history that a typed map stores, as one of its column families files them. -/
theorem flatMap_eq_map_filterMap {α β γ : Type} {w : α → List γ} {entry : α → Option β}
    {g : β → γ} (h : ∀ a, w a = ((entry a).map g).toList) (l : List α) :
    l.flatMap w = (l.filterMap entry).map g := by
  induction l with
  | nil => rfl
  | cons a l ih =>
    rw [List.flatMap_cons, ih, h, List.filterMap_cons]
    cases entry a <;> rfl

namespace RocksDb

/-- Injectivity of a key builder, for keys that are built. -/
theorem built_eq_iff {e₁ e₂ : Except Fault Bytes} {P : Prop} (h₁ : ∃ k, e₁ = .ok k)
    (h₂ : ∃ k, e₂ = .ok k)
    (hinj : ∀ {k₁ k₂ : Bytes}, e₁ = .ok k₁ → e₂ = .ok k₂ → (k₁ = k₂ ↔ P)) :
    built e₁ = built e₂ ↔ P := by
  obtain ⟨k₁, h₁⟩ := h₁
  obtain ⟨k₂, h₂⟩ := h₂
  rw [built_of_ok h₁, built_of_ok h₂]
  exact hinj h₁ h₂

variable (json : SerdeJson) (ops : List PutOp)

/-- A row of a typed map under its byte key. -/
def filed {κ ν : Type} (codec : Codec ν) (key : κ × ν → Except Fault Bytes) (p : κ × ν) :
    Bytes × Bytes :=
  (built (key p), codec.toVec p.2)

theorem familyWrites_txByVersion :
    familyWrites json .txByVersion ops = (ops.filterMap MemoryEngine.txEntry).map
      (filed json.tx (fun p => .ok (Key.txByVersion p.1))) :=
  flatMap_eq_map_filterMap (fun op => by cases op <;> rfl) ops

theorem familyWrites_rawEventByVersionIdx :
    familyWrites json .rawEventByVersionIdx ops = (ops.filterMap MemoryEngine.eventEntry).map
      (filed json.event (fun p => .ok (Key.rawEventByVersionIdx (ofLex p.1).1 (ofLex p.1).2))) :=
  flatMap_eq_map_filterMap (fun op => by cases op <;> rfl) ops

theorem familyWrites_fillsByMarketTime :
    familyWrites json .fillsByMarketTime ops = (ops.filterMap MemoryEngine.fillEntry).map
      (filed json.fill (fun p => Key.fillsByMarketTime p.2.marketId p.2.timestampUs p.2.version
        p.2.fillId)) :=
  flatMap_eq_map_filterMap (fun op => by cases op <;> rfl) ops

theorem familyWrites_fillsByAccountTime :
    familyWrites json .fillsByAccountTime ops = (ops.filterMap MemoryEngine.fillEntry).map
      (filed json.fill (fun p => Key.fillsByAccountTime p.2.account p.2.timestampUs p.2.marketId
        p.2.fillId)) :=
  flatMap_eq_map_filterMap (fun op => by cases op <;> rfl) ops

theorem familyWrites_orderById :
    familyWrites json .orderById ops = (ops.filterMap MemoryEngine.orderEntry).map
      (filed json.order (fun p => Key.orderById p.1.str)) :=
  flatMap_eq_map_filterMap (fun op => by cases op <;> rfl) ops

theorem familyWrites_positionsByAccountMarket :
    familyWrites json .positionsByAccountMarket ops =
      (ops.filterMap MemoryEngine.positionEntry).map
        (filed json.position (fun p =>
          Key.positionsByAccountMarket p.1.account p.1.marketId p.1.subaccount)) :=
  flatMap_eq_map_filterMap (fun op => by cases op <;> rfl) ops

theorem familyWrites_builderCodeFills :
    familyWrites json .builderCodeFills ops = (ops.filterMap MemoryEngine.builderEntry).map
      (filed json.builder (fun p => Key.builderCodeFills p.2.builderAddr p.2.timestampUs
        p.2.marketId p.2.fillId)) :=
  flatMap_eq_map_filterMap (fun op => by cases op <;> rfl) ops

theorem familyWrites_ingestCheckpoint :
    familyWrites json .ingestCheckpoint ops = (ops.filterMap MemoryEngine.checkpointEntry).map
      (filed json.checkpoint (fun p => Key.ingestCheckpoint p.2.network p.2.packageAddress)) :=
  flatMap_eq_map_filterMap (fun op => by cases op <;> rfl) ops

theorem familyWrites_marketRecentActivity :
    familyWrites json .marketRecentActivity ops = (ops.filterMap PutOp.activity?).map
      (fun row => (built (Key.marketActivity row.marketId row.timestampUs row.activityType
        row.version row.eventIdx), json.activity.toVec row)) :=
  flatMap_eq_map_filterMap (fun op => by cases op <;> rfl) ops

end RocksDb

/-! ## One family's checksum -/

/-- The checksum of a family that holds the given rows in key order. -/
def cfDigest (sha256 : Bytes → Bytes) (family : ColumnFamily) (entries : List (Bytes × Bytes)) :
    CfChecksum where
  cfName := family.cfName
  rowCount := UInt64.ofNat entries.length
  hashHex := hexLower (sha256 (entries.foldl (fun hash p => updateChecksum hash p.1 p.2) []))

theorem RocksDb.checksumCf_eq (sha256 : Bytes → Bytes) (db : RocksDb) (family : ColumnFamily) :
    db.checksumCf sha256 family = cfDigest sha256 family (db.cf family).entries := by
  -- the counter starts anywhere and wraps like the cast of the final length
  have hfold : ∀ (l : List (Bytes × Bytes)) (hash : Bytes) (rowCount : UInt64),
      l.foldl (fun (acc : Bytes × UInt64) p => (updateChecksum acc.1 p.1 p.2, acc.2 + 1))
        (hash, rowCount) =
      (l.foldl (fun hash p => updateChecksum hash p.1 p.2) hash,
        rowCount + UInt64.ofNat l.length) := by
    intro l
    induction l with
    | nil => simp
    | cons p l ih =>
      intro hash rowCount
      rw [List.foldl_cons, ih, List.foldl_cons, List.length_cons]
      rw [UInt64.ofNat_add, UInt64.add_comm (UInt64.ofNat l.length), UInt64.add_assoc]
      rfl
  have h := hfold (db.cf family).entries [] 0
  rw [UInt64.zero_add] at h
  simp only [RocksDb.checksumCf, cfDigest, h]

namespace MemoryEngine

variable {κ ν : Type} [LinearOrder κ] (sha256 : Bytes → Bytes) (family : ColumnFamily)

theorem checksumCf_ok {rows : List (Except Fault (Bytes × Bytes))} {pairs : List (Bytes × Bytes)}
    (h : rows.mapM id = .ok pairs) :
    checksumCf sha256 family rows = .ok (cfDigest sha256 family (sortOn Prod.fst pairs)) := by
  unfold checksumCf
  rw [h]
  rfl

theorem mapM_checksumPair {α : Type} {codec : Codec ν} {key : α → Except Fault Bytes}
    {row : α → ν} {l : List α} (hkey : ∀ a ∈ l, ∃ k, key a = .ok k) :
    (l.map (fun a => checksumPair codec (key a) (row a))).mapM id =
      .ok (l.map (fun a => (RocksDb.built (key a), codec.toVec (row a)))) := by
  rw [List.mapM_map]
  refine mapM_eq_ok (fun a ha => ?_)
  obtain ⟨k, hk⟩ := hkey a ha
  show checksumPair codec (key a) (row a) = _
  rw [hk]
  rfl

/-- **One family.** A family and the typed map behind it have one checksum, if the key of the
family tells the writes apart exactly as the key of the map does. -/
theorem checksumCf_entries {codec : Codec ν} (key : κ × ν → Except Fault Bytes)
    {l : List (κ × ν)} (hkey : ∀ p ∈ l, ∃ k, key p = .ok k)
    (hinj : ∀ p ∈ l, ∀ q ∈ l, RocksDb.built (key p) = RocksDb.built (key q) ↔ p.1 = q.1) :
    checksumCf sha256 family
        ((SortedMap.ofList l).entries.map (fun p => checksumPair codec (key p) p.2)) =
      .ok (cfDigest sha256 family
        (SortedMap.ofList (l.map (RocksDb.filed codec key))).entries) := by
  -- both hash the rows in the order of their keys, and one row for each key
  have hentries : ∀ p ∈ (SortedMap.ofList l).entries, ∃ k, key p = .ok k :=
    fun p hp => hkey p (SortedMap.mem_of_mem_ofList hp)
  rw [checksumCf_ok sha256 family (mapM_checksumPair hentries)]
  exact congrArg (fun entries => Except.ok (cfDigest sha256 family entries))
    (SortedMap.sortOn_map_entries_ofList (g := RocksDb.filed codec key) hinj)

/-- One family, from the operations that put its rows: the key of every row is built, and two
keys are equal exactly if the map files their rows under one identity. -/
theorem checksumCf_put {codec : Codec ν} {ops : List PutOp} {entry : PutOp → Option (κ × ν)}
    {put : ν → PutOp} {identity : ν → κ}
    (hentry : ∀ {p}, p ∈ ops.filterMap entry → ∃ row, put row ∈ ops ∧ p = (identity row, row))
    (key : κ × ν → Except Fault Bytes)
    (hkey : ∀ {row}, put row ∈ ops → ∃ k, key (identity row, row) = .ok k)
    (hinj : ∀ {a b}, put a ∈ ops → put b ∈ ops → ∀ {k₁ k₂}, key (identity a, a) = .ok k₁ →
      key (identity b, b) = .ok k₂ → (k₁ = k₂ ↔ identity a = identity b)) :
    checksumCf sha256 family ((SortedMap.ofList (ops.filterMap entry)).entries.map
        (fun p => checksumPair codec (key p) p.2)) =
      .ok (cfDigest sha256 family
        (SortedMap.ofList ((ops.filterMap entry).map (RocksDb.filed codec key))).entries) := by
  -- both sides of `checksumCf_entries` are facts about single rows that were put
  apply checksumCf_entries
  · intro p hp
    obtain ⟨row, hop, rfl⟩ := hentry hp
    exact hkey hop
  · intro p hp q hq
    obtain ⟨a, ha, rfl⟩ := hentry hp
    obtain ⟨b, hb, rfl⟩ := hentry hq
    exact RocksDb.built_eq_iff (hkey ha) (hkey hb) (hinj ha hb)

/-- A family whose rows the memory engine only lists: no key of it is written twice. -/
theorem checksumCf_rows {codec : Codec ν} (key : ν → Except Fault Bytes) {rows : List ν}
    (hkey : ∀ row ∈ rows, ∃ k, key row = .ok k)
    (hnodup : (rows.map (fun row => RocksDb.built (key row))).Nodup) :
    checksumCf sha256 family (rows.map (fun row => checksumPair codec (key row) row)) =
      .ok (cfDigest sha256 family (SortedMap.ofList
        (rows.map (fun row => (RocksDb.built (key row), codec.toVec row)))).entries) := by
  rw [checksumCf_ok sha256 family (mapM_checksumPair hkey)]
  -- without a key twice, the family lists the rows as they were put
  have hkeys : ((rows.map (fun row => (RocksDb.built (key row), codec.toVec row))).map
      Prod.fst).Nodup := by
    rw [List.map_map]
    exact hnodup
  exact congrArg (fun entries => Except.ok (cfDigest sha256 family entries))
    (SortedMap.sortOn_fst_eq_of_mem_iff hkeys
      (fun p => (SortedMap.mem_ofList_of_nodup hkeys p).symm))

end MemoryEngine

/-! ## All families' checksums -/

/-- The histories whose rows both engines keep apart: no two fills share an id, no two
attributions their builder and fill, and no two activity rows, put or derived, their
market, time, type, version and event index. -/
structure RowsDistinct (ops : List PutOp) : Prop where
  fills : ((ops.filterMap PutOp.fill?).map FillRow.fillId).Nodup
  builders : ((ops.filterMap PutOp.builderAttribution?).map
    (fun row => (row.builderAddr, row.fillId))).Nodup
  activities : ((ops.filterMap PutOp.activity?).map
    (fun row => (row.marketId, row.timestampUs, row.activityType, row.version,
      row.eventIdx))).Nodup

/-- A history with an overwritten transaction, an overwritten order, and positions of one
account that differ in market, subaccount and version. -/
def sampleOps : List PutOp :=
  let tx (txHash : String) : TxRow :=
    { network := .mainnet, version := 7, txHash := txHash, blockTimestampUs := 5,
      eventCount := 2, datasetId := none, rawSummary := none }
  let order (status : String) (eventIdx : UInt32) : OrderRow :=
    { orderId := "o1", account := "0xa", marketId := "BTC", side := some "buy", price := none,
      size := none, status := some status, version := 7, eventIdx := eventIdx, timestampUs := 5,
      rawEventType := "OrderEvent" }
  let position (account : String) (subaccount : Option String) (size : String) : PositionRow :=
    { account := account, marketId := "BTC", subaccount := subaccount, size := size,
      entryPrice := none, sourceVersion := 7, sourceEventIdx := 1, timestampUs := 5 }
  let fill : FillRow :=
    { version := 7, eventIdx := 0, fillId := "f1", marketId := "BTC", account := "0xa",
      subaccount := none, orderId := some "o1", side := none, price := "1", size := "2",
      notional := none, builderAddr := none, builderFeeBps := none, timestampUs := 5,
      rawEventType := "TradeEvent" }
  [.putTx (tx "0x1"), .putOrder (order "open" 0), .putPosition (position "0xa" none "1"),
    .putPosition (position "0xa" (some "none") "2"), .putPosition (position "0xab" none "3"),
    .putFill fill, .putPosition (position "0xa" none "4"), .putOrder (order "filled" 1),
    .putTx (tx "0x2")]

section Histories

open RocksDb (built built_of_ok afterRun cf_afterRun filed)

variable {ops : List PutOp}

/-- A fill is told from the others by its id. -/
theorem RowsDistinct.fill_eq (hdistinct : RowsDistinct ops) {f g : FillRow}
    (hf : .putFill f ∈ ops) (hg : .putFill g ∈ ops) (h : f.fillId = g.fillId) : f = g :=
  List.inj_on_of_nodup_map hdistinct.fills (List.mem_filterMap.2 ⟨_, hf, rfl⟩)
    (List.mem_filterMap.2 ⟨_, hg, rfl⟩) h

/-- Keys of fills that hold the fill id, and nothing but the fill, are equal exactly for equal
ids. -/
theorem RowsDistinct.fill_iff (hdistinct : RowsDistinct ops) {f g : FillRow}
    (hf : .putFill f ∈ ops) (hg : .putFill g ∈ ops) {SameKey : Prop}
    (hid : SameKey → f.fillId = g.fillId) (hsame : f = g → SameKey) :
    SameKey ↔ (⟨f.fillId⟩ : Text) = ⟨g.fillId⟩ :=
  ⟨fun h => congrArg Text.mk (hid h),
    fun h => hsame (hdistinct.fill_eq hf hg (congrArg Text.str h))⟩

theorem RowsDistinct.builder_eq (hdistinct : RowsDistinct ops) {a b : BuilderAttributionRow}
    (ha : .putBuilderAttribution a ∈ ops) (hb : .putBuilderAttribution b ∈ ops)
    (h : (a.builderAddr, a.fillId) = (b.builderAddr, b.fillId)) : a = b :=
  List.inj_on_of_nodup_map hdistinct.builders (List.mem_filterMap.2 ⟨_, ha, rfl⟩)
    (List.mem_filterMap.2 ⟨_, hb, rfl⟩) h

variable (json : SerdeJson) (sha256 : Bytes → Bytes)

/-- The memory engine computes the checksum of what the RocksDB engine stores in a family. -/
def FamilyAgrees (ops : List PutOp) (family : ColumnFamily) : Prop :=
  MemoryEngine.checksumCf sha256 family ((MemoryEngine.empty.run ops).familyRows json family) =
    .ok (cfDigest sha256 family ((afterRun json ops).cf family).entries)

theorem familyAgrees_txByVersion : FamilyAgrees json sha256 ops .txByVersion := by
  unfold FamilyAgrees
  rw [cf_afterRun, RocksDb.familyWrites_txByVersion, MemoryEngine.familyRows,
    MemoryEngine.txByVersion_run]
  exact MemoryEngine.checksumCf_entries sha256 _ (fun p => .ok (Key.txByVersion p.1))
    (fun p _ => ⟨_, rfl⟩) (fun p _ q _ => Key.txByVersion_inj)

theorem familyAgrees_rawEventByVersionIdx :
    FamilyAgrees json sha256 ops .rawEventByVersionIdx := by
  unfold FamilyAgrees
  rw [cf_afterRun, RocksDb.familyWrites_rawEventByVersionIdx, MemoryEngine.familyRows,
    MemoryEngine.eventsByVersionIdx_run]
  refine MemoryEngine.checksumCf_entries sha256 _
    (fun p : (UInt64 ×ₗ UInt32) × NormalizedEvent =>
      .ok (Key.rawEventByVersionIdx (ofLex p.1).1 (ofLex p.1).2))
    (fun p _ => ⟨_, rfl⟩) (fun p _ q _ => ?_)
  exact Key.rawEventByVersionIdx_inj.trans (Prod.ext_iff.symm.trans ofLex_inj)

/-- A fill has the same rows under its id and under this key. -/
theorem familyAgrees_fillsByMarketTime (hText : ∀ op ∈ ops, op.TextOk)
    (hdistinct : RowsDistinct ops) : FamilyAgrees json sha256 ops .fillsByMarketTime := by
  unfold FamilyAgrees
  rw [cf_afterRun, RocksDb.familyWrites_fillsByMarketTime, MemoryEngine.familyRows,
    MemoryEngine.fillsById_run, SortedMap.values, List.map_map]
  apply MemoryEngine.checksumCf_put sha256 _ MemoryEngine.mem_fillEntries
    (fun p => Key.fillsByMarketTime p.2.marketId p.2.timestampUs p.2.version p.2.fillId)
  · exact fun hop => (RocksDb.fill_keys_ok (hText _ hop)).1
  · -- the key has the fill id, and distinct fills have distinct ids
    intro f g hf hg _ _ hkf hkg
    exact (Key.fillsByMarketTime_inj hkf hkg).trans
      (hdistinct.fill_iff hf hg (fun h => h.2.2.2) (fun h => by simp [h]))

theorem familyAgrees_fillsByAccountTime (hText : ∀ op ∈ ops, op.TextOk)
    (hdistinct : RowsDistinct ops) : FamilyAgrees json sha256 ops .fillsByAccountTime := by
  unfold FamilyAgrees
  rw [cf_afterRun, RocksDb.familyWrites_fillsByAccountTime, MemoryEngine.familyRows,
    MemoryEngine.fillsById_run, SortedMap.values, List.map_map]
  apply MemoryEngine.checksumCf_put sha256 _ MemoryEngine.mem_fillEntries
    (fun p => Key.fillsByAccountTime p.2.account p.2.timestampUs p.2.marketId p.2.fillId)
  · exact fun hop => (RocksDb.fill_keys_ok (hText _ hop)).2
  · intro f g hf hg _ _ hkf hkg
    exact (Key.fillsByAccountTime_inj hkf hkg).trans
      (hdistinct.fill_iff hf hg (fun h => h.2.2.2) (fun h => by simp [h]))

theorem familyAgrees_orderById (hText : ∀ op ∈ ops, op.TextOk) :
    FamilyAgrees json sha256 ops .orderById := by
  unfold FamilyAgrees
  rw [cf_afterRun, RocksDb.familyWrites_orderById, MemoryEngine.familyRows,
    MemoryEngine.ordersById_run]
  apply MemoryEngine.checksumCf_put sha256 _ MemoryEngine.mem_orderEntries
    (fun p => Key.orderById p.1.str)
  · exact fun hop => RocksDb.order_key_ok (hText _ hop)
  · intro o₁ o₂ _ _ _ _ hk₁ hk₂
    exact (Key.orderById_inj hk₁ hk₂).trans (Text.mk.injEq _ _).symm.to_iff

theorem familyAgrees_positionsByAccountMarket (hText : ∀ op ∈ ops, op.TextOk) :
    FamilyAgrees json sha256 ops .positionsByAccountMarket := by
  unfold FamilyAgrees
  rw [cf_afterRun, RocksDb.familyWrites_positionsByAccountMarket, MemoryEngine.familyRows,
    MemoryEngine.positionsByAccountMarket_run]
  apply MemoryEngine.checksumCf_put sha256 _ MemoryEngine.mem_positionEntries
    (fun p => Key.positionsByAccountMarket p.1.account p.1.marketId p.1.subaccount)
  · exact fun hop => RocksDb.position_key_ok (hText _ hop)
  · intro p₁ p₂ _ _ _ _ hk₁ hk₂
    refine (Key.positionsByAccountMarket_inj hk₁ hk₂).trans ?_
    simp [PositionRow.key]

/-- The key also has the time and the market, which builder and fill determine. -/
theorem familyAgrees_builderCodeFills (hText : ∀ op ∈ ops, op.TextOk)
    (hdistinct : RowsDistinct ops) : FamilyAgrees json sha256 ops .builderCodeFills := by
  unfold FamilyAgrees
  rw [cf_afterRun, RocksDb.familyWrites_builderCodeFills, MemoryEngine.familyRows,
    MemoryEngine.builderAttributionsByFill_run, SortedMap.values, List.map_map]
  apply MemoryEngine.checksumCf_put sha256 _ MemoryEngine.mem_builderEntries
    (fun p => Key.builderCodeFills p.2.builderAddr p.2.timestampUs p.2.marketId p.2.fillId)
  · exact fun hop => RocksDb.builder_key_ok (hText _ hop)
  · intro a b ha hb _ _ hka hkb
    refine (Key.builderCodeFills_inj hka hkb).trans ?_
    -- one direction reads the identity off the key, the other needs that it is unique
    constructor
    · intro h
      rw [h.1, h.2.2.2]
    · intro h
      have heq : a = b := hdistinct.builder_eq ha hb (by simpa using h)
      simp [heq]

/-- The memory engine only lists these rows, so no key of theirs may be written twice. -/
theorem familyAgrees_marketRecentActivity (hText : ∀ op ∈ ops, op.TextOk)
    (hdistinct : RowsDistinct ops) : FamilyAgrees json sha256 ops .marketRecentActivity := by
  unfold FamilyAgrees
  rw [cf_afterRun, RocksDb.familyWrites_marketRecentActivity, MemoryEngine.familyRows,
    MemoryEngine.activities_run]
  have hkey : ∀ row ∈ ops.filterMap PutOp.activity?, ∃ k, Key.marketActivity row.marketId
      row.timestampUs row.activityType row.version row.eventIdx = .ok k := by
    intro row hrow
    obtain ⟨op, hop, hactivity⟩ := List.mem_filterMap.1 hrow
    exact RocksDb.activity_key_ok (hText _ hop) hactivity
  refine MemoryEngine.checksumCf_rows sha256 _ (fun row : ActivityRow =>
    Key.marketActivity row.marketId row.timestampUs row.activityType row.version row.eventIdx)
    hkey ?_
  -- the key builder is injective on the identities, which are pairwise distinct
  have hd := hdistinct.activities
  rw [List.Nodup, List.pairwise_map] at hd ⊢
  refine hd.imp_of_mem (fun {a b} ha hb hne he => hne ?_)
  rw [RocksDb.built_eq_iff (hkey a ha) (hkey b hb) Key.marketActivity_inj] at he
  simpa using he

theorem familyAgrees_ingestCheckpoint (hText : ∀ op ∈ ops, op.TextOk) :
    FamilyAgrees json sha256 ops .ingestCheckpoint := by
  unfold FamilyAgrees
  rw [cf_afterRun, RocksDb.familyWrites_ingestCheckpoint, MemoryEngine.familyRows,
    MemoryEngine.checkpoints_run, SortedMap.values, List.map_map]
  apply MemoryEngine.checksumCf_put sha256 _ MemoryEngine.mem_checkpointEntries
    (fun p => Key.ingestCheckpoint p.2.network p.2.packageAddress)
  · exact fun hop => RocksDb.checkpoint_key_ok (hText _ hop)
  · -- network and package address make up the key on both sides
    intro a b _ _ _ _ hka hkb
    exact (Key.ingestCheckpoint_inj hka hkb).trans IngestCheckpoint.key_inj.symm

theorem familyAgrees (hText : ∀ op ∈ ops, op.TextOk) (hdistinct : RowsDistinct ops)
    (family : ColumnFamily) : FamilyAgrees json sha256 ops family := by
  cases family with
  | txByVersion => exact familyAgrees_txByVersion json sha256
  | rawEventByVersionIdx => exact familyAgrees_rawEventByVersionIdx json sha256
  | fillsByMarketTime => exact familyAgrees_fillsByMarketTime json sha256 hText hdistinct
  | fillsByAccountTime => exact familyAgrees_fillsByAccountTime json sha256 hText hdistinct
  | orderById => exact familyAgrees_orderById json sha256 hText
  | positionsByAccountMarket => exact familyAgrees_positionsByAccountMarket json sha256 hText
  | builderCodeFills => exact familyAgrees_builderCodeFills json sha256 hText hdistinct
  | marketRecentActivity => exact familyAgrees_marketRecentActivity json sha256 hText hdistinct
  | ingestCheckpoint => exact familyAgrees_ingestCheckpoint json sha256 hText

/-- Equal families make up equal checksums. -/
theorem checksums_afterRun (hText : ∀ op ∈ ops, op.TextOk) (hdistinct : RowsDistinct ops) :
    (MemoryEngine.empty.run ops).checksums json sha256 =
      .ok ((afterRun json ops).checksums sha256) := by
  have hfamily : ∀ family, MemoryEngine.checksumCf sha256 family
      ((MemoryEngine.empty.run ops).familyRows json family) = _ :=
    familyAgrees json sha256 hText hdistinct
  simp only [MemoryEngine.checksums, hfamily, RocksDb.checksums, logicalCfs, List.map_cons,
    List.map_nil, RocksDb.checksumCf_eq]
  rfl

/-- **Checksum agreement.** A history of distinct rows leaves the two engines with the same
checksums in every column family, in the same order. Transactions, events, orders,
positions and checkpoints may overwrite each other. -/
theorem checksums_agree (hText : ∀ op ∈ ops, op.TextOk) (hdistinct : RowsDistinct ops) :
    ∃ db checksums,
      RocksDb.exec (RocksDb.run json ops) .empty = (.ok (), db) ∧
        db.checksums sha256 = checksums ∧
        (MemoryEngine.empty.run ops).checksums json sha256 = .ok checksums := by
  exact ⟨_, _, RocksDb.exec_run_empty json hText, rfl,
    checksums_afterRun json sha256 hText hdistinct⟩

theorem checksums_agree_sampleOps :
    ∃ db checksums,
      RocksDb.exec (RocksDb.run (.ofOps sampleOps) sampleOps) .empty = (.ok (), db) ∧
        db.checksums Sha256.digest = checksums ∧
        (MemoryEngine.empty.run sampleOps).checksums (.ofOps sampleOps) Sha256.digest =
          .ok checksums :=
  @checksums_agree sampleOps (.ofOps sampleOps) Sha256.digest (by decide +kernel)
    ⟨by decide, by decide, by decide⟩

/-! ## Lookups -/

/-- The lookup of a byte key that belongs to the writes under one key of the typed map. -/
theorem RocksDb.getJson_filed {κ ν : Type} [LinearOrder κ] {db : RocksDb} {codec : Codec ν}
    {family : ColumnFamily} {l : List (κ × ν)} {key : κ × ν → Except Fault Bytes} {k : κ}
    {k' : Bytes} (hcf : db.cf family = SortedMap.ofList (l.map (filed codec key)))
    (hk : ∀ p ∈ l, built (key p) = k' ↔ p.1 = k) (hjson : ∀ p ∈ l, codec.RoundTrips p.2) :
    RocksDb.getJson db codec family (.ok k') = .ok ((SortedMap.ofList l).get? k) := by
  -- the last write under the byte key is the last one under the map key
  have hget : (db.cf family).get? k' =
      ((SortedMap.ofList l).get? k).map (fun row => codec.toVec row) := by
    rw [hcf, SortedMap.get?_ofList, SortedMap.get?_ofList, SortedMap.lastWrite_map hk]
    rfl
  cases hrow : (SortedMap.ofList l).get? k with
  | none =>
    rw [hrow, Option.map_none] at hget
    simp only [RocksDb.getJson, bind, Except.bind, hget]
    rfl
  | some row =>
    rw [hrow, Option.map_some] at hget
    have hmem : (k, row) ∈ l :=
      SortedMap.mem_of_mem_ofList ((SortedMap.get?_eq_some_iff_mem _ _ _).1 hrow)
    simp only [RocksDb.getJson, bind, Except.bind, hget, Codec.decode_toVec (hjson _ hmem)]
    rfl

/-- The scan of a family that lists its rows in the order of `l`. -/
theorem RocksDb.scanPrefix_filed {κ ν : Type} {db : RocksDb} {codec : Codec ν}
    {family : ColumnFamily} {l : List (κ × ν)} {key : κ × ν → Except Fault Bytes}
    {keyPrefix : Bytes} {limit : Limit}
    (hentries : (db.cf family).entries = l.map (filed codec key))
    (hjson : ∀ p ∈ l, codec.RoundTrips p.2) :
    RocksDb.scanPrefix db codec family (.ok keyPrefix) limit =
      .ok ((RocksDb.scanRoom limit 0).truncate
        ((l.filter (fun p => decide (keyPrefix <+: built (key p)))).map Prod.snd)) := by
  rw [RocksDb.scanPrefix_ok, hentries, List.filter_map, ← Limit.map_truncate, List.mapM_map,
    ← Limit.map_truncate]
  -- what is stored was written from a row, and reads back as it
  refine mapM_eq_ok (fun p hp => ?_)
  have hp : p ∈ l := (List.mem_filter.1 (Limit.mem_of_mem_truncate hp)).1
  exact Codec.decode_toVec (hjson p hp)

section Lookups

variable {json : SerdeJson}

theorem getTx_agrees (hjson : ∀ op ∈ ops, json.RoundTrips op) (version : UInt64) :
    (afterRun json ops).getTx json version =
      .ok ((MemoryEngine.empty.run ops).getTx version) := by
  unfold MemoryEngine.getTx
  rw [MemoryEngine.txByVersion_run]
  refine RocksDb.getJson_filed ((cf_afterRun json ops _).trans
    (congrArg _ (RocksDb.familyWrites_txByVersion json ops))) ?_ ?_
  · exact fun p _ => Key.txByVersion_inj
  · intro p hp
    obtain ⟨tx, hop, rfl⟩ := MemoryEngine.mem_txEntries hp
    exact hjson _ hop

theorem multiGetTxs_agrees (hjson : ∀ op ∈ ops, json.RoundTrips op) (versions : List UInt64) :
    (afterRun json ops).multiGetTxs json versions =
      .ok ((MemoryEngine.empty.run ops).multiGetTxs versions) := by
  unfold RocksDb.multiGetTxs
  rw [List.map_map, List.mapM_map]
  -- the batch decodes each value as the lookup of its key does
  exact mapM_eq_ok (fun version _ => getTx_agrees hjson version)

theorem getOrder_agrees (hText : ∀ op ∈ ops, op.TextOk) (hjson : ∀ op ∈ ops, json.RoundTrips op)
    {orderId : String} (hId : Key.TextOk orderId) :
    (afterRun json ops).getOrder json orderId =
      .ok ((MemoryEngine.empty.run ops).getOrder orderId) := by
  have hkey : Key.orderById orderId = .ok (asBytes orderId) :=
    (Key.orderById_eq_ok_iff ..).2 ⟨hId, rfl⟩
  unfold MemoryEngine.getOrder RocksDb.getOrder
  rw [MemoryEngine.ordersById_run, hkey]
  refine RocksDb.getJson_filed ((cf_afterRun json ops _).trans
    (congrArg _ (RocksDb.familyWrites_orderById json ops))) ?_ ?_
  · -- a byte key is that of one order id only
    intro p hp
    obtain ⟨order, hop, rfl⟩ := MemoryEngine.mem_orderEntries hp
    obtain ⟨k, hk⟩ := RocksDb.order_key_ok (hText _ hop)
    rw [built_of_ok hk, Key.orderById_inj hk hkey]
    exact (Text.mk.injEq _ _).symm.to_iff
  · intro p hp
    obtain ⟨order, hop, rfl⟩ := MemoryEngine.mem_orderEntries hp
    exact hjson _ hop

/-- The positions of one account stand together in the map, by market and subaccount. -/
private theorem sortOn_positions (m : SortedMap PositionKey PositionRow)
    (hkey : ∀ p ∈ m.entries, p.1 = p.2.key) (account : String) :
    sortOn (fun position : PositionRow => (⟨position.marketId⟩ : Text))
        (m.values.filter (fun position => position.account == account)) =
      m.values.filter (fun position => position.account == account) := by
  apply sortOn_eq_self
  unfold SortedMap.values
  rw [List.filter_map, List.pairwise_map]
  refine (m.sorted.filter _).imp_of_mem (fun {p q} hp hq hlt => ?_)
  obtain ⟨hp, hpa⟩ := List.mem_filter.1 hp
  obtain ⟨hq, hqa⟩ := List.mem_filter.1 hq
  have ha : p.2.account = q.2.account := by
    rw [beq_iff_eq.1 hpa, beq_iff_eq.1 hqa]
  -- the map orders by account, market and subaccount, and the account is the same
  have htuple : p.2.key.tuple < q.2.key.tuple := by
    rw [hkey p hp, hkey q hq] at hlt
    exact hlt
  simp only [PositionKey.tuple, PositionRow.key, ha, Prod.Lex.toLex_lt_toLex, lt_self_iff_false,
    false_or, true_and] at htuple
  rcases htuple with h | h
  · exact h.le
  · exact h.1.le

theorem getPositionsByAccount_agrees (hText : ∀ op ∈ ops, op.TextOk)
    (hjson : ∀ op ∈ ops, json.RoundTrips op) {account : String} (hAccount : Key.TextOk account) :
    (afterRun json ops).getPositionsByAccount json account =
      .ok ((MemoryEngine.empty.run ops).getPositionsByAccount account) := by
  have hbegins : Key.positionsByAccountPrefix account = .ok (asBytes account ++ [Key.sep]) := by
    simp [Key.positionsByAccountPrefix, Key.prefixSegments, Key.joinSegments, hAccount]
  set l := ops.filterMap MemoryEngine.positionEntry with hl
  set key := fun p : PositionKey × PositionRow =>
    Key.positionsByAccountMarket p.1.account p.1.marketId p.1.subaccount with hkeydef
  have hrow : ∀ p ∈ l, p.1 = p.2.key ∧ (∃ k, key p = .ok k) ∧ json.position.RoundTrips p.2 := by
    intro p hp
    obtain ⟨position, hop, rfl⟩ := MemoryEngine.mem_positionEntries hp
    exact ⟨rfl, RocksDb.position_key_ok (hText _ hop), hjson _ hop⟩
  -- byte order and map order coincide, so the family lists the rows in map order
  have hmono : ∀ p ∈ l, ∀ q ∈ l,
      (filed json.position key p).1 < (filed json.position key q).1 ↔ p.1 < q.1 := by
    intro p hp q hq
    obtain ⟨kp, hkp⟩ := (hrow p hp).2.1
    obtain ⟨kq, hkq⟩ := (hrow q hq).2.1
    show built (key p) < built (key q) ↔ _
    rw [built_of_ok hkp, built_of_ok hkq]
    exact Key.positionsByAccountMarket_lt_iff hkp hkq
  have hentries : ((afterRun json ops).cf .positionsByAccountMarket).entries =
      (SortedMap.ofList l).entries.map (filed json.position key) := by
    rw [cf_afterRun, RocksDb.familyWrites_positionsByAccountMarket]
    exact SortedMap.entries_ofList_map_of_strictMono hmono
  have hmem : ∀ p ∈ (SortedMap.ofList l).entries, p.1 = p.2.key ∧ (∃ k, key p = .ok k) ∧
      json.position.RoundTrips p.2 := fun p hp => hrow p (SortedMap.mem_of_mem_ofList hp)
  -- the prefix selects exactly the rows of the account
  have hfilter : (SortedMap.ofList l).entries.filter
      (fun p => decide (asBytes account ++ [Key.sep] <+: built (key p))) =
      (SortedMap.ofList l).entries.filter (fun p => p.2.account == account) := by
    refine List.filter_congr (fun p hp => ?_)
    obtain ⟨hpkey, ⟨k, hk⟩, -⟩ := hmem p hp
    have hiff := Key.positionsByAccountMarket_prefix_iff hk hbegins
    rw [hpkey] at hiff
    rw [built_of_ok hk]
    simpa [beq_eq_decide, PositionRow.key] using hiff
  unfold RocksDb.getPositionsByAccount MemoryEngine.getPositionsByAccount
  rw [hbegins, RocksDb.scanPrefix_filed hentries (fun p hp => (hmem p hp).2.2), hfilter,
    MemoryEngine.positionsByAccountMarket_run]
  refine congrArg Except.ok ?_
  rw [sortOn_positions _ (fun p hp => (hmem p hp).1), SortedMap.values, List.filter_map]
  rfl

/-- A text with a separator byte is looked up in vain: the RocksDB engine refuses to build a
key from it, and the memory engine holds no row under it. -/
theorem lookups_of_not_textOk (hText : ∀ op ∈ ops, op.TextOk) {text : String}
    (h : ¬ Key.TextOk text) :
    ((afterRun json ops).getOrder json text = .error Key.separatorPanic ∧
      (MemoryEngine.empty.run ops).getOrder text = none) ∧
    ((afterRun json ops).getPositionsByAccount json text = .error Key.separatorPanic ∧
      (MemoryEngine.empty.run ops).getPositionsByAccount text = []) := by
  -- RocksDB panics where it builds the key; the memory engine has no row with such a text
  have hpanic := Key.assertTextSegments_panic (List.mem_singleton_self text) h
  refine ⟨⟨?_, ?_⟩, ⟨?_, ?_⟩⟩
  · simp [RocksDb.getOrder, RocksDb.getJson, Key.orderById, hpanic, bind, Except.bind]
  · unfold MemoryEngine.getOrder
    rw [MemoryEngine.ordersById_run, Option.eq_none_iff_forall_not_mem]
    intro order horder
    have hmem := SortedMap.mem_of_mem_ofList ((SortedMap.get?_eq_some_iff_mem _ _ _).1 horder)
    obtain ⟨order, hop, hp⟩ := MemoryEngine.mem_orderEntries hmem
    obtain ⟨rfl, -⟩ : text = order.orderId ∧ _ := by simpa using hp
    exact h (hText _ hop _ (by simp [PutOp.keyTexts]))
  · simp [RocksDb.getPositionsByAccount, RocksDb.scanPrefix, Key.positionsByAccountPrefix,
      hpanic, bind, Except.bind]
  · unfold MemoryEngine.getPositionsByAccount
    rw [MemoryEngine.positionsByAccountMarket_run]
    have hnone : (SortedMap.ofList (ops.filterMap MemoryEngine.positionEntry)).values.filter
        (fun position => position.account == text) = [] := by
      rw [List.filter_eq_nil_iff]
      intro position hposition
      obtain ⟨p, hp, rfl⟩ := List.mem_map.1 hposition
      obtain ⟨position, hop, rfl⟩ :=
        MemoryEngine.mem_positionEntries (SortedMap.mem_of_mem_ofList hp)
      intro he
      exact h (beq_iff_eq.1 he ▸ hText _ hop _ (by simp [PutOp.keyTexts]))
    rw [hnone]
    rfl

end Lookups

/-- **Point-lookup refinement.** After any history of operations with admissible texts the
engines answer every lookup alike, overwritten rows included. A looked-up text that could
not be in a key is answered by neither. -/
theorem lookups_agree (hText : ∀ op ∈ ops, op.TextOk)
    (hjson : ∀ op ∈ ops, json.RoundTrips op) :
    ∃ db memory, RocksDb.exec (RocksDb.run json ops) .empty = (.ok (), db) ∧
      MemoryEngine.empty.run ops = memory ∧
      (∀ version, db.getTx json version = .ok (memory.getTx version)) ∧
      (∀ versions, db.multiGetTxs json versions = .ok (memory.multiGetTxs versions)) ∧
      (∀ orderId, Key.TextOk orderId →
        db.getOrder json orderId = .ok (memory.getOrder orderId)) ∧
      (∀ account, Key.TextOk account →
        db.getPositionsByAccount json account = .ok (memory.getPositionsByAccount account)) ∧
      ∀ text, ¬ Key.TextOk text →
        (db.getOrder json text = .error Key.separatorPanic ∧ memory.getOrder text = none) ∧
        (db.getPositionsByAccount json text = .error Key.separatorPanic ∧
          memory.getPositionsByAccount text = []) :=
  ⟨_, _, RocksDb.exec_run_empty json hText, rfl, getTx_agrees hjson, multiGetTxs_agrees hjson,
    fun _ => getOrder_agrees hText hjson, fun _ => getPositionsByAccount_agrees hText hjson,
    fun _ => lookups_of_not_textOk hText⟩

theorem lookups_agree_sampleOps :
    ∃ db memory,
      RocksDb.exec (RocksDb.run (.ofOps sampleOps) sampleOps) .empty = (.ok (), db) ∧
      MemoryEngine.empty.run sampleOps = memory ∧
      (∀ version, db.getTx (.ofOps sampleOps) version = .ok (memory.getTx version)) ∧
      (∀ versions,
        db.multiGetTxs (.ofOps sampleOps) versions = .ok (memory.multiGetTxs versions)) ∧
      (∀ orderId, Key.TextOk orderId →
        db.getOrder (.ofOps sampleOps) orderId = .ok (memory.getOrder orderId)) ∧
      (∀ account, Key.TextOk account →
        db.getPositionsByAccount (.ofOps sampleOps) account =
          .ok (memory.getPositionsByAccount account)) ∧
      ∀ text, ¬ Key.TextOk text →
        (db.getOrder (.ofOps sampleOps) text = .error Key.separatorPanic ∧
          memory.getOrder text = none) ∧
        (db.getPositionsByAccount (.ofOps sampleOps) text = .error Key.separatorPanic ∧
          memory.getPositionsByAccount text = []) :=
  @lookups_agree sampleOps (.ofOps sampleOps) (by decide +kernel) (by decide +kernel)

end Histories

end HotIndex
