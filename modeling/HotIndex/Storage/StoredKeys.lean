import HotIndex.Storage.FillIndexes

/-!
# Which Rows Can Be Checksummed

The memory engine files a row without building the keys that `checksums` builds from it, and
the key builders panic on a text with the separator. So `checksums` returns exactly if no row
that the engine holds has such a text: of the rows put under one identity only the last is
held, while the activity of a fill stays (`checksums_ok_iff`). The RocksDB engine builds the
keys when it puts the row.
-/

namespace HotIndex

open Lib

/-! ## Identities -/

/-- What the maps of the engine file a row under. -/
inductive RowIdentity where
  | tx (version : UInt64)
  | event (version : UInt64) (eventIdx : UInt32)
  | fill (fillId : String)
  | order (orderId : String)
  | position (key : PositionKey)
  | builder (builderAddr fillId : String)
  | checkpoint (key : Text)
  deriving DecidableEq

/-- The identity that an operation files its row under; activities are only appended. -/
def PutOp.identity : PutOp → Option RowIdentity
  | .putTx tx => some (.tx tx.version)
  | .putEvent event => some (.event event.version event.eventIdx)
  | .putFill fill => some (.fill fill.fillId)
  | .putOrder order => some (.order order.orderId)
  | .putPosition position => some (.position position.key)
  | .putBuilderAttribution row => some (.builder row.builderAddr row.fillId)
  | .putActivity _ => none
  | .putIngestCheckpoint checkpoint => some (.checkpoint checkpoint.key)

/-- The texts of the rows that a sequence of operations leaves behind may stand in keys: those of
the last row under each identity, and those of all activities, put or derived from a fill. -/
structure KeptTextsOk (ops : List PutOp) : Prop where
  rows : ∀ op ∈ ops, LastPut PutOp.identity ops op → op.TextOk
  activities : ∀ row ∈ ops.filterMap PutOp.activity?,
    Key.TextOk row.marketId ∧ Key.TextOk row.activityType

namespace MemoryEngine

/-! ## What a checksum needs -/

section Checksums

variable (json : SerdeJson) (sha256 : Bytes → Bytes)

/-- `checksums` goes through the column families one after the other. -/
theorem checksums_eq_mapM (inner : MemoryEngine) :
    inner.checksums json sha256 =
      logicalCfs.mapM (fun family => checksumCf sha256 family (inner.familyRows json family)) := by
  simp only [checksums, logicalCfs, List.mapM_cons, List.mapM_nil, bind_assoc, pure_bind]

theorem checksumCf_isOk_iff {family : ColumnFamily} {rows : List (Except Fault (Bytes × Bytes))} :
    (∃ checksum, checksumCf sha256 family rows = .ok checksum) ↔
      ∀ row ∈ rows, ∃ pair, row = .ok pair := by
  -- digests never fail, so it is about the rows
  refine Iff.trans ?_ exists_mapM_eq_ok_iff
  constructor
  · rintro ⟨checksum, hchecksum⟩
    rcases bind_eq_ok_iff.1 hchecksum with ⟨pairs, hpairs, _⟩
    exact ⟨pairs, hpairs⟩
  · rintro ⟨pairs, hpairs⟩
    exact ⟨_, checksumCf_ok sha256 family hpairs⟩

theorem checksumPair_isOk_iff {α : Type} {codec : Codec α} {key : Except Fault Bytes} {row : α} :
    (∃ pair, checksumPair codec key row = .ok pair) ↔ ∃ k, key = .ok k := by
  cases key with
  | error fault => exact ⟨nofun, nofun⟩
  | ok k => exact ⟨fun _ => ⟨k, rfl⟩, fun _ => ⟨_, rfl⟩⟩

/-- The checksums are returned if and only if every row of every family has its key. -/
theorem checksums_isOk_iff {inner : MemoryEngine} :
    (∃ sums, inner.checksums json sha256 = .ok sums) ↔
      ∀ family, ∀ row ∈ inner.familyRows json family, ∃ pair, row = .ok pair := by
  -- every family is one of the logical ones
  have hall : ∀ family : ColumnFamily, family ∈ logicalCfs := by
    intro family
    cases family <;> decide
  rw [checksums_eq_mapM, exists_mapM_eq_ok_iff]
  constructor
  · intro h family
    exact (checksumCf_isOk_iff sha256).1 (h family (hall family))
  · intro h family _
    exact (checksumCf_isOk_iff sha256).2 (h family)

end Checksums

/-! ## What a map holds -/

section Maps

variable {ops : List PutOp} {κ ν : Type} [LinearOrder κ] {entry : PutOp → Option (κ × ν)}
  (put : ν → PutOp) (key : ν → κ)

/-- A map whose keys express the identity of its rows holds the row put last under each of
them. -/
theorem mem_entries_iff_lastPut
    (hentry : ∀ op p, entry op = some p ↔ ∃ row, op = put row ∧ p = (key row, row))
    (hidentity : ∀ op row, op.identity = (put row).identity ↔
      ∃ other, op = put other ∧ key other = key row)
    (p : κ × ν) :
    p ∈ (SortedMap.ofList (ops.filterMap entry)).entries ↔
      p.1 = key p.2 ∧ LastPut PutOp.identity ops (put p.2) := by
  -- the last write under the key of a row is that of the last operation with its identity
  have hlast : ∀ row, (key row, row) ∈ (SortedMap.ofList (ops.filterMap entry)).entries ↔
      LastPut PutOp.identity ops (put row) := by
    intro row
    have hfind : (ops.reverse.find? fun op => (entry op).any fun q => q.1 = key row) =
        ops.reverse.find? fun op => op.identity = (put row).identity := by
      refine List.find?_congr fun op _ => ?_
      rw [Bool.eq_iff_iff, decide_eq_true_iff, hidentity, Option.any_eq_true]
      constructor
      · rintro ⟨q, hq, hkey⟩
        rcases (hentry op q).1 hq with ⟨other, rfl, rfl⟩
        exact ⟨other, rfl, of_decide_eq_true hkey⟩
      · rintro ⟨other, rfl, hkey⟩
        exact ⟨_, (hentry _ _).2 ⟨other, rfl, rfl⟩, decide_eq_true hkey⟩
    rw [SortedMap.mem_ofList, SortedMap.lastWrite, ← List.filterMap_reverse,
      List.find?_filterMap, hfind, LastPut]
    constructor
    · intro h
      rcases Option.map_eq_some_iff.1 h with ⟨q, hq, hrow⟩
      rcases Option.bind_eq_some_iff.1 hq with ⟨op, hop, hopq⟩
      rcases (hentry op q).1 hopq with ⟨other, rfl, rfl⟩
      obtain rfl : other = row := hrow
      exact hop
    · intro h
      rw [h, Option.bind_some, (hentry _ _).2 ⟨row, rfl, rfl⟩]
      rfl
  constructor
  · intro hp
    rcases List.mem_filterMap.1 (SortedMap.mem_of_mem_ofList hp) with ⟨op, _, hop⟩
    rcases (hentry op p).1 hop with ⟨row, _, rfl⟩
    exact ⟨rfl, (hlast row).1 hp⟩
  · rintro ⟨hkey, h⟩
    rw [show p = (key p.2, p.2) from Prod.ext hkey rfl]
    exact (hlast p.2).2 h

end Maps

section Held

variable {ops : List PutOp}

theorem mem_fillsById_iff {p : Text × FillRow} :
    p ∈ (empty.run ops).fillsById.entries ↔
      p.1 = ⟨p.2.fillId⟩ ∧ LastPut PutOp.identity ops (.putFill p.2) := by
  rw [fillsById_run]
  apply mem_entries_iff_lastPut PutOp.putFill (fun fill => (⟨fill.fillId⟩ : Text))
  · intro op p
    cases op <;> simp [fillEntry, PutOp.fill?, eq_comm]
  · intro op row
    cases op <;> simp [PutOp.identity]

theorem mem_ordersById_iff {p : Text × OrderRow} :
    p ∈ (empty.run ops).ordersById.entries ↔
      p.1 = ⟨p.2.orderId⟩ ∧ LastPut PutOp.identity ops (.putOrder p.2) := by
  rw [ordersById_run]
  apply mem_entries_iff_lastPut PutOp.putOrder (fun order => (⟨order.orderId⟩ : Text))
  · intro op p
    cases op <;> simp [orderEntry, eq_comm]
  · intro op row
    cases op <;> simp [PutOp.identity]

theorem mem_positionsByAccountMarket_iff {p : PositionKey × PositionRow} :
    p ∈ (empty.run ops).positionsByAccountMarket.entries ↔
      p.1 = p.2.key ∧ LastPut PutOp.identity ops (.putPosition p.2) := by
  rw [positionsByAccountMarket_run]
  apply mem_entries_iff_lastPut PutOp.putPosition PositionRow.key
  · intro op p
    cases op <;> simp [positionEntry, eq_comm]
  · intro op row
    cases op <;> simp [PutOp.identity]

theorem mem_builderAttributionsByFill_iff {p : (Text ×ₗ Text) × BuilderAttributionRow} :
    p ∈ (empty.run ops).builderAttributionsByFill.entries ↔
      p.1 = toLex (⟨p.2.builderAddr⟩, ⟨p.2.fillId⟩) ∧
        LastPut PutOp.identity ops (.putBuilderAttribution p.2) := by
  rw [builderAttributionsByFill_run]
  apply mem_entries_iff_lastPut PutOp.putBuilderAttribution
    (fun row => (toLex (⟨row.builderAddr⟩, ⟨row.fillId⟩) : Text ×ₗ Text))
  · intro op p
    cases op <;> simp [builderEntry, PutOp.builderAttribution?, eq_comm]
  · intro op row
    cases op <;> simp [PutOp.identity]

theorem mem_checkpoints_iff {p : Text × IngestCheckpoint} :
    p ∈ (empty.run ops).checkpoints.entries ↔
      p.1 = p.2.key ∧ LastPut PutOp.identity ops (.putIngestCheckpoint p.2) := by
  rw [checkpoints_run]
  apply mem_entries_iff_lastPut PutOp.putIngestCheckpoint IngestCheckpoint.key
  · intro op p
    cases op <;> simp [checkpointEntry, eq_comm]
  · intro op row
    cases op <;> simp [PutOp.identity]

end Held

/-! ## The rows of a state -/

theorem checksumPairs_isOk_iff {α β : Type} {codec : Codec β} {key : α → Except Fault Bytes}
    {row : α → β} {l : List α} :
    (∀ pair ∈ l.map (fun a => checksumPair codec (key a) (row a)), ∃ p, pair = .ok p) ↔
      ∀ a ∈ l, ∃ k, key a = .ok k := by
  rw [List.forall_mem_map]
  exact forall₂_congr fun a _ => checksumPair_isOk_iff

/-- A row that is held has its key, so its texts may stand in keys. -/
theorem textOk_of_familyRows (json : SerdeJson) {ops : List PutOp}
    (h : ∀ family, ∀ row ∈ (empty.run ops).familyRows json family, ∃ pair, row = .ok pair)
    {op : PutOp} (hlast : LastPut PutOp.identity ops op) (hop : ∀ row, op ≠ .putActivity row) :
    op.TextOk := by
  -- a value that no later operation replaced is still held, under a key that its family builds
  cases op with
  | putTx tx => exact nofun
  | putEvent event => exact nofun
  | putFill fill =>
    have hheld : ((⟨fill.fillId⟩ : Text), fill) ∈ (empty.run ops).fillsById.entries :=
      mem_fillsById_iff.2 ⟨rfl, hlast⟩
    rcases checksumPairs_isOk_iff.1 (h .fillsByAccountTime) _ (List.mem_map_of_mem hheld) with
      ⟨k, hk⟩
    rcases (Key.fillsByAccountTime_eq_ok_iff ..).1 hk with ⟨⟨haccount, hmarket, hid⟩, _⟩
    simp [PutOp.TextOk, PutOp.keyTexts, haccount, hmarket, hid]
  | putOrder order =>
    have hheld : ((⟨order.orderId⟩ : Text), order) ∈ (empty.run ops).ordersById.entries :=
      mem_ordersById_iff.2 ⟨rfl, hlast⟩
    rcases checksumPairs_isOk_iff.1 (h .orderById) _ hheld with ⟨k, hk⟩
    simp [PutOp.TextOk, PutOp.keyTexts, ((Key.orderById_eq_ok_iff ..).1 hk).1]
  | putPosition position =>
    have hheld : (position.key, position) ∈ (empty.run ops).positionsByAccountMarket.entries :=
      mem_positionsByAccountMarket_iff.2 ⟨rfl, hlast⟩
    rcases checksumPairs_isOk_iff.1 (h .positionsByAccountMarket) _ hheld with ⟨k, hk⟩
    rcases (Key.positionsByAccountMarket_eq_ok_iff ..).1 hk with ⟨⟨haccount, hmarket, hsub⟩, _⟩
    have hsub : ∀ text, position.subaccount = some text → Key.TextOk text := hsub
    have haccount : Key.TextOk position.account := haccount
    have hmarket : Key.TextOk position.marketId := hmarket
    simp only [PutOp.TextOk, PutOp.keyTexts, List.mem_append, List.mem_cons, Option.mem_toList,
      List.not_mem_nil, or_false]
    rintro text ((rfl | rfl) | htext)
    · exact haccount
    · exact hmarket
    · exact hsub text htext
  | putBuilderAttribution row =>
    have hheld : ((toLex (⟨row.builderAddr⟩, ⟨row.fillId⟩) : Text ×ₗ Text), row) ∈
        (empty.run ops).builderAttributionsByFill.entries :=
      mem_builderAttributionsByFill_iff.2 ⟨rfl, hlast⟩
    rcases checksumPairs_isOk_iff.1 (h .builderCodeFills) _ (List.mem_map_of_mem hheld) with
      ⟨k, hk⟩
    rcases (Key.builderCodeFills_eq_ok_iff ..).1 hk with ⟨⟨hbuilder, hmarket, hid⟩, _⟩
    simp [PutOp.TextOk, PutOp.keyTexts, hbuilder, hmarket, hid]
  | putActivity row => exact absurd rfl (hop row)
  | putIngestCheckpoint checkpoint =>
    have hheld : (checkpoint.key, checkpoint) ∈ (empty.run ops).checkpoints.entries :=
      mem_checkpoints_iff.2 ⟨rfl, hlast⟩
    rcases checksumPairs_isOk_iff.1 (h .ingestCheckpoint) _ (List.mem_map_of_mem hheld) with
      ⟨k, hk⟩
    have htext := ((Key.ingestCheckpoint_eq_ok_iff ..).1 hk).1
    simp [PutOp.TextOk, PutOp.keyTexts, htext]

/-- Every row of every family has its key if and only if the kept texts may stand in keys. -/
theorem familyRows_isOk_iff (json : SerdeJson) (ops : List PutOp) :
    (∀ family, ∀ row ∈ (empty.run ops).familyRows json family, ∃ pair, row = .ok pair) ↔
      KeptTextsOk ops := by
  constructor
  · intro h
    have hactivity : ∀ row ∈ ops.filterMap PutOp.activity?,
        Key.TextOk row.marketId ∧ Key.TextOk row.activityType := by
      intro row hrow
      rw [← activities_run] at hrow
      rcases checksumPairs_isOk_iff.1 (h .marketRecentActivity) row hrow with ⟨k, hk⟩
      exact ((Key.marketActivity_eq_ok_iff ..).1 hk).1
    refine ⟨fun op hop hlast => ?_, hactivity⟩
    by_cases hput : ∃ row, op = .putActivity row
    · -- all activities are held, also those that are not the last
      rcases hput with ⟨row, rfl⟩
      rcases hactivity row (List.mem_filterMap.2 ⟨_, hop, rfl⟩) with ⟨hmarket, htype⟩
      simp [PutOp.TextOk, PutOp.keyTexts, hmarket, htype]
    · exact textOk_of_familyRows json h hlast fun row hrow => hput ⟨row, hrow⟩
  · -- a held row was put last under its identity
    intro h family
    cases family with
    | txByVersion => exact checksumPairs_isOk_iff.2 fun _ _ => ⟨_, rfl⟩
    | rawEventByVersionIdx => exact checksumPairs_isOk_iff.2 fun _ _ => ⟨_, rfl⟩
    | fillsByMarketTime =>
      refine checksumPairs_isOk_iff.2 fun fill hfill => ?_
      rcases List.mem_map.1 hfill with ⟨p, hp, rfl⟩
      have hlast := (mem_fillsById_iff.1 hp).2
      exact (RocksDb.fill_keys_ok (h.rows _ hlast.mem hlast)).1
    | fillsByAccountTime =>
      refine checksumPairs_isOk_iff.2 fun fill hfill => ?_
      rcases List.mem_map.1 hfill with ⟨p, hp, rfl⟩
      have hlast := (mem_fillsById_iff.1 hp).2
      exact (RocksDb.fill_keys_ok (h.rows _ hlast.mem hlast)).2
    | orderById =>
      refine checksumPairs_isOk_iff.2 fun p hp => ?_
      rcases mem_ordersById_iff.1 hp with ⟨hkey, hlast⟩
      rw [hkey]
      exact RocksDb.order_key_ok (h.rows _ hlast.mem hlast)
    | positionsByAccountMarket =>
      refine checksumPairs_isOk_iff.2 fun p hp => ?_
      rcases mem_positionsByAccountMarket_iff.1 hp with ⟨hkey, hlast⟩
      rw [hkey]
      exact RocksDb.position_key_ok (h.rows _ hlast.mem hlast)
    | builderCodeFills =>
      refine checksumPairs_isOk_iff.2 fun row hrow => ?_
      rcases List.mem_map.1 hrow with ⟨p, hp, rfl⟩
      have hlast := (mem_builderAttributionsByFill_iff.1 hp).2
      exact RocksDb.builder_key_ok (h.rows _ hlast.mem hlast)
    | marketRecentActivity =>
      refine checksumPairs_isOk_iff.2 fun row hrow => ?_
      rw [activities_run] at hrow
      exact ⟨_, (Key.marketActivity_eq_ok_iff ..).2 ⟨h.activities row hrow, rfl⟩⟩
    | ingestCheckpoint =>
      refine checksumPairs_isOk_iff.2 fun row hrow => ?_
      rcases List.mem_map.1 hrow with ⟨p, hp, rfl⟩
      have hlast := (mem_checkpoints_iff.1 hp).2
      exact RocksDb.checkpoint_key_ok (h.rows _ hlast.mem hlast)

/-! ## Which histories can be checksummed -/

/-- **Checksums.** After any operations, the checksums are returned if and only if the texts of
the rows that are kept may stand in keys. They are returned in every state on the way exactly if
all texts may: each row is held in the state behind its operation. -/
theorem checksums_returned_iff (json : SerdeJson) (sha256 : Bytes → Bytes) (ops : List PutOp) :
    ((∃ sums, (empty.run ops).checksums json sha256 = .ok sums) ↔ KeptTextsOk ops) ∧
      ((∀ before, before <+: ops → ∃ sums, (empty.run before).checksums json sha256 = .ok sums) ↔
        ∀ op ∈ ops, op.TextOk) := by
  have hreturned : ∀ ops, (∃ sums, (empty.run ops).checksums json sha256 = .ok sums) ↔
      KeptTextsOk ops :=
    fun ops => (checksums_isOk_iff json sha256).trans (familyRows_isOk_iff json ops)
  refine ⟨hreturned ops, ?_⟩
  simp only [hreturned]
  constructor
  · intro h op hop
    rcases List.append_of_mem hop with ⟨before, after, rfl⟩
    -- behind its own operation, a row is the last of its identity
    have hlast : LastPut PutOp.identity (before ++ [op]) op := by simp [LastPut]
    have hprefix : before ++ [op] <+: before ++ op :: after := ⟨after, by simp⟩
    exact (h _ hprefix).rows op (by simp) hlast
  · intro h before hbefore
    refine ⟨fun op hop _ => h op (hbefore.subset hop), fun row hrow => ?_⟩
    rcases List.mem_filterMap.1 hrow with ⟨op, hop, hrow⟩
    rcases RocksDb.activity_key_ok (h op (hbefore.subset hop)) hrow with ⟨k, hk⟩
    exact ((Key.marketActivity_eq_ok_iff ..).1 hk).1

/-- A fill in a market whose name holds the separator. -/
def separatorFill : FillRow where
  version := 7
  eventIdx := 0
  fillId := "t1"
  marketId := "BTC\x00PERP"
  account := "0xa"
  subaccount := none
  orderId := none
  side := none
  price := "1"
  size := "2"
  notional := none
  builderAddr := none
  builderFeeBps := none
  timestampUs := 5
  rawEventType := "TradeEvent"

/-- The fill is accepted, but its key cannot be built. -/
theorem checksums_panic_separatorFill :
    (empty.run [.putFill separatorFill]).fillsById.values = [separatorFill] ∧
      (empty.run [.putFill separatorFill]).checksums (.ofOps [.putFill separatorFill])
        Sha256.digest = .error Key.separatorPanic :=
  ⟨by decide +kernel, rfl⟩

end MemoryEngine

end HotIndex
