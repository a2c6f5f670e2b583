import HotIndex.Lib.SortedMap
import HotIndex.Storage.BuilderVolume

/-!
# The Memory Engine

`memory_engine.rs`: typed maps, each under its own identity, and a vector of
activities in insertion order. A poisoned lock is not modelled: nothing panics
while a write guard is held.
-/

namespace HotIndex

open Lib OrderDual

/-- The key `(account, market_id, subaccount)` of the position map. -/
structure PositionKey where
  account : String
  marketId : String
  subaccount : Option String
  deriving DecidableEq, Repr

/-- The tuple that a position key compares by. -/
def PositionKey.tuple (key : PositionKey) : Text ×ₗ Text ×ₗ WithBot Text :=
  toLex (⟨key.account⟩, toLex (⟨key.marketId⟩, optText key.subaccount))

theorem PositionKey.tuple_injective : Function.Injective PositionKey.tuple := by
  intro a b h
  cases a; cases b
  simpa [PositionKey.tuple, optText_inj] using h

instance : LinearOrder PositionKey := LinearOrder.lift' _ PositionKey.tuple_injective

def PositionRow.key (position : PositionRow) : PositionKey where
  account := position.account
  marketId := position.marketId
  subaccount := position.subaccount

/-- `checkpoint_key` -/
def IngestCheckpoint.key (checkpoint : IngestCheckpoint) : Text :=
  ⟨checkpoint.network.asStr ++ ":" ++ checkpoint.packageAddress⟩

/-- No network name contains the colon, so the joined text determines both parts. -/
theorem IngestCheckpoint.key_inj {a b : IngestCheckpoint} :
    a.key = b.key ↔ a.network = b.network ∧ a.packageAddress = b.packageAddress := by
  constructor
  · intro h
    -- no network name has a colon, so that the first one separates the parts
    have hcolon : asBytes ":" = [58] := by decide
    have hnetwork : ∀ network : Network, 58 ∉ asBytes network.asStr := by
      intro network
      cases network <;> decide
    have hbytes : asBytes a.network.asStr ++ 58 :: asBytes a.packageAddress =
        asBytes b.network.asStr ++ 58 :: asBytes b.packageAddress := by
      have h := congrArg (fun text : Text => asBytes text.str) h
      simpa [IngestCheckpoint.key, hcolon] using h
    obtain ⟨hn, hp⟩ := append_sep_inj (hnetwork _) (hnetwork _) hbytes
    exact ⟨Network.asStr_inj (asBytes_inj hn), asBytes_inj hp⟩
  · rintro ⟨hn, hp⟩
    unfold IngestCheckpoint.key
    rw [hn, hp]

/-- `struct Inner`: the state behind the engine's lock. -/
@[ext]
structure MemoryEngine where
  txByVersion : SortedMap UInt64 TxRow
  eventsByVersionIdx : SortedMap (UInt64 ×ₗ UInt32) NormalizedEvent
  fillsById : SortedMap Text FillRow
  ordersById : SortedMap Text OrderRow
  positionsByAccountMarket : SortedMap PositionKey PositionRow
  builderAttributionsByFill : SortedMap (Text ×ₗ Text) BuilderAttributionRow
  checkpoints : SortedMap Text IngestCheckpoint
  activities : List ActivityRow

namespace MemoryEngine

/-- `MemoryEngine::default` -/
def empty : MemoryEngine where
  txByVersion := .empty
  eventsByVersionIdx := .empty
  fillsById := .empty
  ordersById := .empty
  positionsByAccountMarket := .empty
  builderAttributionsByFill := .empty
  checkpoints := .empty
  activities := []

/-! ## Writes -/

def putTx (inner : MemoryEngine) (tx : TxRow) : MemoryEngine :=
  { inner with txByVersion := inner.txByVersion.insert tx.version tx }

def putEvent (inner : MemoryEngine) (event : NormalizedEvent) : MemoryEngine :=
  { inner with
    eventsByVersionIdx :=
      inner.eventsByVersionIdx.insert (toLex (event.version, event.eventIdx)) event }

def putFill (inner : MemoryEngine) (fill : FillRow) : MemoryEngine :=
  { inner with
    fillsById := inner.fillsById.insert ⟨fill.fillId⟩ fill
    -- pushed and not keyed: a fill that is put again is listed again
    activities := inner.activities ++ [fill.activity] }

def putOrder (inner : MemoryEngine) (order : OrderRow) : MemoryEngine :=
  { inner with ordersById := inner.ordersById.insert ⟨order.orderId⟩ order }

def putPosition (inner : MemoryEngine) (position : PositionRow) : MemoryEngine :=
  { inner with
    positionsByAccountMarket := inner.positionsByAccountMarket.insert position.key position }

def putBuilderAttribution (inner : MemoryEngine) (row : BuilderAttributionRow) : MemoryEngine :=
  { inner with
    builderAttributionsByFill :=
      inner.builderAttributionsByFill.insert (toLex (⟨row.builderAddr⟩, ⟨row.fillId⟩)) row }

def putActivity (inner : MemoryEngine) (row : ActivityRow) : MemoryEngine :=
  { inner with activities := inner.activities ++ [row] }

def putIngestCheckpoint (inner : MemoryEngine) (checkpoint : IngestCheckpoint) : MemoryEngine :=
  { inner with checkpoints := inner.checkpoints.insert checkpoint.key checkpoint }

/-- One operation of the trait. Every `put_*` returns `Ok`. -/
def put (inner : MemoryEngine) : PutOp → MemoryEngine
  | .putTx tx => inner.putTx tx
  | .putEvent event => inner.putEvent event
  | .putFill fill => inner.putFill fill
  | .putOrder order => inner.putOrder order
  | .putPosition position => inner.putPosition position
  | .putBuilderAttribution row => inner.putBuilderAttribution row
  | .putActivity row => inner.putActivity row
  | .putIngestCheckpoint checkpoint => inner.putIngestCheckpoint checkpoint

/-- The engine after a sequence of operations. -/
def run (inner : MemoryEngine) (ops : List PutOp) : MemoryEngine := ops.foldl put inner

/-! ## Queries -/

def getTx (inner : MemoryEngine) (version : UInt64) : Option TxRow :=
  inner.txByVersion.get? version

def multiGetTxs (inner : MemoryEngine) (versions : List UInt64) : List (Option TxRow) :=
  versions.map (fun version => inner.txByVersion.get? version)

def getOrder (inner : MemoryEngine) (orderId : String) : Option OrderRow :=
  inner.ordersById.get? ⟨orderId⟩

def getPositionsByAccount (inner : MemoryEngine) (account : String) : List PositionRow :=
  let rows := inner.positionsByAccountMarket.values.filter
    (fun position => position.account == account)
  sortOn (fun position => (⟨position.marketId⟩ : Text)) rows

/-- The comparator chain of `sort_fills_recent_first`, as the tuple it compares. -/
def recentFirstKey (fill : FillRow) : UInt64ᵒᵈ ×ₗ UInt64 ×ₗ UInt32 ×ₗ Text :=
  toLex (toDual fill.timestampUs, toLex (fill.version, toLex (fill.eventIdx, ⟨fill.fillId⟩)))

def sortFillsRecentFirst (rows : List FillRow) : List FillRow := sortOn recentFirstKey rows

def scanMarketFills (inner : MemoryEngine) (marketId : String) (limit : Limit) : List FillRow :=
  let rows := inner.fillsById.values.filter (fun fill => fill.marketId == marketId)
  limit.truncate (sortFillsRecentFirst rows)

def scanAccountFills (inner : MemoryEngine) (account : String) (limit : Limit) : List FillRow :=
  let rows := inner.fillsById.values.filter (fun fill => fill.account == account)
  limit.truncate (sortFillsRecentFirst rows)

/-- The comparator chain of `scan_builder_code_fills`, as the tuple it compares. -/
def builderRecentFirstKey (row : BuilderAttributionRow) : UInt64ᵒᵈ ×ₗ Text :=
  toLex (toDual row.timestampUs, ⟨row.fillId⟩)

def scanBuilderCodeFills (inner : MemoryEngine) (builderAddr : String) (limit : Limit) :
    List BuilderAttributionRow :=
  let rows := inner.builderAttributionsByFill.values.filter
    (fun row => row.builderAddr == builderAddr)
  limit.truncate (sortOn builderRecentFirstKey rows)

def getBuilderCodeVolume (inner : MemoryEngine) (builderAddr : String) (window : TimeWindow) :
    Except Fault (Option BuilderVolumeRow) := do
  let rows := inner.builderAttributionsByFill.values.filter
    (fun row => row.builderAddr == builderAddr)
  -- of all networks and packages, not of the builder's
  let checkpointTs := latestTimestamp
    (inner.checkpoints.values.map IngestCheckpoint.lastProcessedTimestampUs)
  if rows.isEmpty then return none
  return some (← builderVolumeRow builderAddr window rows checkpointTs)

/-- The comparator chain of `scan_market_activity`. Rows that it does not tell apart keep the
order they were put in. -/
def activityRecentFirstKey (row : ActivityRow) : UInt64ᵒᵈ ×ₗ UInt64 ×ₗ UInt32 :=
  toLex (toDual row.timestampUs, toLex (row.version, row.eventIdx))

def scanMarketActivity (inner : MemoryEngine) (marketId : String) (limit : Limit) :
    List ActivityRow :=
  let rows := inner.activities.filter (fun activity => activity.marketId == marketId)
  limit.truncate (sortOn activityRecentFirstKey rows)

/-- `stats`, each length cast to `u64`. -/
def stats (inner : MemoryEngine) : StorageStats where
  txCount := UInt64.ofNat inner.txByVersion.size
  eventCount := UInt64.ofNat inner.eventsByVersionIdx.size
  fillCount := UInt64.ofNat inner.fillsById.size
  orderCount := UInt64.ofNat inner.ordersById.size
  positionCount := UInt64.ofNat inner.positionsByAccountMarket.size
  builderAttributionCount := UInt64.ofNat inner.builderAttributionsByFill.size
  checkpointCount := UInt64.ofNat inner.checkpoints.size

/-! ## Checksums -/

section Checksums

variable (json : SerdeJson) (sha256 : Bytes → Bytes)

/-- `checksum_pair` -/
def checksumPair {α : Type} (codec : Codec α) (key : Except Fault Bytes) (row : α) :
    Except Fault (Bytes × Bytes) := do
  return (← key, codec.toVec row)

/-- `checksum_cf`: sort the rows of a family by key and hash them. -/
def checksumCf (family : ColumnFamily) (rows : List (Except Fault (Bytes × Bytes))) :
    Except Fault CfChecksum := do
  let pairs ← rows.mapM id
  let pairs := sortOn Prod.fst pairs
  let hash := pairs.foldl (fun hash pair => updateChecksum hash pair.1 pair.2) []
  return {
    cfName := family.cfName
    rowCount := UInt64.ofNat pairs.length
    hashHex := hexLower (sha256 hash) }

/-- The rows of a family as `checksums` feeds them to `checksum_cf`: keys rebuilt from the
typed maps, in map order. -/
def familyRows (inner : MemoryEngine) : ColumnFamily → List (Except Fault (Bytes × Bytes))
  | .txByVersion => inner.txByVersion.entries.map (fun (version, row) =>
      checksumPair json.tx (.ok (Key.txByVersion version)) row)
  | .rawEventByVersionIdx => inner.eventsByVersionIdx.entries.map (fun (key, row) =>
      checksumPair json.event
        (.ok (Key.rawEventByVersionIdx (ofLex key).1 (ofLex key).2)) row)
  | .fillsByMarketTime => inner.fillsById.values.map (fun row =>
      checksumPair json.fill
        (Key.fillsByMarketTime row.marketId row.timestampUs row.version row.fillId) row)
  | .fillsByAccountTime => inner.fillsById.values.map (fun row =>
      checksumPair json.fill
        (Key.fillsByAccountTime row.account row.timestampUs row.marketId row.fillId) row)
  | .orderById => inner.ordersById.entries.map (fun (orderId, row) =>
      checksumPair json.order (Key.orderById orderId.str) row)
  | .positionsByAccountMarket => inner.positionsByAccountMarket.entries.map (fun (key, row) =>
      checksumPair json.position
        (Key.positionsByAccountMarket key.account key.marketId key.subaccount) row)
  | .builderCodeFills => inner.builderAttributionsByFill.values.map (fun row =>
      checksumPair json.builder
        (Key.builderCodeFills row.builderAddr row.timestampUs row.marketId row.fillId) row)
  | .marketRecentActivity => inner.activities.map (fun row =>
      checksumPair json.activity
        (Key.marketActivity row.marketId row.timestampUs row.activityType row.version
          row.eventIdx) row)
  | .ingestCheckpoint => inner.checkpoints.values.map (fun row =>
      checksumPair json.checkpoint (Key.ingestCheckpoint row.network row.packageAddress) row)

/-- `checksums`: one entry for each column family, in the order of `LOGICAL_CFS`. -/
def checksums (inner : MemoryEngine) : Except Fault (List CfChecksum) := do
  let tx ← checksumCf sha256 .txByVersion (inner.familyRows json .txByVersion)
  let event ← checksumCf sha256 .rawEventByVersionIdx
    (inner.familyRows json .rawEventByVersionIdx)
  let market ← checksumCf sha256 .fillsByMarketTime (inner.familyRows json .fillsByMarketTime)
  let account ← checksumCf sha256 .fillsByAccountTime
    (inner.familyRows json .fillsByAccountTime)
  let order ← checksumCf sha256 .orderById (inner.familyRows json .orderById)
  let position ← checksumCf sha256 .positionsByAccountMarket
    (inner.familyRows json .positionsByAccountMarket)
  let builder ← checksumCf sha256 .builderCodeFills (inner.familyRows json .builderCodeFills)
  let activity ← checksumCf sha256 .marketRecentActivity
    (inner.familyRows json .marketRecentActivity)
  let checkpoint ← checksumCf sha256 .ingestCheckpoint
    (inner.familyRows json .ingestCheckpoint)
  return [tx, event, market, account, order, position, builder, activity, checkpoint]

end Checksums

/-! ## What a run stores

Each map of the engine is the map that the writes to it leave behind, under the identity
the engine files them by. -/

def txEntry : PutOp → Option (UInt64 × TxRow)
  | .putTx tx => some (tx.version, tx)
  | _ => none

def eventEntry : PutOp → Option ((UInt64 ×ₗ UInt32) × NormalizedEvent)
  | .putEvent event => some (toLex (event.version, event.eventIdx), event)
  | _ => none

def fillEntry (op : PutOp) : Option (Text × FillRow) :=
  op.fill?.map (fun fill => (⟨fill.fillId⟩, fill))

def orderEntry : PutOp → Option (Text × OrderRow)
  | .putOrder order => some (⟨order.orderId⟩, order)
  | _ => none

def positionEntry : PutOp → Option (PositionKey × PositionRow)
  | .putPosition position => some (position.key, position)
  | _ => none

def builderEntry (op : PutOp) : Option ((Text ×ₗ Text) × BuilderAttributionRow) :=
  op.builderAttribution?.map (fun row => (toLex (⟨row.builderAddr⟩, ⟨row.fillId⟩), row))

def checkpointEntry : PutOp → Option (Text × IngestCheckpoint)
  | .putIngestCheckpoint checkpoint => some (checkpoint.key, checkpoint)
  | _ => none

section Entries

variable {ops : List PutOp}

theorem mem_fillEntries {p : Text × FillRow} (hp : p ∈ ops.filterMap fillEntry) :
    ∃ fill, .putFill fill ∈ ops ∧ p = (⟨fill.fillId⟩, fill) := by
  obtain ⟨op, hop, hentry⟩ := List.mem_filterMap.1 hp
  cases op <;> cases hentry
  exact ⟨_, hop, rfl⟩

theorem mem_orderEntries {p : Text × OrderRow} (hp : p ∈ ops.filterMap orderEntry) :
    ∃ order, .putOrder order ∈ ops ∧ p = (⟨order.orderId⟩, order) := by
  obtain ⟨op, hop, hentry⟩ := List.mem_filterMap.1 hp
  cases op <;> cases hentry
  exact ⟨_, hop, rfl⟩

theorem mem_positionEntries {p : PositionKey × PositionRow}
    (hp : p ∈ ops.filterMap positionEntry) :
    ∃ position, .putPosition position ∈ ops ∧ p = (position.key, position) := by
  obtain ⟨op, hop, hentry⟩ := List.mem_filterMap.1 hp
  cases op <;> cases hentry
  exact ⟨_, hop, rfl⟩

theorem mem_builderEntries {p : (Text ×ₗ Text) × BuilderAttributionRow}
    (hp : p ∈ ops.filterMap builderEntry) :
    ∃ row, .putBuilderAttribution row ∈ ops ∧
      p = (toLex (⟨row.builderAddr⟩, ⟨row.fillId⟩), row) := by
  obtain ⟨op, hop, hentry⟩ := List.mem_filterMap.1 hp
  cases op <;> cases hentry
  exact ⟨_, hop, rfl⟩

theorem mem_checkpointEntries {p : Text × IngestCheckpoint}
    (hp : p ∈ ops.filterMap checkpointEntry) :
    ∃ checkpoint, .putIngestCheckpoint checkpoint ∈ ops ∧ p = (checkpoint.key, checkpoint) := by
  obtain ⟨op, hop, hentry⟩ := List.mem_filterMap.1 hp
  cases op <;> cases hentry
  exact ⟨_, hop, rfl⟩

theorem mem_txEntries {p : UInt64 × TxRow} (hp : p ∈ ops.filterMap txEntry) :
    ∃ tx, .putTx tx ∈ ops ∧ p = (tx.version, tx) := by
  obtain ⟨op, hop, hentry⟩ := List.mem_filterMap.1 hp
  cases op <;> cases hentry
  exact ⟨_, hop, rfl⟩

end Entries

theorem run_concat (inner : MemoryEngine) (ops : List PutOp) (op : PutOp) :
    inner.run (ops ++ [op]) = (inner.run ops).put op := by
  simp [run]

/-- A field that every operation either leaves alone or writes one entry to holds the last
writes of a run. -/
private theorem field_run {κ ν : Type} [LinearOrder κ] (field : MemoryEngine → SortedMap κ ν)
    (entry : PutOp → Option (κ × ν)) (hempty : field empty = .empty)
    (hput : ∀ inner op, field (inner.put op) =
      match entry op with
      | some p => (field inner).insert p.1 p.2
      | none => field inner)
    (ops : List PutOp) : field (empty.run ops) = SortedMap.ofList (ops.filterMap entry) := by
  -- on the last operation: it inserts its own entry or leaves the field alone
  induction ops using List.reverseRecOn with
  | nil => exact hempty
  | append_singleton ops op ih =>
    rw [run_concat, hput, ih, List.filterMap_append]
    cases hentry : entry op with
    | none => simp [hentry]
    | some p => simp [hentry, SortedMap.ofList_concat]

theorem txByVersion_run (ops : List PutOp) :
    (empty.run ops).txByVersion = SortedMap.ofList (ops.filterMap txEntry) :=
  field_run txByVersion txEntry rfl (fun _ op => by cases op <;> rfl) ops

theorem eventsByVersionIdx_run (ops : List PutOp) :
    (empty.run ops).eventsByVersionIdx = SortedMap.ofList (ops.filterMap eventEntry) :=
  field_run eventsByVersionIdx eventEntry rfl (fun _ op => by cases op <;> rfl) ops

theorem fillsById_run (ops : List PutOp) :
    (empty.run ops).fillsById = SortedMap.ofList (ops.filterMap fillEntry) :=
  field_run fillsById fillEntry rfl (fun _ op => by cases op <;> rfl) ops

theorem ordersById_run (ops : List PutOp) :
    (empty.run ops).ordersById = SortedMap.ofList (ops.filterMap orderEntry) :=
  field_run ordersById orderEntry rfl (fun _ op => by cases op <;> rfl) ops

theorem positionsByAccountMarket_run (ops : List PutOp) :
    (empty.run ops).positionsByAccountMarket =
      SortedMap.ofList (ops.filterMap positionEntry) :=
  field_run positionsByAccountMarket positionEntry rfl (fun _ op => by cases op <;> rfl) ops

theorem builderAttributionsByFill_run (ops : List PutOp) :
    (empty.run ops).builderAttributionsByFill =
      SortedMap.ofList (ops.filterMap builderEntry) :=
  field_run builderAttributionsByFill builderEntry rfl (fun _ op => by cases op <;> rfl) ops

theorem checkpoints_run (ops : List PutOp) :
    (empty.run ops).checkpoints = SortedMap.ofList (ops.filterMap checkpointEntry) :=
  field_run checkpoints checkpointEntry rfl (fun _ op => by cases op <;> rfl) ops

theorem activities_run (ops : List PutOp) :
    (empty.run ops).activities = ops.filterMap PutOp.activity? := by
  induction ops using List.reverseRecOn with
  | nil => rfl
  | append_singleton ops op ih =>
    -- every activity is kept, those of fills and those that are put as such
    have hput : ∀ inner : MemoryEngine,
        (inner.put op).activities = inner.activities ++ op.activity?.toList := by
      intro inner
      cases op <;> simp [put, putTx, putEvent, putFill, putOrder, putPosition,
        putBuilderAttribution, putActivity, putIngestCheckpoint, PutOp.activity?]
    rw [run_concat, hput, ih, List.filterMap_append]
    cases h : op.activity? <;> simp [h]

end MemoryEngine

end HotIndex
