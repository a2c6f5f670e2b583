import HotIndex.Lib.Fallible
import HotIndex.Storage.Key

/-!
# The Storage Contract

What the two engines share: the column families (`lib.rs`), the eight `put_*`
operations of the `StorageEngine` trait as data (`engine.rs`), the row codec, scan
limits, and the byte stream that a column family is hashed as.

`serde_json` and SHA-256 are parameters: a codec gives every row its bytes, and the
digest is some function of the hashed bytes.
-/

namespace HotIndex

open Lib

/-! ## Column families -/

/-- The column families of `LOGICAL_CFS`. -/
inductive ColumnFamily where
  | txByVersion
  | rawEventByVersionIdx
  | fillsByMarketTime
  | fillsByAccountTime
  | orderById
  | positionsByAccountMarket
  | builderCodeFills
  | marketRecentActivity
  | ingestCheckpoint
  deriving DecidableEq, Repr

/-- The `CF_*` constants. -/
def ColumnFamily.cfName : ColumnFamily → String
  | .txByVersion => "cf_tx_by_version"
  | .rawEventByVersionIdx => "cf_raw_event_by_version_idx"
  | .fillsByMarketTime => "cf_fills_by_market_time"
  | .fillsByAccountTime => "cf_fills_by_account_time"
  | .orderById => "cf_order_by_id"
  | .positionsByAccountMarket => "cf_positions_by_account_market"
  | .builderCodeFills => "cf_builder_code_fills"
  | .marketRecentActivity => "cf_market_recent_activity"
  | .ingestCheckpoint => "cf_ingest_checkpoint"

/-- `LOGICAL_CFS` -/
def logicalCfs : List ColumnFamily :=
  [.txByVersion, .rawEventByVersionIdx, .fillsByMarketTime, .fillsByAccountTime, .orderById,
    .positionsByAccountMarket, .builderCodeFills, .marketRecentActivity, .ingestCheckpoint]

/-! ## Operations -/

/-- A write operation of the `StorageEngine` trait, with its row. -/
inductive PutOp where
  | putTx (tx : TxRow)
  | putEvent (event : NormalizedEvent)
  | putFill (fill : FillRow)
  | putOrder (order : OrderRow)
  | putPosition (position : PositionRow)
  | putBuilderAttribution (row : BuilderAttributionRow)
  | putActivity (row : ActivityRow)
  | putIngestCheckpoint (checkpoint : IngestCheckpoint)
  deriving DecidableEq, Repr

/-- The activity row that both engines derive from a fill. -/
def FillRow.activity (fill : FillRow) : ActivityRow where
  marketId := fill.marketId
  activityType := "fill"
  version := fill.version
  eventIdx := fill.eventIdx
  timestampUs := fill.timestampUs
  summary := fill.fillId

/-- The text key fields of an operation: those that its engine keys are built from. -/
def PutOp.keyTexts : PutOp → List String
  | .putTx _ => []
  | .putEvent _ => []
  | .putFill fill => [fill.marketId, fill.account, fill.fillId]
  | .putOrder order => [order.orderId]
  | .putPosition position =>
    [position.account, position.marketId] ++ position.subaccount.toList
  | .putBuilderAttribution row => [row.builderAddr, row.marketId, row.fillId]
  | .putActivity row => [row.marketId, row.activityType]
  | .putIngestCheckpoint checkpoint => [checkpoint.packageAddress]

/-- No text key field of the operation contains `0x00`. -/
def PutOp.TextOk (op : PutOp) : Prop := ∀ text ∈ op.keyTexts, Key.TextOk text

instance (op : PutOp) : Decidable op.TextOk :=
  inferInstanceAs (Decidable (∀ text ∈ op.keyTexts, Key.TextOk text))

/-- The fill an operation puts. -/
def PutOp.fill? : PutOp → Option FillRow
  | .putFill fill => some fill
  | _ => none

/-- The builder attribution an operation puts. -/
def PutOp.builderAttribution? : PutOp → Option BuilderAttributionRow
  | .putBuilderAttribution row => some row
  | _ => none

/-- The activity row an operation stores, put or derived. -/
def PutOp.activity? : PutOp → Option ActivityRow
  | .putFill fill => some fill.activity
  | .putActivity row => some row
  | _ => none

/-! ## Row codec -/

/-- `serde_json::to_vec` and `serde_json::from_slice` at one type. -/
structure Codec (α : Type) where
  toVec : α → Bytes
  fromSlice : Bytes → Except String α

/-- `serde_json` at the stored row types. -/
structure SerdeJson where
  tx : Codec TxRow
  event : Codec NormalizedEvent
  fill : Codec FillRow
  order : Codec OrderRow
  position : Codec PositionRow
  builder : Codec BuilderAttributionRow
  activity : Codec ActivityRow
  checkpoint : Codec IngestCheckpoint

/-- Decoding undoes encoding at one value. -/
def Codec.RoundTrips {α : Type} (codec : Codec α) (a : α) : Prop :=
  codec.fromSlice (codec.toVec a) = .ok a

/-- Decoding undoes encoding at the row of an operation. -/
def SerdeJson.RoundTrips (json : SerdeJson) : PutOp → Prop
  | .putTx tx => json.tx.RoundTrips tx
  | .putEvent event => json.event.RoundTrips event
  | .putFill fill => json.fill.RoundTrips fill
  | .putOrder order => json.order.RoundTrips order
  | .putPosition position => json.position.RoundTrips position
  | .putBuilderAttribution row => json.builder.RoundTrips row
  | .putActivity row => json.activity.RoundTrips row
  | .putIngestCheckpoint checkpoint => json.checkpoint.RoundTrips checkpoint

instance {α : Type} [DecidableEq α] (codec : Codec α) (a : α) : Decidable (codec.RoundTrips a) :=
  inferInstanceAs (Decidable (_ = _))

instance (json : SerdeJson) : (op : PutOp) → Decidable (json.RoundTrips op)
  | .putTx tx => inferInstanceAs (Decidable (json.tx.RoundTrips tx))
  | .putEvent event => inferInstanceAs (Decidable (json.event.RoundTrips event))
  | .putFill fill => inferInstanceAs (Decidable (json.fill.RoundTrips fill))
  | .putOrder order => inferInstanceAs (Decidable (json.order.RoundTrips order))
  | .putPosition position => inferInstanceAs (Decidable (json.position.RoundTrips position))
  | .putBuilderAttribution row => inferInstanceAs (Decidable (json.builder.RoundTrips row))
  | .putActivity row => inferInstanceAs (Decidable (json.activity.RoundTrips row))
  | .putIngestCheckpoint checkpoint =>
    inferInstanceAs (Decidable (json.checkpoint.RoundTrips checkpoint))

/-- `json_error` -/
def jsonError (message : String) : Fault := .error (.parse message)

/-- Decode a stored value; a decode error is a parse error. -/
def Codec.decode {α : Type} (codec : Codec α) (value : Bytes) : Except Fault α :=
  match codec.fromSlice value with
  | .ok row => .ok row
  | .error message => .error (jsonError message)

theorem Codec.decode_toVec {α : Type} {codec : Codec α} {a : α} (h : codec.RoundTrips a) :
    codec.decode (codec.toVec a) = .ok a := by
  unfold Codec.decode
  rw [show codec.fromSlice (codec.toVec a) = .ok a from h]

/-! ## Scan limits -/

/-- A row limit `usize`. `max` is `usize::MAX`: a `Vec` of rows never gets that long. -/
inductive Limit where
  | rows (count : Nat)
  | max
  deriving DecidableEq, Repr

/-- `len >= limit` -/
def Limit.reached (limit : Limit) (len : Nat) : Bool :=
  match limit with
  | .rows count => count ≤ len
  | .max => false

/-- `Vec::truncate` -/
def Limit.truncate {α : Type} (limit : Limit) (rows : List α) : List α :=
  match limit with
  | .rows count => rows.take count
  | .max => rows

theorem Limit.map_truncate {α β : Type} (limit : Limit) (f : α → β) (rows : List α) :
    (limit.truncate rows).map f = limit.truncate (rows.map f) := by
  cases limit with
  | rows count => exact List.map_take
  | max => rfl

theorem Limit.mem_of_mem_truncate {α : Type} {limit : Limit} {rows : List α} {row : α}
    (h : row ∈ limit.truncate rows) : row ∈ rows := by
  cases limit with
  | rows count => exact List.mem_of_mem_take h
  | max => exact h

/-! ## Hashing a column family -/

/-- `update_checksum`: extend the hashed bytes by one length-prefixed row. -/
def updateChecksum (hash : Bytes) (key value : Bytes) : Bytes :=
  hash ++ Key.beU64 (UInt64.ofNat key.length) ++ key
    ++ Key.beU64 (UInt64.ofNat value.length) ++ value

/-- A lowercase hexadecimal digit. -/
def hexDigit (n : Nat) : Char := if n < 10 then Char.ofNat (48 + n) else Char.ofNat (87 + n)

/-- `hex_lower` -/
def hexLower (bytes : Bytes) : String :=
  String.ofList (bytes.flatMap (fun b => [hexDigit (b.toNat / 16), hexDigit (b.toNat % 16)]))

end HotIndex
