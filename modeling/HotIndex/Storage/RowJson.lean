import HotIndex.Lib.JsonWriter
import HotIndex.Storage.Engine

/-!
# The JSON of the Rows

What `serde_json::to_vec` writes for each stored row: the fields in declaration order,
without blanks. The engines are verified for every codec; this is the one they run
with, for results at concrete rows.
-/

namespace HotIndex

open Lib

/-! ## Values -/

def Network.json : Network → String
  | .localnet => "\"local\""
  | .devnet => "\"devnet\""
  | .testnet => "\"testnet\""
  | .mainnet => "\"mainnet\""

def DecibelEventType.json : DecibelEventType → String
  | .unknown raw => jsonObject [("unknown", jsonText raw)]
  | eventType => jsonText eventType.asKey

def DecibelEventPayload.json : DecibelEventPayload → String
  | .rawJson value => jsonObject [("kind", jsonText "raw_json"), ("value", jsonText value)]
  | .unknown rawType value =>
    jsonObject [("kind", jsonText "unknown"), ("raw_type", jsonText rawType),
      ("value", jsonText value)]
  | .empty => jsonObject [("kind", jsonText "empty")]

/-! ## Rows -/

def TxRow.json (tx : TxRow) : String :=
  jsonObject [
    ("network", tx.network.json),
    ("version", toString tx.version),
    ("tx_hash", jsonText tx.txHash),
    ("block_timestamp_us", toString tx.blockTimestampUs),
    ("event_count", toString tx.eventCount),
    ("dataset_id", jsonOption (fun datasetId => jsonText datasetId.id) tx.datasetId),
    ("raw_summary", jsonOption jsonText tx.rawSummary)]

def NormalizedEvent.json (event : NormalizedEvent) : String :=
  jsonObject [
    ("network", event.network.json),
    ("version", toString event.version),
    ("event_idx", toString event.eventIdx),
    ("tx_hash", jsonText event.txHash),
    ("block_timestamp_us", toString event.blockTimestampUs),
    ("event_type", event.eventType.json),
    ("market_id", jsonOption jsonText event.marketId),
    ("account", jsonOption jsonText event.account),
    ("subaccount", jsonOption jsonText event.subaccount),
    ("order_id", jsonOption jsonText event.orderId),
    ("builder_addr", jsonOption jsonText event.builderAddr),
    ("payload", event.payload.json)]

def FillRow.json (fill : FillRow) : String :=
  jsonObject [
    ("version", toString fill.version),
    ("event_idx", toString fill.eventIdx),
    ("fill_id", jsonText fill.fillId),
    ("market_id", jsonText fill.marketId),
    ("account", jsonText fill.account),
    ("subaccount", jsonOption jsonText fill.subaccount),
    ("order_id", jsonOption jsonText fill.orderId),
    ("side", jsonOption jsonText fill.side),
    ("price", jsonText fill.price),
    ("size", jsonText fill.size),
    ("notional", jsonOption jsonText fill.notional),
    ("builder_addr", jsonOption jsonText fill.builderAddr),
    ("builder_fee_bps", jsonOption toString fill.builderFeeBps),
    ("timestamp_us", toString fill.timestampUs),
    ("raw_event_type", jsonText fill.rawEventType)]

def OrderRow.json (order : OrderRow) : String :=
  jsonObject [
    ("order_id", jsonText order.orderId),
    ("account", jsonText order.account),
    ("market_id", jsonText order.marketId),
    ("side", jsonOption jsonText order.side),
    ("price", jsonOption jsonText order.price),
    ("size", jsonOption jsonText order.size),
    ("status", jsonOption jsonText order.status),
    ("version", toString order.version),
    ("event_idx", toString order.eventIdx),
    ("timestamp_us", toString order.timestampUs),
    ("raw_event_type", jsonText order.rawEventType)]

def PositionRow.json (position : PositionRow) : String :=
  jsonObject [
    ("account", jsonText position.account),
    ("market_id", jsonText position.marketId),
    ("subaccount", jsonOption jsonText position.subaccount),
    ("size", jsonText position.size),
    ("entry_price", jsonOption jsonText position.entryPrice),
    ("source_version", toString position.sourceVersion),
    ("source_event_idx", toString position.sourceEventIdx),
    ("timestamp_us", toString position.timestampUs)]

def BuilderAttributionRow.json (row : BuilderAttributionRow) : String :=
  jsonObject [
    ("builder_addr", jsonText row.builderAddr),
    ("market_id", jsonText row.marketId),
    ("account", jsonText row.account),
    ("version", toString row.version),
    ("event_idx", toString row.eventIdx),
    ("fill_id", jsonText row.fillId),
    ("notional", jsonOption jsonText row.notional),
    ("builder_fee_bps", jsonOption toString row.builderFeeBps),
    ("estimated_fee_amount", jsonOption jsonText row.estimatedFeeAmount),
    ("timestamp_us", toString row.timestampUs)]

def ActivityRow.json (row : ActivityRow) : String :=
  jsonObject [
    ("market_id", jsonText row.marketId),
    ("activity_type", jsonText row.activityType),
    ("version", toString row.version),
    ("event_idx", toString row.eventIdx),
    ("timestamp_us", toString row.timestampUs),
    ("summary", jsonText row.summary)]

def IngestCheckpoint.json (checkpoint : IngestCheckpoint) : String :=
  jsonObject [
    ("network", checkpoint.network.json),
    ("package_address", jsonText checkpoint.packageAddress),
    ("dataset_id", jsonOption (fun datasetId => jsonText datasetId.id) checkpoint.datasetId),
    ("last_processed_version", toString checkpoint.lastProcessedVersion),
    ("last_processed_timestamp_us", toString checkpoint.lastProcessedTimestampUs),
    ("events_indexed", toString checkpoint.eventsIndexed),
    ("fills_indexed", toString checkpoint.fillsIndexed),
    ("builder_attributions_indexed", toString checkpoint.builderAttributionsIndexed)]

/-! ### One line for each row -/

@[simp] theorem Network.printable_json (network : Network) : Printable network.json := by
  cases network <;> decide

@[simp] theorem DecibelEventType.printable_json (eventType : DecibelEventType) :
    Printable eventType.json := by
  cases eventType with
  | unknown raw => exact printable_jsonObject (by simp [printable_jsonText])
  | _ => exact printable_jsonText _

@[simp] theorem DecibelEventPayload.printable_json (payload : DecibelEventPayload) :
    Printable payload.json := by
  cases payload <;> exact printable_jsonObject (by simp [printable_jsonText])

@[simp] theorem printable_uInt64 (n : UInt64) : Printable (toString n) := by
  show Printable (Nat.repr n.toNat)
  rw [Nat.repr_eq_ofList_toDigits]
  exact printable_digits _

@[simp] theorem printable_uInt32 (n : UInt32) : Printable (toString n) := by
  show Printable (Nat.repr n.toNat)
  rw [Nat.repr_eq_ofList_toDigits]
  exact printable_digits _

@[simp] theorem printable_uInt16 (n : UInt16) : Printable (toString n) := by
  show Printable (Nat.repr n.toNat)
  rw [Nat.repr_eq_ofList_toDigits]
  exact printable_digits _

theorem TxRow.isJsonLine_json (tx : TxRow) : IsJsonLine tx.json := ⟨_, rfl, by simp⟩

theorem NormalizedEvent.isJsonLine_json (event : NormalizedEvent) : IsJsonLine event.json :=
  ⟨_, rfl, by simp⟩

theorem FillRow.isJsonLine_json (fill : FillRow) : IsJsonLine fill.json := ⟨_, rfl, by simp⟩

theorem OrderRow.isJsonLine_json (order : OrderRow) : IsJsonLine order.json := ⟨_, rfl, by simp⟩

theorem PositionRow.isJsonLine_json (position : PositionRow) : IsJsonLine position.json :=
  ⟨_, rfl, by simp⟩

theorem BuilderAttributionRow.isJsonLine_json (row : BuilderAttributionRow) :
    IsJsonLine row.json := ⟨_, rfl, by simp⟩

theorem ActivityRow.isJsonLine_json (row : ActivityRow) : IsJsonLine row.json := ⟨_, rfl, by simp⟩

theorem IngestCheckpoint.isJsonLine_json (checkpoint : IngestCheckpoint) :
    IsJsonLine checkpoint.json := ⟨_, rfl, by simp⟩

/-! ## Codecs -/

/-- A codec that writes rows as JSON and reads back the JSON of the given rows. -/
def Codec.ofRows {α : Type} (json : α → String) (rows : List α) : Codec α where
  toVec row := asBytes (json row)
  fromSlice bytes :=
    match rows.find? (fun row => asBytes (json row) == bytes) with
    | some row => .ok row
    | none => .error "unexpected JSON"

/-- `serde_json` at the rows of the given operations. -/
def SerdeJson.ofOps (ops : List PutOp) : SerdeJson where
  tx := .ofRows TxRow.json (ops.filterMap (fun | .putTx tx => some tx | _ => none))
  event := .ofRows NormalizedEvent.json
    (ops.filterMap (fun | .putEvent event => some event | _ => none))
  fill := .ofRows FillRow.json (ops.filterMap PutOp.fill?)
  order := .ofRows OrderRow.json (ops.filterMap (fun | .putOrder order => some order | _ => none))
  position := .ofRows PositionRow.json
    (ops.filterMap (fun | .putPosition position => some position | _ => none))
  builder := .ofRows BuilderAttributionRow.json (ops.filterMap PutOp.builderAttribution?)
  activity := .ofRows ActivityRow.json (ops.filterMap PutOp.activity?)
  checkpoint := .ofRows IngestCheckpoint.json
    (ops.filterMap (fun | .putIngestCheckpoint checkpoint => some checkpoint | _ => none))

/-- A row whose JSON is that of no other row is read back. -/
theorem Codec.ofRows_roundTrips {α : Type} {json : α → String} {rows : List α}
    (hdistinct : (rows.map json).Nodup) {row : α} (hrow : row ∈ rows) :
    (Codec.ofRows json rows).RoundTrips row := by
  -- no other row is written as the same bytes
  have hfound : rows.find? (fun other => asBytes (json other) == asBytes (json row)) =
      some row := by
    cases hfind : rows.find? (fun other => asBytes (json other) == asBytes (json row)) with
    | none => exact absurd (beq_self_eq_true _) (List.find?_eq_none.1 hfind row hrow)
    | some other =>
      have hbytes := List.find?_some hfind
      simp only [beq_iff_eq] at hbytes
      rw [List.inj_on_of_nodup_map hdistinct (List.mem_of_find?_eq_some hfind) hrow
        (asBytes_inj hbytes)]
  unfold Codec.RoundTrips Codec.ofRows
  simp only [hfound]

/-- No two rows of a kind have the same JSON. -/
def DistinctJson (ops : List PutOp) : Prop :=
  ((ops.filterMap (fun | .putTx tx => some tx | _ => none)).map TxRow.json).Nodup ∧
  ((ops.filterMap (fun | .putEvent event => some event | _ => none)).map
    NormalizedEvent.json).Nodup ∧
  ((ops.filterMap PutOp.fill?).map FillRow.json).Nodup ∧
  ((ops.filterMap (fun | .putOrder order => some order | _ => none)).map OrderRow.json).Nodup ∧
  ((ops.filterMap (fun | .putPosition position => some position | _ => none)).map
    PositionRow.json).Nodup ∧
  ((ops.filterMap PutOp.builderAttribution?).map BuilderAttributionRow.json).Nodup ∧
  ((ops.filterMap PutOp.activity?).map ActivityRow.json).Nodup ∧
  ((ops.filterMap (fun | .putIngestCheckpoint checkpoint => some checkpoint | _ => none)).map
    IngestCheckpoint.json).Nodup

instance (ops : List PutOp) : Decidable (DistinctJson ops) := inferInstanceAs (Decidable (_ ∧ _))

theorem SerdeJson.ofOps_roundTrips {ops : List PutOp} (hdistinct : DistinctJson ops) :
    ∀ op ∈ ops, (SerdeJson.ofOps ops).RoundTrips op := by
  obtain ⟨htx, hevent, hfill, horder, hposition, hbuilder, hactivity, hcheckpoint⟩ := hdistinct
  intro op hop
  cases op with
  | putTx tx => exact Codec.ofRows_roundTrips htx (List.mem_filterMap.2 ⟨_, hop, rfl⟩)
  | putEvent event => exact Codec.ofRows_roundTrips hevent (List.mem_filterMap.2 ⟨_, hop, rfl⟩)
  | putFill fill => exact Codec.ofRows_roundTrips hfill (List.mem_filterMap.2 ⟨_, hop, rfl⟩)
  | putOrder order => exact Codec.ofRows_roundTrips horder (List.mem_filterMap.2 ⟨_, hop, rfl⟩)
  | putPosition position =>
    exact Codec.ofRows_roundTrips hposition (List.mem_filterMap.2 ⟨_, hop, rfl⟩)
  | putBuilderAttribution row =>
    exact Codec.ofRows_roundTrips hbuilder (List.mem_filterMap.2 ⟨_, hop, rfl⟩)
  | putActivity row => exact Codec.ofRows_roundTrips hactivity (List.mem_filterMap.2 ⟨_, hop, rfl⟩)
  | putIngestCheckpoint checkpoint =>
    exact Codec.ofRows_roundTrips hcheckpoint (List.mem_filterMap.2 ⟨_, hop, rfl⟩)

end HotIndex
