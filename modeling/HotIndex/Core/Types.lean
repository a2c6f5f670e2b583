import HotIndex.Lib.ByteString

/-!
# Rows, Checkpoints and Errors

The data that the storage engines, the event parser and the dataset tools share:
`crates/decibel-hotindex-core`, field by field. `u64`, `u32` and `u16` are
`UInt64`, `UInt32` and `UInt16`; text is `String`, whose `asBytes` are the UTF-8
bytes that Rust's `str` compares and hashes by.
-/

namespace HotIndex

open Lib

/-! ## Text -/

/-- `str::as_bytes`: the UTF-8 bytes of a text. -/
def asBytes (text : String) : Bytes := text.toByteArray.data.toList

theorem asBytes_inj {a b : String} (h : asBytes a = asBytes b) : a = b := by
  rw [asBytes, asBytes, Array.toList_inj] at h
  exact String.toByteArray_inj.1 (ByteArray.ext h)

@[simp] theorem asBytes_append (a b : String) : asBytes (a ++ b) = asBytes a ++ asBytes b := by
  simp [asBytes, String.toByteArray_append]

/-- Text in the order of Rust's `str`: by its UTF-8 bytes. -/
structure Text where
  /-- The text itself -/
  str : String
  deriving DecidableEq, Repr

theorem Text.asBytes_str_injective : Function.Injective (fun text : Text => asBytes text.str) :=
  fun a b h => by cases a; cases b; exact congrArg Text.mk (asBytes_inj h)

instance : LinearOrder Text := LinearOrder.lift' _ Text.asBytes_str_injective

theorem Text.lt_iff (a b : Text) : a < b ↔ asBytes a.str < asBytes b.str := Iff.rfl

/-- An optional text, the absent one first: the order of Rust's `Option<String>`. -/
def optText : Option String → WithBot Text
  | none => ⊥
  | some value => ((⟨value⟩ : Text) : WithBot Text)

theorem optText_inj {a b : Option String} : optText a = optText b ↔ a = b := by
  cases a <;> cases b <;> simp [optText]

/-! ## Errors -/

/-- `error.rs`: the error of every fallible operation. -/
inductive HotIndexError where
  | config (message : String)
  | address (message : String)
  | parse (message : String)
  | storage (message : String)
  deriving DecidableEq, Repr

/-- How a call can fail to return a value: with an error, or by panicking. -/
inductive Fault where
  | error (error : HotIndexError)
  | panic (message : String)
  deriving DecidableEq, Repr

/-! ## Networks, datasets and events -/

inductive Network where
  | localnet
  | devnet
  | testnet
  | mainnet
  deriving DecidableEq, Repr

/-- `Network::as_str` -/
def Network.asStr : Network → String
  | .localnet => "local"
  | .devnet => "devnet"
  | .testnet => "testnet"
  | .mainnet => "mainnet"

theorem Network.asStr_inj {a b : Network} (h : a.asStr = b.asStr) : a = b := by
  cases a <;> cases b <;> first | rfl | exact absurd h (by decide)

structure DatasetId where
  id : String
  deriving DecidableEq, Repr

inductive DecibelEventType where
  | orderPlaced
  | orderCancelled
  | orderFilled
  | positionUpdated
  | liquidation
  | fundingPayment
  | builderFeeAttributed
  | marketCreated
  | unknown (raw : String)
  deriving DecidableEq, Repr

/-- `DecibelEventType::as_key` -/
def DecibelEventType.asKey : DecibelEventType → String
  | .orderPlaced => "order_placed"
  | .orderCancelled => "order_cancelled"
  | .orderFilled => "order_filled"
  | .positionUpdated => "position_updated"
  | .liquidation => "liquidation"
  | .fundingPayment => "funding_payment"
  | .builderFeeAttributed => "builder_fee_attributed"
  | .marketCreated => "market_created"
  | .unknown raw => "unknown:" ++ raw

inductive DecibelEventPayload where
  | rawJson (value : String)
  | unknown (rawType value : String)
  | empty
  deriving DecidableEq, Repr

/-! ## Rows -/

structure NormalizedEvent where
  network : Network
  version : UInt64
  eventIdx : UInt32
  txHash : String
  blockTimestampUs : UInt64
  eventType : DecibelEventType
  marketId : Option String
  account : Option String
  subaccount : Option String
  orderId : Option String
  builderAddr : Option String
  payload : DecibelEventPayload
  deriving DecidableEq, Repr

structure TxRow where
  network : Network
  version : UInt64
  txHash : String
  blockTimestampUs : UInt64
  eventCount : UInt32
  datasetId : Option DatasetId
  rawSummary : Option String
  deriving DecidableEq, Repr

structure FillRow where
  version : UInt64
  eventIdx : UInt32
  fillId : String
  marketId : String
  account : String
  subaccount : Option String
  orderId : Option String
  side : Option String
  price : String
  size : String
  notional : Option String
  builderAddr : Option String
  builderFeeBps : Option UInt16
  timestampUs : UInt64
  rawEventType : String
  deriving DecidableEq, Repr

structure OrderRow where
  orderId : String
  account : String
  marketId : String
  side : Option String
  price : Option String
  size : Option String
  status : Option String
  version : UInt64
  eventIdx : UInt32
  timestampUs : UInt64
  rawEventType : String
  deriving DecidableEq, Repr

structure PositionRow where
  account : String
  marketId : String
  subaccount : Option String
  size : String
  entryPrice : Option String
  sourceVersion : UInt64
  sourceEventIdx : UInt32
  timestampUs : UInt64
  deriving DecidableEq, Repr

structure BuilderAttributionRow where
  builderAddr : String
  marketId : String
  account : String
  version : UInt64
  eventIdx : UInt32
  fillId : String
  notional : Option String
  builderFeeBps : Option UInt16
  estimatedFeeAmount : Option String
  timestampUs : UInt64
  deriving DecidableEq, Repr

structure ActivityRow where
  marketId : String
  activityType : String
  version : UInt64
  eventIdx : UInt32
  timestampUs : UInt64
  summary : String
  deriving DecidableEq, Repr

structure IngestCheckpoint where
  network : Network
  packageAddress : String
  datasetId : Option DatasetId
  lastProcessedVersion : UInt64
  lastProcessedTimestampUs : UInt64
  eventsIndexed : UInt64
  fillsIndexed : UInt64
  builderAttributionsIndexed : UInt64
  deriving DecidableEq, Repr

structure StorageStats where
  txCount : UInt64
  eventCount : UInt64
  fillCount : UInt64
  orderCount : UInt64
  positionCount : UInt64
  builderAttributionCount : UInt64
  checkpointCount : UInt64
  deriving DecidableEq, Repr

structure CfChecksum where
  cfName : String
  rowCount : UInt64
  hashHex : String
  deriving DecidableEq, Repr

/-! ## Time -/

/-- `u64::MAX` -/
def u64Max : UInt64 := 0xFFFFFFFFFFFFFFFF

theorem toNat_u64Max : u64Max.toNat = 2 ^ 64 - 1 := rfl

theorem toNat_le_u64Max (n : UInt64) : n.toNat ≤ u64Max.toNat := by
  have := n.toNat_lt
  rw [toNat_u64Max]
  omega

/-- Counts below 2^64 survive the cast to `u64`. -/
theorem ofNat_eq_ofNat_iff {a b : Nat} (ha : a < UInt64.size) (hb : b < UInt64.size) :
    UInt64.ofNat a = UInt64.ofNat b ↔ a = b := by
  constructor
  · intro h
    have h := congrArg UInt64.toNat h
    rwa [UInt64.toNat_ofNat_of_lt' ha, UInt64.toNat_ofNat_of_lt' hb] at h
  · intro h
    rw [h]

/-- `reverse_ts_us`: later timestamps get smaller numbers. -/
def reverseTsUs (ts : UInt64) : UInt64 := u64Max - ts

theorem toNat_reverseTsUs (ts : UInt64) : (reverseTsUs ts).toNat = u64Max.toNat - ts.toNat :=
  UInt64.toNat_sub_of_le _ _ (UInt64.le_iff_toNat_le.2 (toNat_le_u64Max ts))

/-- `u64::saturating_sub` -/
def saturatingSub (a b : UInt64) : UInt64 := if b ≤ a then a - b else 0

/-- `u64::saturating_add` -/
def saturatingAdd (a b : UInt64) : UInt64 := if a ≤ u64Max - b then a + b else u64Max

inductive TimeWindow where
  | h24
  | d7
  deriving DecidableEq, Repr

/-- `TimeWindow::duration_us` -/
def TimeWindow.durationUs : TimeWindow → UInt64
  | .h24 => 24 * 60 * 60 * 1000000
  | .d7 => 7 * 24 * 60 * 60 * 1000000

structure BuilderVolumeRow where
  builderAddr : String
  window : TimeWindow
  windowStartTsUs : UInt64
  windowEndTsUs : UInt64
  notionalVolume : String
  trades : UInt64
  activeAccounts : UInt64
  estimatedFeeShare : Option String
  source : String
  disclaimer : String
  deriving DecidableEq, Repr

end HotIndex
