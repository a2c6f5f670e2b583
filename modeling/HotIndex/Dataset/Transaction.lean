import HotIndex.Ingest.DecibelParser

/-!
# Recorded Transactions

A protobuf `Transaction`, as far as the dataset tools read it, and the rows that the
normalizer makes of it.
-/

namespace HotIndex

open Lib RustText

/-! ## The message -/

structure ProtoEvent where
  typeStr : String
  data : String
  deriving DecidableEq, Repr

structure Timestamp where
  seconds : Int64
  nanos : Int32
  deriving DecidableEq, Repr

/-- `TxnData`, with the events of the kinds that have some. -/
inductive TxnData where
  | blockMetadata (events : List ProtoEvent)
  | genesis (events : List ProtoEvent)
  | stateCheckpoint
  | user (events : List ProtoEvent)
  | validator (events : List ProtoEvent)
  | blockEpilogue
  deriving DecidableEq, Repr

structure Transaction where
  version : UInt64
  /-- The hash of the transaction info, if there is an info -/
  infoHash : Option Bytes
  timestamp : Option Timestamp
  type : Int32
  epoch : UInt64
  blockHeight : UInt64
  txnData : Option TxnData
  deriving DecidableEq, Repr

namespace Transaction

/-- `bytes_to_hex` -/
def bytesToHex (bytes : Bytes) : String :=
  String.ofList (bytes.flatMap (fun byte =>
    [Nat.digitChar (byte.toNat / 16), Nat.digitChar (byte.toNat % 16)]))

def hashHex (transaction : Transaction) : String :=
  match transaction.infoHash.filter (fun hash => !hash.isEmpty) with
  | some hash => "0x" ++ bytesToHex hash
  | none => "0x" ++ hexPadded 64 transaction.version.toNat

/-- `transaction_timestamp_us`, in the wrapping arithmetic of a release build. -/
def timestampUs (transaction : Transaction) : UInt64 :=
  match transaction.timestamp with
  | none => 0
  | some timestamp =>
    if timestamp.seconds.toInt < 0 ∨ timestamp.nanos.toInt < 0 then 0
    else UInt64.ofNat timestamp.seconds.toInt.toNat * 1000000 +
      UInt64.ofNat timestamp.nanos.toInt.toNat / 1000

/-- `count.try_into().unwrap_or(u32::MAX)` -/
def clampU32 (count : Nat) : UInt32 :=
  if count < UInt32.size then UInt32.ofNat count else 0xFFFFFFFF

/-- `transaction_event_count` -/
def eventCount (transaction : Transaction) : UInt32 :=
  clampU32 (match transaction.txnData with
    | some (.blockMetadata events) => events.length
    | some (.genesis events) => events.length
    | some (.user events) => events.length
    | some (.validator events) => events.length
    | some .stateCheckpoint | some .blockEpilogue | none => 0)

/-- `protobuf_transaction_events` -/
def events (transaction : Transaction) : List ProtoEvent :=
  match transaction.txnData with
  | some (.blockMetadata events) => events
  | some (.genesis events) => events
  | some (.user events) => events
  | _ => []

end Transaction

/-! ## Its rows -/

/-- `tx_row_from_transaction` -/
def txRowFromTransaction (transaction : Transaction) (options : ParserOptions) : TxRow where
  network := options.network
  version := transaction.version
  txHash := transaction.hashHex
  blockTimestampUs := transaction.timestampUs
  eventCount := transaction.eventCount
  datasetId := some options.datasetId
  rawSummary := some (s!"aptos_transaction_type={transaction.type} epoch={transaction.epoch} " ++
    s!"block_height={transaction.blockHeight}")

section Events

variable (json : JsonText) (options : ParserOptions)

/-- `parse_protobuf_event_data` -/
def parseProtobufEventData (event : ProtoEvent) : Except HotIndexError JsonValue :=
  if (trim event.data).isEmpty then .ok (.object [])
  else
    match json.fromStr event.data with
    | .ok value => .ok value
    | .error message =>
      .error (.parse s!"protobuf event {event.typeStr} data is not JSON: {message}")

/-- The loop of `parse_protobuf_decibel_events` from the event at position `idx` on. -/
def parseProtobufEventsFrom (transaction : Transaction) (idx : Nat) (output : ParserOutput) :
    List ProtoEvent → Except HotIndexError ParserOutput
  | [] => .ok output
  | event :: rest => do
    let data ← parseProtobufEventData json event
    let output ← parseDecibelEventFromParts json options {
      rawType := event.typeStr
      data := data
      version := transaction.version
      txHash := transaction.hashHex
      blockTimestampUs := transaction.timestampUs
      eventIdx := Transaction.clampU32 idx } output
    parseProtobufEventsFrom transaction (idx + 1) output rest

def parseProtobufDecibelEvents (transaction : Transaction) (output : ParserOutput) :
    Except HotIndexError ParserOutput :=
  parseProtobufEventsFrom json options transaction 0 output transaction.events

end Events

end HotIndex
