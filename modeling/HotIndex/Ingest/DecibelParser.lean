import HotIndex.Core.Address
import HotIndex.Ingest.Json

/-!
# The Event Parser

`decibel_parser.rs`: Decibel events, from a fixture file or from a decoded transaction,
are classified by the tail of their type and turned into rows. Rows are only ever
appended to the output, event by event.
-/

namespace HotIndex

open Lib RustText

/-! ## Options, input and output -/

/-- The options that the parser reads. -/
structure ParserOptions where
  network : Network
  datasetId : DatasetId
  packageAddress : String
  orderbookAddress : String
  deriving DecidableEq, Repr

structure ParserOutput where
  txs : List TxRow := []
  events : List NormalizedEvent := []
  fills : List FillRow := []
  orders : List OrderRow := []
  positions : List PositionRow := []
  builderRows : List BuilderAttributionRow := []
  activityRows : List ActivityRow := []
  unknownEvents : List NormalizedEvent := []
  warnings : List String := []
  rawTransactionCount : UInt64 := 0
  deriving DecidableEq, Repr

structure DecibelEventInput where
  rawType : String
  data : JsonValue
  version : UInt64
  txHash : String
  blockTimestampUs : UInt64
  eventIdx : UInt32

structure TxMeta where
  version : UInt64
  txHash : String
  blockTimestampUs : UInt64
  deriving DecidableEq, Repr

/-! ## Names of the fields -/

def marketKeys : List String := ["market_id", "market", "symbol"]

def accountKeys : List String := ["account", "trader", "user", "owner"]

def orderIdKeys : List String := ["order_id", "orderId", "client_order_id"]

def builderKeys : List String := ["builder_addr", "builder_address", "builder_code", "builder"]

def fillIdKeys : List String := ["fill_id", "fillId", "trade_id"]

def subaccountKeys : List String := ["subaccount", "sub_account"]

/-! ## Classification -/

/-- `event_type_tail` -/
def eventTypeTail (rawType : String) : String := rsplitPathFirst rawType

def eventTypeLabel : DecibelEventType → String
  | .orderPlaced => "order_placed"
  | .orderCancelled => "order_cancelled"
  | .orderFilled => "order_filled"
  | .positionUpdated => "position_updated"
  | .liquidation => "liquidation"
  | .fundingPayment => "funding_payment"
  | .builderFeeAttributed => "builder_fee_attributed"
  | .marketCreated => "market_created"
  | .unknown _ => "unknown"

def classifyEventType (rawType : String) (data : JsonValue) : DecibelEventType :=
  let tail := eventTypeTail rawType
  let lowered := toAsciiLowercase tail
  -- the first test that holds decides
  if contains lowered "trade" || contains lowered "fill" then .orderFilled
  else if contains lowered "liquidation" || contains lowered "margincall" then .liquidation
  else if contains lowered "position" then .positionUpdated
  else if contains lowered "funding" then .fundingPayment
  else if contains lowered "market" then .marketCreated
  else if contains lowered "builder" && contains lowered "fee" then .builderFeeAttributed
  else if contains lowered "order" then
    let status := toAsciiLowercase ((stringField data ["status"]).getD "")
    if contains lowered "cancel" || contains status "cancel" then .orderCancelled
    else .orderPlaced
  else .unknown tail

def matchesDecibelAddress (event : JsonValue) (rawType : String) (options : ParserOptions) :
    Bool :=
  -- a parser without addresses takes every event
  if isZeroAddress options.packageAddress && isZeroAddress options.orderbookAddress then true
  else
    let candidates := splitPathFirst rawType ::
      ["package_address", "orderbook_address", "account_address", "emitting_contract"].filterMap
        (fun key => stringField event [key])
    candidates.any (fun candidate =>
      match normalizeAptosAddress candidate with
      | .ok candidate =>
        candidate == options.packageAddress || candidate == options.orderbookAddress
      | .error _ => false)

/-! ## Rows of one event -/

section Push

variable (rawType : String) (data : JsonValue) (tx : TxMeta) (eventIdx : UInt32)
  (output : ParserOutput)

/-- The fill id of an event, its place in the chain if it names none. -/
def fillIdOf : String :=
  (stringField data fillIdKeys).getD s!"fill-{tx.version}-{eventIdx}"

def maybePushFill : ParserOutput :=
  match stringField data marketKeys with
  | none => { output with
      warnings := output.warnings ++
        [s!"version {tx.version} event {eventIdx} TradeEvent missing market_id"] }
  | some marketId =>
    match stringField data accountKeys with
    | none => { output with
        warnings := output.warnings ++
          [s!"version {tx.version} event {eventIdx} TradeEvent missing account"] }
    | some account => { output with
        fills := output.fills ++ [{
          version := tx.version
          eventIdx := eventIdx
          fillId := fillIdOf data tx eventIdx
          marketId := marketId
          account := account
          subaccount := stringField data subaccountKeys
          orderId := stringField data orderIdKeys
          side := stringField data ["side"]
          price := (stringField data ["price", "limit_price"]).getD "0"
          size := (stringField data ["size", "quantity", "base_size"]).getD "0"
          notional := stringField data ["notional", "quote_size", "quote_amount"]
          builderAddr := stringField data builderKeys
          builderFeeBps := u16Field data ["builder_fee_bps", "fee_bps"]
          timestampUs := tx.blockTimestampUs
          rawEventType := eventTypeTail rawType }] }

def maybePushBuilderRow : ParserOutput :=
  match stringField data builderKeys, stringField data marketKeys,
      stringField data accountKeys with
  | some builderAddr, some marketId, some account => { output with
      builderRows := output.builderRows ++ [{
        builderAddr := builderAddr
        marketId := marketId
        account := account
        version := tx.version
        eventIdx := eventIdx
        fillId := fillIdOf data tx eventIdx
        notional := stringField data ["notional", "quote_size", "quote_amount"]
        builderFeeBps := u16Field data ["builder_fee_bps", "fee_bps"]
        estimatedFeeAmount := stringField data ["estimated_fee_amount", "builder_fee_amount"]
        timestampUs := tx.blockTimestampUs }] }
  | _, _, _ => output

def maybePushOrder (eventType : DecibelEventType) : ParserOutput :=
  match stringField data marketKeys, stringField data accountKeys with
  | some marketId, some account =>
    let orderId := (stringField data orderIdKeys).getD s!"order-{tx.version}-{eventIdx}"
    -- a status that the event names wins over its type
    let status := (stringField data ["status"]).or (match eventType with
      | .orderCancelled => some "cancelled"
      | _ => some "open")
    { output with
      orders := output.orders ++ [{
        orderId := orderId
        account := account
        marketId := marketId
        side := stringField data ["side"]
        price := stringField data ["price", "limit_price"]
        size := stringField data ["size", "quantity", "base_size"]
        status := status
        version := tx.version
        eventIdx := eventIdx
        timestampUs := tx.blockTimestampUs
        rawEventType := eventTypeTail rawType }]
      activityRows := output.activityRows ++ [{
        marketId := marketId
        activityType := "order"
        version := tx.version
        eventIdx := eventIdx
        timestampUs := tx.blockTimestampUs
        summary := orderId }] }
  | _, _ => output

def maybePushPosition : ParserOutput :=
  match stringField data marketKeys, stringField data accountKeys with
  | some marketId, some account => { output with
      positions := output.positions ++ [{
        account := account
        marketId := marketId
        subaccount := stringField data subaccountKeys
        size := (stringField data ["size", "position_size"]).getD "0"
        entryPrice := stringField data ["entry_price", "avg_entry_price"]
        sourceVersion := tx.version
        sourceEventIdx := eventIdx
        timestampUs := tx.blockTimestampUs }]
      activityRows := output.activityRows ++ [{
        marketId := marketId
        activityType := "position"
        version := tx.version
        eventIdx := eventIdx
        timestampUs := tx.blockTimestampUs
        summary := account }] }
  | _, _ => output

def maybePushActivity (eventType : DecibelEventType) : ParserOutput :=
  match stringField data marketKeys with
  | some marketId => { output with
      activityRows := output.activityRows ++ [{
        marketId := marketId
        activityType := eventTypeLabel eventType
        version := tx.version
        eventIdx := eventIdx
        timestampUs := tx.blockTimestampUs
        summary := (stringField data ["account", "trader", "user", "owner", "id"]).getD
          (eventTypeLabel eventType) }] }
  | none => output

end Push

/-! ## Events -/

section Events

variable (json : JsonText) (options : ParserOptions)

/-- The normalized event that `parse_event` records. -/
def normalizedEvent (data : JsonValue) (eventType : DecibelEventType) (tx : TxMeta)
    (eventIdx : UInt32) : NormalizedEvent where
  network := options.network
  version := tx.version
  eventIdx := eventIdx
  txHash := tx.txHash
  blockTimestampUs := tx.blockTimestampUs
  eventType := eventType
  marketId := stringField data marketKeys
  account := stringField data accountKeys
  subaccount := stringField data subaccountKeys
  orderId := stringField data orderIdKeys
  builderAddr := stringField data builderKeys
  payload := .rawJson (json.toString data)

/-- The event itself, and the note of an event of unknown type. -/
def recordEvent (rawType : String) (lineNo : Nat) (normalized : NormalizedEvent)
    (output : ParserOutput) : ParserOutput :=
  let output := match normalized.eventType with
    | .unknown _ => { output with
        warnings := output.warnings ++ [s!"line {lineNo} version {normalized.version} " ++
          s!"event {normalized.eventIdx} unknown event type {rawType}"]
        unknownEvents := output.unknownEvents ++ [normalized] }
    | _ => output
  { output with events := output.events ++ [normalized] }

/-- The rows that an event of each type adds. -/
def pushRows (rawType : String) (data : JsonValue) (eventType : DecibelEventType) (tx : TxMeta)
    (eventIdx : UInt32) (output : ParserOutput) : ParserOutput :=
  match eventType with
  | .orderFilled =>
    maybePushBuilderRow data tx eventIdx (maybePushFill rawType data tx eventIdx output)
  | .orderPlaced | .orderCancelled => maybePushOrder rawType data tx eventIdx output eventType
  | .positionUpdated => maybePushPosition data tx eventIdx output
  | .liquidation | .fundingPayment | .marketCreated | .builderFeeAttributed =>
    maybePushActivity data tx eventIdx output eventType
  | .unknown _ => output

def parseEvent (event : JsonValue) (tx : TxMeta) (fallbackEventIdx : UInt32) (lineNo : Nat)
    (output : ParserOutput) : Except HotIndexError ParserOutput :=
  match stringField event ["type", "event_type", "raw_event_type"] with
  | none => .error (.parse s!"fixture jsonl line {lineNo}: missing event type")
  | some rawType =>
    let eventIdx := (u32Field event ["event_idx", "event_index"]).getD fallbackEventIdx
    let data := ((event.get "data").or (event.get "payload")).getD (.object [])
    -- an event of another contract leaves no trace, not even a warning
    if !matchesDecibelAddress event rawType options then .ok output
    else
      let eventType := classifyEventType rawType data
      let normalized := normalizedEvent json options data eventType tx eventIdx
      .ok (pushRows rawType data eventType tx eventIdx
        (recordEvent rawType lineNo normalized output))

/-- `parse_decibel_event_from_parts`, through the JSON event it builds. -/
def parseDecibelEventFromParts (input : DecibelEventInput) (output : ParserOutput) :
    Except HotIndexError ParserOutput :=
  let event := JsonValue.object [
    ("event_idx", .number (.posInt (UInt64.ofNat input.eventIdx.toNat))),
    ("type", .string input.rawType),
    ("data", input.data)]
  let tx : TxMeta := {
    version := input.version
    txHash := input.txHash
    blockTimestampUs := input.blockTimestampUs }
  parseEvent json options event tx input.eventIdx 0 output

/-! ## Fixture files -/

def txMeta (value : JsonValue) (lineNo : Nat) : Except HotIndexError TxMeta :=
  match u64Field value ["version", "transaction_version"] with
  | none => .error (.parse s!"fixture jsonl line {lineNo}: missing transaction version")
  | some version => .ok {
      version := version
      txHash := (stringField value ["tx_hash", "transaction_hash"]).getD
        ("0x" ++ hexPadded 64 version.toNat)
      blockTimestampUs := (u64Field value ["block_timestamp_us", "timestamp_us"]).getD 0 }

/-- The loop over the events of one line. -/
def parseEvents (tx : TxMeta) (lineNo : Nat) (events : List JsonValue) (idx : Nat)
    (output : ParserOutput) : Except HotIndexError ParserOutput :=
  match events with
  | [] => .ok output
  | event :: rest => do
    let output ← parseEvent json options event tx (UInt32.ofNat idx) lineNo output
    parseEvents tx lineNo rest (idx + 1) output

def parseFixtureLine (value : JsonValue) (lineNo : Nat) (output : ParserOutput) :
    Except HotIndexError ParserOutput := do
  let tx ← txMeta value lineNo
  let before := output.events.length
  let output ← match (value.get "events").bind JsonValue.asArray with
    | some events => parseEvents json options tx lineNo events 0 output
    -- a line without an array of events is itself one event
    | none => parseEvent json options value tx 0 lineNo output
  let included := output.events.length - before
  if included > 0 then
    return { output with
      rawTransactionCount := output.rawTransactionCount + 1
      txs := output.txs ++ [{
        network := options.network
        version := tx.version
        txHash := tx.txHash
        blockTimestampUs := tx.blockTimestampUs
        eventCount := UInt32.ofNat included
        datasetId := some options.datasetId
        rawSummary := some s!"fixture transaction with {included} Decibel event(s)" }] }
  else return output

/-- `BufRead::lines` on characters: a line ends at a newline, which a carriage return may
precede, or at the end of the input. -/
def splitLines (current : List Char) : List Char → List String
  | [] => if current.isEmpty then [] else [String.ofList current.reverse]
  | '\n' :: rest =>
    let line := match current with
      | '\r' :: line => line
      | line => line
    String.ofList line.reverse :: splitLines [] rest
  | c :: rest => splitLines (c :: current) rest

/-- The loop of `parse_fixture_jsonl_reader`; lines are numbered from one. -/
def parseFixtureLines (lines : List String) (lineNo : Nat) (output : ParserOutput) :
    Except HotIndexError ParserOutput :=
  match lines with
  | [] => .ok output
  | line :: rest =>
    if (trim line).isEmpty then parseFixtureLines rest (lineNo + 1) output
    else
      match json.fromStr line with
      | .error message => .error (.parse s!"fixture jsonl line {lineNo}: {message}")
      | .ok value => do
        let output ← parseFixtureLine json options value lineNo output
        parseFixtureLines rest (lineNo + 1) output

def parseFixtureJsonlStr (input : String) : Except HotIndexError ParserOutput :=
  parseFixtureLines json options (splitLines [] input.toList) 1 {}

/-! ## Files of one line -/

/-- Without a newline, there is one line. -/
theorem splitLines_of_notMem {letters : List Char} (hline : '\n' ∉ letters)
    (current : List Char) (hne : current ++ letters ≠ []) :
    splitLines current letters = [String.ofList (current.reverse ++ letters)] := by
  -- letters move to the current line until the text ends
  induction letters generalizing current with
  | nil =>
    rw [List.append_nil] at hne
    rw [splitLines, if_neg (by simpa using hne), List.append_nil]
  | cons c rest ih =>
    rw [List.mem_cons, not_or] at hline
    have hc : c ≠ '\n' := Ne.symm hline.1
    rw [splitLines.eq_def]
    split
    · simp_all
    · simp_all
    · rename_i c' rest' _ heq
      obtain ⟨rfl, rfl⟩ := List.cons.inj heq
      rw [ih hline.2 _ (by simp), List.reverse_cons, List.append_assoc]
      rfl

/-- The compact text of a value without blanks is one line. -/
theorem splitLines_text {value : JsonValue} (hne : value.letters ≠ [])
    (hplain : value.letters.all (fun c => !isWhitespace c) = true) :
    splitLines [] value.text.toList = [value.text] ∧ (trim value.text).isEmpty = false := by
  have hletter : ∀ c ∈ value.letters, isWhitespace c = false := by simpa using hplain
  have htext : value.text = String.ofList value.letters := by
    rw [← value.toList_text, String.ofList_toList]
  constructor
  · rw [value.toList_text, htext]
    refine splitLines_of_notMem (fun hmem => ?_) [] (by simpa using hne)
    exact absurd (hletter _ hmem) (by decide)
  · rw [htext, trim_eq_self (fun c hc => hletter c (List.mem_of_mem_head? hc))
      (fun c hc => hletter c (List.mem_of_mem_getLast? hc))]
    simpa using hne

/-- A file of one line is read as this line. -/
theorem parseFixtureJsonlStr_line {input : String} {value : JsonValue}
    (hlines : splitLines [] input.toList = [input]) (htrim : (trim input).isEmpty = false)
    (hvalue : json.fromStr input = .ok value) :
    parseFixtureJsonlStr json options input = parseFixtureLine json options value 1 {} := by
  unfold parseFixtureJsonlStr
  rw [hlines, parseFixtureLines, htrim, if_neg (by simp), hvalue]
  cases hline : parseFixtureLine json options value 1 {} with
  | error error => simp only [hline]; rfl
  | ok output => simp only [hline]; rfl

end Events

end HotIndex
