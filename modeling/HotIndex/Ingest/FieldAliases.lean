import HotIndex.Ingest.TakenEvents
import Mathlib.Tactic

/-!
# Fields Under Several Names

`string_field` looks a field up under a list of names. It settles on the first name that is
present and only then looks at the value, so a null, an array or an object under an early name
hides the value under a later one. A trade whose market or account is hidden this way becomes
no fill, and the warning says that the field is missing (`emitsFill_iff`).
-/

namespace HotIndex

open Lib

/-! ## Usable values -/

/-- The text of a string, a number or a boolean. -/
def JsonValue.scalarText : JsonValue → Option String
  | .string value => some value
  | .number value => some value.display
  | .bool value => some (toString value)
  | .null | .array _ | .object _ => none

/-- What the first alias says that holds a string, a number or a boolean, in list order. -/
def firstUsable (data : JsonValue) (keys : List String) : Option String :=
  keys.findSome? fun key => (data.get key).bind JsonValue.scalarText

/-- The first alias that is present holds a string, a number or a boolean. -/
def FirstPresentUsable (data : JsonValue) (keys : List String) : Prop :=
  ∀ field, keys.findSome? data.get = some field → field.scalarText.isSome

/-- `string_field` reads the first alias that is present. -/
theorem stringField_eq_bind (data : JsonValue) (keys : List String) :
    stringField data keys = (keys.findSome? data.get).bind JsonValue.scalarText := by
  unfold stringField
  cases keys.findSome? data.get with
  | none => rfl
  | some field => cases field <;> rfl

/-- Where the first alias that is present is usable, it is the first usable one. -/
theorem stringField_eq_firstUsable {data : JsonValue} {keys : List String}
    (hfirst : FirstPresentUsable data keys) : stringField data keys = firstUsable data keys := by
  rw [stringField_eq_bind]
  unfold firstUsable
  induction keys with
  | nil => rfl
  | cons key keys ih =>
    cases hfield : data.get key with
    | none =>
      -- the name is absent: both go on to the next
      have hrest : FirstPresentUsable data keys := by
        intro field hfound
        exact hfirst field (by rw [List.findSome?_cons, hfield, hfound])
      rw [List.findSome?_cons, List.findSome?_cons, hfield]
      exact ih hrest
    | some field =>
      have husable : field.scalarText.isSome :=
        hfirst field (by rw [List.findSome?_cons, hfield])
      obtain ⟨text, htext⟩ := Option.isSome_iff_exists.1 husable
      rw [List.findSome?_cons, List.findSome?_cons, hfield]
      simp [htext]

/-- An alias that is present without a usable value hides all aliases behind it. -/
theorem stringField_eq_none {data : JsonValue} {keys : List String}
    (hfirst : ¬ FirstPresentUsable data keys) : stringField data keys = none := by
  unfold FirstPresentUsable at hfirst
  push Not at hfirst
  obtain ⟨field, hfield, hunusable⟩ := hfirst
  rw [stringField_eq_bind, hfield]
  simpa using hunusable

/-! ## The fills of an event -/

/-- The data of an event. -/
def eventData (event : JsonValue) : JsonValue :=
  ((event.get "data").or (event.get "payload")).getD (.object [])

/-- A trade event that the parser takes and whose data names a market and an account. -/
structure UsableTrade (options : ParserOptions) (event : JsonValue)
    (marketId account : String) : Prop where
  trade : ∃ rawType,
    stringField event ["type", "event_type", "raw_event_type"] = some rawType ∧
      matchesDecibelAddress event rawType options = true ∧
      classifyEventType rawType (eventData event) = .orderFilled
  market : firstUsable (eventData event) marketKeys = some marketId
  account : firstUsable (eventData event) accountKeys = some account

section Fills

variable (rawType : String) (data : JsonValue) (tx : TxMeta) (eventIdx : UInt32)
  (output : ParserOutput)

theorem recordEvent_fills (lineNo : Nat) (normalized : NormalizedEvent) :
    (recordEvent rawType lineNo normalized output).fills = output.fills := by
  unfold recordEvent
  split <;> rfl

theorem maybePushBuilderRow_fills :
    (maybePushBuilderRow data tx eventIdx output).fills = output.fills := by
  unfold maybePushBuilderRow
  split <;> rfl

/-- A market and an account make one fill. -/
theorem maybePushFill_fills {marketId account : String}
    (hmarket : stringField data marketKeys = some marketId)
    (haccount : stringField data accountKeys = some account) :
    ∃ fill, (maybePushFill rawType data tx eventIdx output).fills = output.fills ++ [fill] ∧
      fill.marketId = marketId ∧ fill.account = account := by
  unfold maybePushFill
  rw [hmarket, haccount]
  exact ⟨_, rfl, rfl, rfl⟩

/-- Without one of them there is no fill. -/
theorem maybePushFill_fills_of_none
    (hnone : stringField data marketKeys = none ∨ stringField data accountKeys = none) :
    (maybePushFill rawType data tx eventIdx output).fills = output.fills := by
  unfold maybePushFill
  rcases hnone with hmarket | haccount
  · rw [hmarket]
  · rw [haccount]
    split <;> rfl

end Fills

section Parse

variable (json : JsonText) (options : ParserOptions) (event : JsonValue) (tx : TxMeta)
  (fallbackEventIdx : UInt32) (lineNo : Nat) (output : ParserOutput)

/-- The event becomes exactly one fill, with this market and this account. -/
def EmitsFill (marketId account : String) : Prop :=
  ∃ output' fill, parseEvent json options event tx fallbackEventIdx lineNo output = .ok output' ∧
    output'.fills = output.fills ++ [fill] ∧ fill.marketId = marketId ∧ fill.account = account

/-- The fills of a trade event are those of `maybe_push_fill`. -/
theorem parseEvent_trade {rawType : String}
    (htype : stringField event ["type", "event_type", "raw_event_type"] = some rawType)
    (hmatches : matchesDecibelAddress event rawType options = true)
    (hclass : classifyEventType rawType (eventData event) = .orderFilled) :
    ∃ output' recorded eventIdx,
      parseEvent json options event tx fallbackEventIdx lineNo output = .ok output' ∧
      recorded.fills = output.fills ∧
      output'.fills = (maybePushFill rawType (eventData event) tx eventIdx recorded).fills := by
  let eventIdx := (u32Field event ["event_idx", "event_index"]).getD fallbackEventIdx
  let recorded := recordEvent rawType lineNo
    (normalizedEvent json options (eventData event) .orderFilled tx eventIdx) output
  -- the event is recorded and its rows pushed, whatever index it has
  have hparse : parseEvent json options event tx fallbackEventIdx lineNo output =
      .ok (pushRows rawType (eventData event) .orderFilled tx eventIdx recorded) := by
    unfold parseEvent
    rw [htype]
    simp only [hmatches, Bool.not_true, Bool.false_eq_true, if_false]
    unfold eventData at hclass
    rw [hclass]
    rfl
  exact ⟨_, recorded, eventIdx, hparse, recordEvent_fills _ _ _ _,
    maybePushBuilderRow_fills _ _ _ _⟩

/-- **When a usable alias is found.** A trade event that names a market and an account under
some of their aliases becomes exactly one fill, with the first usable alias of each, if and
only if no present alias without a usable value stands before the first usable one. -/
theorem emitsFill_iff {marketId account : String}
    (htrade : UsableTrade options event marketId account) :
    EmitsFill json options event tx fallbackEventIdx lineNo output marketId account ↔
      FirstPresentUsable (eventData event) marketKeys ∧
        FirstPresentUsable (eventData event) accountKeys := by
  obtain ⟨rawType, htype, hmatches, hclass⟩ := htrade.trade
  obtain ⟨output', recorded, eventIdx, hparse, hrecorded, hfills⟩ :=
    parseEvent_trade json options event tx fallbackEventIdx lineNo output htype hmatches hclass
  constructor
  · rintro ⟨output'', fill, hparse', hfill, -, -⟩
    obtain rfl : output' = output'' := Except.ok.inj (hparse.symm.trans hparse')
    -- a hidden field would leave the fills as they were
    have hnone : ¬ (stringField (eventData event) marketKeys = none ∨
        stringField (eventData event) accountKeys = none) := by
      intro hnone
      rw [hfills, maybePushFill_fills_of_none _ _ _ _ _ hnone, hrecorded] at hfill
      simp at hfill
    rw [not_or] at hnone
    exact ⟨not_not.1 fun hhidden => hnone.1 (stringField_eq_none hhidden),
      not_not.1 fun hhidden => hnone.2 (stringField_eq_none hhidden)⟩
  · rintro ⟨hmarket, haccount⟩
    obtain ⟨fill, hpush, hfillMarket, hfillAccount⟩ :=
      maybePushFill_fills rawType (eventData event) tx eventIdx recorded
        ((stringField_eq_firstUsable hmarket).trans htrade.market)
        ((stringField_eq_firstUsable haccount).trans htrade.account)
    exact ⟨output', fill, hparse, by rw [hfills, hpush, hrecorded], hfillMarket, hfillAccount⟩

end Parse

/-! ## A hidden market -/

/-- Options of a parser that takes every event. -/
def anyAddress : ParserOptions where
  network := .localnet
  datasetId := ⟨"aliases"⟩
  packageAddress := zeroAddress
  orderbookAddress := zeroAddress

/-- A trade with these fields. -/
def tradeWith (fields : List (String × JsonValue)) : JsonValue :=
  .object [("data", .object fields), ("type", .string "0x1::m::TradeEvent")]

def aliasTx : TxMeta where
  version := 7
  txHash := "0x7"
  blockTimestampUs := 0

theorem usableTrade_tradeWith_marketNull :
    UsableTrade anyAddress (tradeWith [("account", .string "0xa"), ("market", .string "BTC"),
      ("market_id", .null)]) "BTC" "0xa" :=
  ⟨⟨"0x1::m::TradeEvent", by decide +kernel,
      matchesDecibelAddress_of_zeroAddress rfl rfl _ _, by decide +kernel⟩,
    by decide +kernel, by decide +kernel⟩

theorem emitsFill_iff_marketOnly :
    UsableTrade anyAddress
      (tradeWith [("account", .string "0xa"), ("market", .string "BTC")]) "BTC" "0xa" ∧
    (EmitsFill (.ofTexts []) anyAddress
        (tradeWith [("account", .string "0xa"), ("market", .string "BTC")]) aliasTx 0 1 {}
        "BTC" "0xa" ↔
      FirstPresentUsable
          (eventData (tradeWith [("account", .string "0xa"), ("market", .string "BTC")]))
          marketKeys ∧
        FirstPresentUsable
          (eventData (tradeWith [("account", .string "0xa"), ("market", .string "BTC")]))
          accountKeys) := by
  have htrade : UsableTrade anyAddress
      (tradeWith [("account", .string "0xa"), ("market", .string "BTC")]) "BTC" "0xa" :=
    ⟨⟨"0x1::m::TradeEvent", by decide +kernel,
      matchesDecibelAddress_of_zeroAddress rfl rfl _ _, by decide +kernel⟩,
      by decide +kernel, by decide +kernel⟩
  exact ⟨htrade, emitsFill_iff (.ofTexts []) anyAddress _ aliasTx 0 1 {} htrade⟩

/-- With `market_id` null, the trade is dropped although `market` names the market. -/
theorem not_emitsFill_marketNull :
    UsableTrade anyAddress (tradeWith [("account", .string "0xa"), ("market", .string "BTC"),
      ("market_id", .null)]) "BTC" "0xa" ∧
    ¬ EmitsFill (.ofTexts []) anyAddress
      (tradeWith [("account", .string "0xa"), ("market", .string "BTC"), ("market_id", .null)])
      aliasTx 0 1 {} "BTC" "0xa" := by
  refine ⟨usableTrade_tradeWith_marketNull, ?_⟩
  rintro ⟨output', fill, hparse, hfills, -⟩
  obtain ⟨rawType, htype, hmatches, hclass⟩ := usableTrade_tradeWith_marketNull.trade
  obtain ⟨output'', recorded, eventIdx, hparse', hrecorded, hpush⟩ :=
    parseEvent_trade (.ofTexts []) anyAddress _ aliasTx 0 1 {} htype hmatches hclass
  obtain rfl : output' = output'' := Except.ok.inj (hparse.symm.trans hparse')
  -- `market_id` is present, so `market` is not looked at
  have hnone : stringField (eventData (tradeWith [("account", .string "0xa"),
      ("market", .string "BTC"), ("market_id", .null)])) marketKeys = none := by
    decide +kernel
  rw [hpush, maybePushFill_fills_of_none _ _ _ _ _ (.inl hnone), hrecorded] at hfills
  cases hfills

end HotIndex
