import HotIndex.Ingest.ChainOrder
import HotIndex.Ingest.TakenEvents
import HotIndex.Lib.Fallible
import Mathlib.Data.List.Forall2
import Mathlib.Tactic

/-!
# Every Row Has Its Event

The parser fills nine lists side by side. Behind them stands a single list of entries, one for
each event with all that the event became (`EventRows`); every list of the output is a
projection of it (`MadeOf`). So the rows correspond in order to events, and every event that
was expected to become a fill and did not has a warning (`parseFixtureJsonlStr_accounted`).
-/

namespace HotIndex

open Lib

/-! ## What an event becomes -/

def FillRow.place (fill : FillRow) : ChainPlace := toLex (fill.version, fill.eventIdx)

def ActivityRow.place (activity : ActivityRow) : ChainPlace :=
  toLex (activity.version, activity.eventIdx)

def BuilderAttributionRow.place (row : BuilderAttributionRow) : ChainPlace :=
  toLex (row.version, row.eventIdx)

def DecibelEventType.isFilled : DecibelEventType → Bool
  | .orderFilled => true
  | _ => false

def DecibelEventType.isUnknown : DecibelEventType → Bool
  | .unknown _ => true
  | _ => false

/-- The warning about a trade event without a market or without an account. -/
def IsMissingField (warning : String) : Prop :=
  ∃ (version : UInt64) (eventIdx : UInt32),
    warning = s!"version {version} event {eventIdx} TradeEvent missing market_id" ∨
    warning = s!"version {version} event {eventIdx} TradeEvent missing account"

/-- The attribution is of the trade of the fill. -/
structure BuilderAttributionRow.OfFill (row : BuilderAttributionRow) (fill : FillRow) :
    Prop where
  fillId : row.fillId = fill.fillId
  marketId : row.marketId = fill.marketId
  account : row.account = fill.account
  notional : row.notional = fill.notional
  builderAddr : fill.builderAddr = some row.builderAddr

/-- A trade event becomes a fill or has a warning about the field that it lacks. An event of
unknown type has a warning of another kind, and all other events have none. -/
def Accounts (eventType : DecibelEventType) (fill : Option FillRow) (warning : Option String) :
    Prop :=
  match eventType with
  | .orderFilled => fill.isSome ∧ warning = none ∨
      fill = none ∧ ∃ text, warning = some text ∧ IsMissingField text
  | .unknown _ => fill = none ∧ ∃ text, warning = some text ∧ ¬ IsMissingField text
  | _ => fill = none ∧ warning = none

/-- An event with its rows and its warning. -/
structure EventRows where
  event : NormalizedEvent
  fill : Option FillRow := none
  order : Option OrderRow := none
  position : Option PositionRow := none
  builderRow : Option BuilderAttributionRow := none
  activity : Option ActivityRow := none
  warning : Option String := none
  fill_place : ∀ row ∈ fill, row.place = event.place := by simp
  order_place : ∀ row ∈ order, row.place = event.place := by simp
  position_place : ∀ row ∈ position, row.place = event.place := by simp
  activity_place : ∀ row ∈ activity, row.place = event.place := by simp
  builder_place : ∀ row ∈ builderRow, row.place = event.place := by simp
  builder_fill : ∀ row ∈ builderRow, ∃ row' ∈ fill, row.OfFill row' := by simp
  accounts : Accounts event.eventType fill warning

/-- All lists of rows are projections of one list of entries. -/
structure ParserOutput.MadeOf (parts : List EventRows) (output : ParserOutput) : Prop where
  events : output.events = parts.map (·.event)
  fills : output.fills = parts.filterMap (·.fill)
  orders : output.orders = parts.filterMap (·.order)
  positions : output.positions = parts.filterMap (·.position)
  builderRows : output.builderRows = parts.filterMap (·.builderRow)
  activityRows : output.activityRows = parts.filterMap (·.activity)
  unknownEvents : output.unknownEvents =
    (parts.map (·.event)).filter (·.eventType.isUnknown)
  warnings : output.warnings = parts.filterMap (·.warning)

namespace ParserOutput

theorem MadeOf.empty : MadeOf [] {} := ⟨rfl, rfl, rfl, rfl, rfl, rfl, rfl, rfl⟩

theorem MadeOf.append {parts parts' : List EventRows} {a b : ParserOutput}
    (ha : a.MadeOf parts) (hb : b.MadeOf parts') : (a ++ b).MadeOf (parts ++ parts') where
  events := by rw [List.map_append, ← ha.events, ← hb.events]; rfl
  fills := by rw [List.filterMap_append, ← ha.fills, ← hb.fills]; rfl
  orders := by rw [List.filterMap_append, ← ha.orders, ← hb.orders]; rfl
  positions := by rw [List.filterMap_append, ← ha.positions, ← hb.positions]; rfl
  builderRows := by rw [List.filterMap_append, ← ha.builderRows, ← hb.builderRows]; rfl
  activityRows := by rw [List.filterMap_append, ← ha.activityRows, ← hb.activityRows]; rfl
  unknownEvents := by
    rw [List.map_append, List.filter_append, ← ha.unknownEvents, ← hb.unknownEvents]
    rfl
  warnings := by rw [List.filterMap_append, ← ha.warnings, ← hb.warnings]; rfl

end ParserOutput

/-! ## The entry of one event -/

section Event

variable (rawType : String) (data : JsonValue) (tx : TxMeta) (eventIdx : UInt32)

/-- A warning about a type does not start as one about a field does. -/
theorem not_isMissingField_unknown (lineNo : Nat) (version : UInt64) :
    ¬ IsMissingField (s!"line {lineNo} version {version} " ++
      s!"event {eventIdx} unknown event type {rawType}") := by
  have htext : ∀ text : String, toString text = text := fun _ => rfl
  rintro ⟨version', eventIdx', h | h⟩
  -- the one begins with an `l`, the other with a `v`
  · have hhead := congrArg (fun text => text.toList.head?) h
    simp [htext] at hhead
  · have hhead := congrArg (fun text => text.toList.head?) h
    simp [htext] at hhead

/-- Of an event of a known type, only the event itself is recorded. -/
theorem recordEvent_known {event : NormalizedEvent} (lineNo : Nat)
    (h : event.eventType.isUnknown = false) :
    recordEvent rawType lineNo event {} = { events := [event] } := by
  unfold recordEvent
  cases htype : event.eventType with
  | unknown tail =>
    rw [htype] at h
    cases h
  | _ => rfl

/-- A trade event becomes a fill, with the attribution of its builder, or a warning. -/
theorem pushRows_filled_madeOf {event : NormalizedEvent}
    (hplace : event.place = toLex (tx.version, eventIdx)) (htype : event.eventType = .orderFilled) :
    ∃ part : EventRows, part.event = event ∧
      (pushRows rawType data .orderFilled tx eventIdx { events := [event] }).MadeOf [part] := by
  have hunknown : event.eventType.isUnknown = false := by rw [htype]; rfl
  unfold pushRows maybePushFill maybePushBuilderRow
  cases stringField data marketKeys with
  | none =>
    -- no fill without a market, and no attribution either
    have haccounts : Accounts event.eventType none
        (some s!"version {tx.version} event {eventIdx} TradeEvent missing market_id") := by
      rw [htype]
      exact .inr ⟨rfl, _, rfl, tx.version, eventIdx, .inl rfl⟩
    refine ⟨{ event := event, warning := some _, accounts := haccounts }, rfl, ?_⟩
    cases stringField data builderKeys <;> cases stringField data accountKeys <;>
      exact ⟨rfl, rfl, rfl, rfl, rfl, rfl, by simp [hunknown], rfl⟩
  | some marketId =>
    cases stringField data accountKeys with
    | none =>
      have haccounts : Accounts event.eventType none
          (some s!"version {tx.version} event {eventIdx} TradeEvent missing account") := by
        rw [htype]
        exact .inr ⟨rfl, _, rfl, tx.version, eventIdx, .inr rfl⟩
      refine ⟨{ event := event, warning := some _, accounts := haccounts }, rfl, ?_⟩
      cases stringField data builderKeys <;>
        exact ⟨rfl, rfl, rfl, rfl, rfl, rfl, by simp [hunknown], rfl⟩
    | some account =>
      have haccounts : ∀ fill, Accounts event.eventType (some fill) none := by
        intro fill
        rw [htype]
        exact .inl ⟨rfl, rfl⟩
      -- both rows read the same fields of the event
      cases hbuilder : stringField data builderKeys with
      | none =>
        refine ⟨{ event := event, fill := some _, fill_place := ?_, accounts := haccounts _ },
          rfl, rfl, rfl, rfl, rfl, rfl, rfl, by simp [hunknown], rfl⟩
        simp [FillRow.place, hplace]
      | some builderAddr =>
        refine ⟨{ event := event, fill := some _, builderRow := some _, fill_place := ?_,
                  builder_place := ?_, builder_fill := ?_, accounts := haccounts _ },
          rfl, rfl, rfl, rfl, rfl, rfl, rfl, by simp [hunknown], rfl⟩
        · simp [FillRow.place, hplace]
        · simp [BuilderAttributionRow.place, hplace]
        · simp only [Option.mem_def, Option.some.injEq, forall_eq', exists_eq_left']
          exact ⟨rfl, rfl, rfl, rfl, rfl⟩

section Rows

variable {event : NormalizedEvent} (hplace : event.place = toLex (tx.version, eventIdx))
  (haccounts : Accounts event.eventType none none) (hunknown : event.eventType.isUnknown = false)

include haccounts hunknown

/-- An event that lacks what its rows need is an entry of its own. -/
theorem eventOnly_madeOf :
    ∃ part : EventRows, part.event = event ∧
      ParserOutput.MadeOf [part] { events := [event] } :=
  ⟨{ event := event, accounts := haccounts },
    rfl, rfl, rfl, rfl, rfl, rfl, rfl, by simp [hunknown], rfl⟩

include hplace

theorem maybePushOrder_madeOf (eventType : DecibelEventType) :
    ∃ part : EventRows, part.event = event ∧
      (maybePushOrder rawType data tx eventIdx { events := [event] } eventType).MadeOf
        [part] := by
  unfold maybePushOrder
  cases stringField data marketKeys with
  -- without a market or an account there is no row
  | none => exact eventOnly_madeOf haccounts hunknown
  | some marketId =>
    cases stringField data accountKeys with
    | none => exact eventOnly_madeOf haccounts hunknown
    | some account =>
      refine ⟨{ event := event, order := some _, activity := some _, order_place := ?_,
                activity_place := ?_, accounts := haccounts },
        rfl, rfl, rfl, rfl, rfl, rfl, rfl, by simp [hunknown], rfl⟩
      · simp [OrderRow.place, hplace]
      · simp [ActivityRow.place, hplace]

theorem maybePushPosition_madeOf :
    ∃ part : EventRows, part.event = event ∧
      (maybePushPosition data tx eventIdx { events := [event] }).MadeOf [part] := by
  unfold maybePushPosition
  cases stringField data marketKeys with
  -- without a market or an account there is no row
  | none => exact eventOnly_madeOf haccounts hunknown
  | some marketId =>
    cases stringField data accountKeys with
    | none => exact eventOnly_madeOf haccounts hunknown
    | some account =>
      refine ⟨{ event := event, position := some _, activity := some _, position_place := ?_,
                activity_place := ?_, accounts := haccounts },
        rfl, rfl, rfl, rfl, rfl, rfl, rfl, by simp [hunknown], rfl⟩
      · simp [PositionRow.place, hplace]
      · simp [ActivityRow.place, hplace]

theorem maybePushActivity_madeOf (eventType : DecibelEventType) :
    ∃ part : EventRows, part.event = event ∧
      (maybePushActivity data tx eventIdx { events := [event] } eventType).MadeOf [part] := by
  unfold maybePushActivity
  cases stringField data marketKeys with
  | none => exact eventOnly_madeOf haccounts hunknown
  | some marketId =>
    refine ⟨{ event := event, activity := some _, activity_place := ?_, accounts := haccounts },
      rfl, rfl, rfl, rfl, rfl, rfl, rfl, by simp [hunknown], rfl⟩
    simp [ActivityRow.place, hplace]

end Rows

/-- An event of a known type and its rows are one entry. -/
theorem pushRows_known_madeOf {event : NormalizedEvent} {eventType : DecibelEventType}
    (hplace : event.place = toLex (tx.version, eventIdx)) (htype : event.eventType = eventType)
    (hunknown : event.eventType.isUnknown = false) :
    ∃ part : EventRows, part.event = event ∧
      (pushRows rawType data eventType tx eventIdx { events := [event] }).MadeOf [part] := by
  -- only a trade event can become a fill or end in a warning
  have haccounts : eventType ≠ .orderFilled → Accounts event.eventType none none := by
    rw [htype] at hunknown ⊢
    cases eventType with
    | unknown tail => cases hunknown
    | orderFilled => exact fun hne => absurd rfl hne
    | _ => exact fun _ => ⟨rfl, rfl⟩
  cases eventType with
  | unknown tail =>
    rw [htype] at hunknown
    cases hunknown
  | orderFilled => exact pushRows_filled_madeOf _ _ _ _ hplace htype
  | orderPlaced =>
    exact maybePushOrder_madeOf rawType data _ _ hplace (haccounts (by simp)) hunknown .orderPlaced
  | orderCancelled =>
    exact maybePushOrder_madeOf rawType data _ _ hplace (haccounts (by simp)) hunknown
      .orderCancelled
  | positionUpdated => exact maybePushPosition_madeOf _ _ _ hplace (haccounts (by simp)) hunknown
  | liquidation | fundingPayment | builderFeeAttributed | marketCreated =>
    exact maybePushActivity_madeOf _ _ _ hplace (haccounts (by simp)) hunknown _

/-- The rows of an event and the event itself are one entry. -/
theorem pushRows_recordEvent_madeOf (lineNo : Nat) {event : NormalizedEvent}
    {eventType : DecibelEventType} (hplace : event.place = toLex (tx.version, eventIdx))
    (htype : event.eventType = eventType) :
    ∃ part : EventRows, part.event = event ∧
      (pushRows rawType data eventType tx eventIdx
        (recordEvent rawType lineNo event {})).MadeOf [part] := by
  cases hunknown : event.eventType.isUnknown with
  | false =>
    rw [recordEvent_known _ _ hunknown]
    exact pushRows_known_madeOf _ _ _ _ hplace htype hunknown
  | true =>
    cases eventType with
    | unknown tail =>
      -- an unknown event is kept in both lists, with a warning and no rows
      have haccounts : Accounts event.eventType none
          (some (s!"line {lineNo} version {event.version} " ++
            s!"event {event.eventIdx} unknown event type {rawType}")) := by
        rw [htype]
        exact ⟨rfl, _, rfl, not_isMissingField_unknown _ _ _ _⟩
      refine ⟨{ event := event, warning := some _, accounts := haccounts }, rfl, ?_⟩
      unfold pushRows recordEvent
      rw [htype]
      exact ⟨rfl, rfl, rfl, rfl, rfl, rfl, by simp [htype, DecibelEventType.isUnknown], rfl⟩
    | _ =>
      rw [htype] at hunknown
      cases hunknown

end Event

/-! ## The entries of a file -/

/-- The events of a line: the entries of its array, or else the line itself. -/
def lineEvents (value : JsonValue) : List JsonValue :=
  ((value.get "events").bind JsonValue.asArray).getD [value]

section Runs

variable {json : JsonText} {options : ParserOptions}

/-- Rows that are no transactions. -/
structure ParserOutput.EventsOnly (rows : ParserOutput) : Prop where
  txs : rows.txs = []
  rawTransactionCount : rows.rawTransactionCount = 0

theorem pushRows_eventsOnly {rawType : String} {data : JsonValue} {eventType : DecibelEventType}
    {tx : TxMeta} {eventIdx : UInt32} {rows : ParserOutput} (h : rows.EventsOnly) :
    (pushRows rawType data eventType tx eventIdx rows).EventsOnly := by
  unfold pushRows maybePushFill maybePushBuilderRow maybePushOrder maybePushPosition
    maybePushActivity
  cases eventType <;> cases stringField data marketKeys <;> cases stringField data accountKeys <;>
    cases stringField data builderKeys <;> exact ⟨h.txs, h.rawTransactionCount⟩

theorem eventRows_eventsOnly (event : JsonValue) (rawType : String) (tx : TxMeta)
    (fallbackEventIdx : UInt32) (lineNo : Nat) :
    (eventRows json options event rawType tx fallbackEventIdx lineNo).EventsOnly := by
  unfold eventRows
  apply pushRows_eventsOnly
  unfold recordEvent
  split <;> exact ⟨rfl, rfl⟩

theorem eventRows_madeOf (event : JsonValue) (rawType : String) (tx : TxMeta)
    (fallbackEventIdx : UInt32) (lineNo : Nat) :
    ∃ part : EventRows, part.event.place = toLex (tx.version,
        (u32Field event ["event_idx", "event_index"]).getD fallbackEventIdx) ∧
      (eventRows json options event rawType tx fallbackEventIdx lineNo).MadeOf [part] := by
  simp only [eventRows]
  generalize ((event.get "data").or (event.get "payload")).getD (.object []) = data
  generalize (u32Field event ["event_idx", "event_index"]).getD fallbackEventIdx = eventIdx
  generalize classifyEventType rawType data = eventType
  rcases @pushRows_recordEvent_madeOf rawType data tx eventIdx lineNo
    (normalizedEvent json options data eventType tx eventIdx) eventType rfl rfl with
    ⟨part, hevent, hpart⟩
  exact ⟨part, by rw [hevent]; rfl, hpart⟩

/-- An event adds at most one entry. -/
theorem parseEvent_madeOf {event : JsonValue} {tx : TxMeta} {fallbackEventIdx : UInt32}
    {lineNo : Nat} {before after : ParserOutput}
    (h : parseEvent json options event tx fallbackEventIdx lineNo before = .ok after) :
    ∃ rows parts, after = before ++ rows ∧ rows.EventsOnly ∧ rows.MadeOf parts ∧
      parts.length ≤ 1 := by
  rcases parseEvent_eq_ok h with ⟨rawType, _, hafter⟩
  cases hmatches : matchesDecibelAddress event rawType options with
  -- an event of another package leaves nothing behind
  | false =>
    rw [hmatches] at hafter
    exact ⟨_, [], hafter, ⟨rfl, rfl⟩, .empty, Nat.zero_le 1⟩
  | true =>
    rw [hmatches, if_pos rfl] at hafter
    rcases @eventRows_madeOf json options event rawType tx fallbackEventIdx lineNo with
      ⟨part, _, hpart⟩
    exact ⟨_, [part], hafter, eventRows_eventsOnly _ _ _ _ _, hpart, le_rfl⟩

theorem parseEvents_madeOf {tx : TxMeta} {lineNo : Nat} {events : List JsonValue} {idx : Nat}
    {before after : ParserOutput}
    (h : parseEvents json options tx lineNo events idx before = .ok after) :
    ∃ rows parts, after = before ++ rows ∧ rows.EventsOnly ∧ rows.MadeOf parts ∧
      parts.length ≤ events.length := by
  induction events generalizing idx before with
  | nil =>
    cases h
    exact ⟨{}, [], (ParserOutput.append_empty _).symm, ⟨rfl, rfl⟩, .empty, le_rfl⟩
  | cons event events ih =>
    rcases bind_eq_ok_iff.1 h with ⟨between, hevent, hrest⟩
    -- the rows of the first event, and then those of the others
    rcases parseEvent_madeOf hevent with ⟨rows, parts, rfl, honly, hparts, hlength⟩
    rcases ih hrest with ⟨rows', parts', rfl, honly', hparts', hlength'⟩
    refine ⟨rows ++ rows', parts ++ parts', ParserOutput.append_assoc _ _ _, ⟨?_, ?_⟩,
      hparts.append hparts', ?_⟩
    · show rows.txs ++ rows'.txs = []
      rw [honly.txs, honly'.txs, List.append_nil]
    · show rows.rawTransactionCount + rows'.rawTransactionCount = 0
      rw [honly.rawTransactionCount, honly'.rawTransactionCount, UInt64.add_zero]
    · rw [List.length_append, List.length_cons]
      omega

/-- The transaction of a line with some events. -/
def lineTx (options : ParserOptions) (tx : TxMeta) (included : Nat) : TxRow where
  network := options.network
  version := tx.version
  txHash := tx.txHash
  blockTimestampUs := tx.blockTimestampUs
  eventCount := UInt32.ofNat included
  datasetId := some options.datasetId
  rawSummary := some s!"fixture transaction with {included} Decibel event(s)"

/-- A line without an array of events is parsed as the array of itself. -/
theorem parseFixtureLine_eq_ok {value : JsonValue} {lineNo : Nat} {before after : ParserOutput}
    (h : parseFixtureLine json options value lineNo before = .ok after) :
    ∃ tx output, txMeta value lineNo = .ok tx ∧
      parseEvents json options tx lineNo (lineEvents value) 0 before = .ok output ∧
      after = if 0 < output.events.length - before.events.length then
        output ++ {
          txs := [lineTx options tx (output.events.length - before.events.length)]
          rawTransactionCount := 1 }
        else output := by
  -- with an array and without one, the line ends with its transaction
  have hfinish : ∀ (tx : TxMeta) (output : ParserOutput),
      (if output.events.length - before.events.length > 0 then
        (pure { output with
          rawTransactionCount := output.rawTransactionCount + 1
          txs := output.txs ++
            [lineTx options tx (output.events.length - before.events.length)] } :
          Except HotIndexError ParserOutput)
        else pure output) = .ok after →
      after = if 0 < output.events.length - before.events.length then
        output ++ {
          txs := [lineTx options tx (output.events.length - before.events.length)]
          rawTransactionCount := 1 }
        else output := by
    intro tx output h
    split_ifs at h ⊢
    · rw [← Except.ok.inj h]
      show _ = ParserOutput.append output _
      simp [ParserOutput.append]
    · exact (Except.ok.inj h).symm
  rcases bind_eq_ok_iff.1 h with ⟨tx, htx, h⟩
  unfold lineEvents
  cases hevents : (value.get "events").bind JsonValue.asArray with
  | some events =>
    rw [hevents] at h
    rcases bind_eq_ok_iff.1 h with ⟨output, houtput, h⟩
    exact ⟨tx, output, htx, houtput, hfinish tx output h⟩
  | none =>
    rw [hevents] at h
    rcases bind_eq_ok_iff.1 h with ⟨output, houtput, h⟩
    exact ⟨tx, output, htx, bind_eq_ok_iff.2 ⟨output, houtput, rfl⟩, hfinish tx output h⟩

/-- The number of transactions is kept twice, and their event counts add up to the number of
events. -/
structure ParserOutput.Balanced (fit : Prop) (output : ParserOutput) : Prop where
  rawTransactionCount : output.rawTransactionCount = UInt64.ofNat output.txs.length
  eventCounts : fit → (output.txs.map (·.eventCount.toNat)).sum = output.events.length

theorem ParserOutput.Balanced.append {fit fit' : Prop} {a b : ParserOutput}
    (ha : a.Balanced fit) (hb : b.Balanced fit') : (a ++ b).Balanced (fit ∧ fit') where
  rawTransactionCount := by
    show a.rawTransactionCount + b.rawTransactionCount = UInt64.ofNat (a.txs ++ b.txs).length
    rw [ha.rawTransactionCount, hb.rawTransactionCount, List.length_append, UInt64.ofNat_add]
  eventCounts := by
    -- the counts add up where those of both parts do
    rintro ⟨hfit, hfit'⟩
    show ((a.txs ++ b.txs).map _).sum = (a.events ++ b.events).length
    rw [List.map_append, List.sum_append, ha.eventCounts hfit, hb.eventCounts hfit',
      List.length_append]

/-- A line adds an entry for each of its Decibel events, and a transaction if there are any. -/
theorem parseFixtureLine_madeOf {value : JsonValue} {lineNo : Nat} {before after : ParserOutput}
    (h : parseFixtureLine json options value lineNo before = .ok after) :
    ∃ rows parts, after = before ++ rows ∧ rows.MadeOf parts ∧
      rows.Balanced ((lineEvents value).length < 2 ^ 32) := by
  rcases parseFixtureLine_eq_ok h with ⟨tx, _, _, hevents, hafter⟩
  rcases parseEvents_madeOf hevents with ⟨rows, parts, rfl, honly, hparts, hlength⟩
  -- the number of new events is counted as a difference
  have hincluded : (before ++ rows).events.length - before.events.length = parts.length := by
    rw [ParserOutput.events_append, List.length_append, hparts.events, List.length_map]
    omega
  rw [hincluded] at hafter
  split_ifs at hafter with hpos
  · refine ⟨_, parts, hafter.trans (ParserOutput.append_assoc _ _ _), ?_, ?_⟩
    · -- a transaction is not an entry
      have hnone : ParserOutput.MadeOf [] {
          txs := [lineTx options tx parts.length]
          rawTransactionCount := 1 } := ⟨rfl, rfl, rfl, rfl, rfl, rfl, rfl, rfl⟩
      have hline := hparts.append hnone
      rwa [List.append_nil] at hline
    · constructor
      · show rows.rawTransactionCount + 1 = UInt64.ofNat (rows.txs ++ [_]).length
        rw [honly.rawTransactionCount, honly.txs]
        rfl
      · intro hfit
        show ((rows.txs ++ [lineTx options tx parts.length]).map _).sum =
          (rows.events ++ []).length
        -- there are no more entries than events, which fit
        have hcount : (UInt32.ofNat parts.length).toNat = parts.length :=
          UInt32.toNat_ofNat_of_lt' (lt_of_le_of_lt hlength hfit)
        rw [honly.txs, List.append_nil, hparts.events, List.length_map]
        simpa [lineTx] using hcount
  · refine ⟨rows, parts, hafter, hparts, ?_, ?_⟩
    · rw [honly.rawTransactionCount, honly.txs]
      rfl
    · intro _
      rw [honly.txs, hparts.events, List.length_map]
      simp
      omega

/-- No line has as many events as a `u32` can count. -/
def LinesFit (json : JsonText) (lines : List String) : Prop :=
  ∀ line ∈ lines, ∀ value, json.fromStr line = .ok value → (lineEvents value).length < 2 ^ 32

theorem parseFixtureLines_madeOf {lines : List String} {lineNo : Nat}
    {before after : ParserOutput}
    (h : parseFixtureLines json options lines lineNo before = .ok after) :
    ∃ rows parts, after = before ++ rows ∧ rows.MadeOf parts ∧
      rows.Balanced (LinesFit json lines) := by
  induction lines generalizing lineNo before with
  | nil =>
    cases h
    exact ⟨{}, [], (ParserOutput.append_empty _).symm, .empty, rfl, fun _ => rfl⟩
  | cons line lines ih =>
    have hrest : LinesFit json (line :: lines) → LinesFit json lines :=
      fun hfit line' hline => hfit line' (List.mem_cons_of_mem _ hline)
    rw [parseFixtureLines] at h
    split_ifs at h with hempty
    · -- a blank line is passed over
      rcases ih h with ⟨rows, parts, hafter, hparts, hbalanced⟩
      exact ⟨rows, parts, hafter, hparts, hbalanced.rawTransactionCount,
        fun hfit => hbalanced.eventCounts (hrest hfit)⟩
    · cases hvalue : json.fromStr line with
      | error message =>
        rw [hvalue] at h
        cases h
      | ok value =>
        rw [hvalue] at h
        rcases bind_eq_ok_iff.1 h with ⟨between, hline, h⟩
        rcases parseFixtureLine_madeOf hline with ⟨rows, parts, rfl, hparts, hbalanced⟩
        rcases ih h with ⟨rows', parts', rfl, hparts', hbalanced'⟩
        have hboth := hbalanced.append hbalanced'
        exact ⟨rows ++ rows', parts ++ parts', ParserOutput.append_assoc _ _ _,
          hparts.append hparts', hboth.rawTransactionCount, fun hfit => hboth.eventCounts
            ⟨hfit line List.mem_cons_self value hvalue, hrest hfit⟩⟩

end Runs

/-! ## What the entries account for -/

section Accounts

variable {parts : List EventRows}

/-- Rows of one kind correspond in order to events, each to the event that it was made of. -/
theorem rows_inOrder {α : Type} (row : EventRows → Option α) {R : α → NormalizedEvent → Prop}
    (h : ∀ part : EventRows, ∀ a ∈ row part, R a part.event) :
    List.SublistForall₂ R (parts.filterMap row) (parts.map (·.event)) := by
  induction parts with
  | nil => exact .nil
  | cons part parts ih =>
    -- an event has one row of the kind, or none
    cases hrow : row part with
    | none =>
      rw [List.filterMap_cons_none hrow]
      exact .cons_right ih
    | some a =>
      rw [List.filterMap_cons_some hrow]
      exact .cons (h part a hrow) ih

open Classical in
/-- A trade event has a fill or a warning about a field, an event of unknown type another
warning, and no other event has any of them. -/
theorem EventRows.counts (part : EventRows) :
    (if part.event.eventType.isFilled then 1 else 0) =
        part.fill.toList.length + part.warning.toList.countP (fun text => IsMissingField text) ∧
      (if part.event.eventType.isUnknown then 1 else 0) =
        part.warning.toList.countP (fun text => ¬ IsMissingField text) := by
  have haccounts := part.accounts
  -- a trade has a fill or a warning, an unknown event a warning, the others neither
  cases htype : part.event.eventType with
  | orderFilled =>
    rw [htype] at haccounts
    rcases haccounts with ⟨hfill, hwarning⟩ | ⟨hfill, text, hwarning, htext⟩
    · rcases Option.isSome_iff_exists.1 hfill with ⟨fill, hfill⟩
      simp [hfill, hwarning, DecibelEventType.isFilled, DecibelEventType.isUnknown]
    · simp [hfill, hwarning, htext, DecibelEventType.isFilled, DecibelEventType.isUnknown]
  | unknown tail =>
    rw [htype] at haccounts
    rcases haccounts with ⟨hfill, text, hwarning, htext⟩
    simp [hfill, hwarning, htext, DecibelEventType.isFilled, DecibelEventType.isUnknown]
  | _ =>
    rw [htype] at haccounts
    rcases haccounts with ⟨hfill, hwarning⟩
    simp [hfill, hwarning, DecibelEventType.isFilled, DecibelEventType.isUnknown]

open Classical in
/-- The counts of the entries add up. -/
theorem counts_parts :
    (parts.map (·.event)).countP (·.eventType.isFilled) = (parts.filterMap (·.fill)).length +
        (parts.filterMap (·.warning)).countP (fun text => IsMissingField text) ∧
      (parts.map (·.event)).countP (·.eventType.isUnknown) =
        (parts.filterMap (·.warning)).countP (fun text => ¬ IsMissingField text) := by
  -- the counts of one event, added up
  induction parts with
  | nil => exact ⟨rfl, rfl⟩
  | cons part parts ih =>
    rcases ih with ⟨hfilled, hunknown⟩
    rcases part.counts with ⟨hpart, hpart'⟩
    rw [List.filterMap_eq_flatMap_toList] at hfilled hunknown ⊢
    rw [List.filterMap_eq_flatMap_toList] at hfilled ⊢
    constructor
    · rw [List.map_cons, List.countP_cons, hfilled, List.flatMap_cons, List.flatMap_cons,
        List.length_append, List.countP_append, hpart]
      omega
    · rw [List.map_cons, List.countP_cons, hunknown, List.flatMap_cons, List.countP_append, hpart']
      omega

end Accounts

open Classical in
/-- Every row is accounted for by an event, and every event by its rows and warnings. -/
structure ParserOutput.Accounted (output : ParserOutput) : Prop where
  unknown_events : output.unknownEvents = output.events.filter (·.eventType.isUnknown)
  fills : List.SublistForall₂ (fun fill event => fill.place = event.place)
    output.fills output.events
  orders : List.SublistForall₂ (fun order event => order.place = event.place)
    output.orders output.events
  positions : List.SublistForall₂ (fun position event => position.place = event.place)
    output.positions output.events
  activity_rows : List.SublistForall₂ (fun activity event => activity.place = event.place)
    output.activityRows output.events
  builder_places : List.SublistForall₂ (fun row event => row.place = event.place)
    output.builderRows output.events
  trades : output.events.countP (·.eventType.isFilled) =
    output.fills.length + output.warnings.countP (fun text => IsMissingField text)
  warnings : output.warnings.length = output.unknownEvents.length +
    (output.events.countP (·.eventType.isFilled) - output.fills.length)
  /-- An entry with a builder row has the fill that the row is of. -/
  builder_rows : ∃ parts, output.MadeOf parts ∧
    ∀ part ∈ parts, ∀ row ∈ part.builderRow, ∃ fill ∈ part.fill, row.OfFill fill
  transactions : output.rawTransactionCount = UInt64.ofNat output.txs.length

open Classical in
theorem ParserOutput.MadeOf.accounted {parts : List EventRows} {output : ParserOutput}
    (h : output.MadeOf parts)
    (htransactions : output.rawTransactionCount = UInt64.ofNat output.txs.length) :
    output.Accounted where
  unknown_events := by rw [h.unknownEvents, h.events]
  fills := by
    rw [h.fills, h.events]
    exact rows_inOrder _ fun part => part.fill_place
  orders := by
    rw [h.orders, h.events]
    exact rows_inOrder _ fun part => part.order_place
  positions := by
    rw [h.positions, h.events]
    exact rows_inOrder _ fun part => part.position_place
  activity_rows := by
    rw [h.activityRows, h.events]
    exact rows_inOrder _ fun part => part.activity_place
  builder_places := by
    rw [h.builderRows, h.events]
    exact rows_inOrder _ fun part => part.builder_place
  trades := by
    rw [h.events, h.fills, h.warnings]
    exact counts_parts.1
  -- each warning is of one of two kinds
  warnings := by
    rcases @counts_parts parts with ⟨htrades, hunknown⟩
    have hlength := (parts.filterMap (·.warning)).length_eq_countP_add_countP
      (fun text => decide (IsMissingField text))
    simp only [decide_eq_true_eq] at hlength
    rw [h.warnings, h.unknownEvents, h.events, h.fills, ← List.countP_eq_length_filter]
    omega
  builder_rows := ⟨parts, h, fun part _ => part.builder_fill⟩
  transactions := htransactions

/-- **Accounting.** In what is parsed from a file, every row stands for an event, in order; the
trade events are counted by the fills and the missing-field warnings; and the transactions count
the events, as long as no line has more events than a `u32` can count. -/
theorem parseFixtureJsonlStr_accounted {json : JsonText} {options : ParserOptions}
    {input : String} {output : ParserOutput}
    (h : parseFixtureJsonlStr json options input = .ok output) :
    output.Accounted ∧ (LinesFit json (splitLines [] input.toList) →
      (output.txs.map (·.eventCount.toNat)).sum = output.events.length) := by
  rcases parseFixtureLines_madeOf h with ⟨rows, parts, houtput, hparts, hbalanced⟩
  -- a parse starts with nothing
  have hrows : output = rows := by
    rw [houtput]
    show ParserOutput.append {} rows = rows
    simp [ParserOutput.append]
  subst hrows
  exact ⟨hparts.accounted hbalanced.rawTransactionCount, hbalanced.eventCounts⟩

/-- Both addresses are zero, so every event is a Decibel event. -/
def mixedOptions : ParserOptions where
  network := .localnet
  datasetId := ⟨"mixed"⟩
  packageAddress := zeroAddress
  orderbookAddress := zeroAddress

theorem sameEvents_mixedOptions : mixedOptions.SameEvents mixedOptions.shortZeros :=
  ParserOptions.sameEvents_shortZeros rfl rfl

/-- A transaction with a trade through a builder, a trade without a market and an event of
unknown type. -/
def mixedLine : JsonValue := .object [
  ("events", .array [
    .object [
      ("data", .object [("account", .string "0xa"), ("builder", .string "0xb"),
        ("market", .string "BTC")]),
      ("type", .string "Fill")],
    .object [("type", .string "Fill")],
    .object [("type", .string "Ping")]]),
  ("version", .number (.posInt 7))]

def mixedJson : JsonText := .ofTexts [(mixedLine.text, mixedLine)]

theorem fromStr_mixedLine : mixedJson.fromStr mixedLine.text = .ok mixedLine := by
  simp [mixedJson, JsonText.ofTexts]

theorem splitLines_mixedLine :
    splitLines [] mixedLine.text.toList = [mixedLine.text] ∧
      (RustText.trim mixedLine.text).isEmpty = false :=
  splitLines_text (by decide +kernel) (by decide +kernel)

theorem parse_mixedLine :
    ∃ output, parseFixtureJsonlStr mixedJson mixedOptions mixedLine.text = .ok output ∧
      output.events.length = 3 ∧ output.fills.length = 1 ∧ output.builderRows.length = 1 ∧
      output.warnings.length = 2 := by
  -- the line is parsed from events that are taken already, which can be decided
  have hlengths : (parseFixtureLine mixedJson mixedOptions mixedLine 1 {}).map
      (fun output => (output.events.length, output.fills.length, output.builderRows.length,
        output.warnings.length)) = .ok (3, 1, 1, 2) := by
    rw [sameEvents_mixedOptions.parseFixtureLine_eq]
    decide +kernel
  have hparse := @parseFixtureJsonlStr_line mixedJson mixedOptions mixedLine.text mixedLine
    splitLines_mixedLine.1 splitLines_mixedLine.2 fromStr_mixedLine
  cases hline : parseFixtureLine mixedJson mixedOptions mixedLine 1 {} with
  | error error =>
    rw [hline] at hlengths
    cases hlengths
  | ok output =>
    rw [hline] at hlengths
    exact ⟨output, hparse.trans hline, by simpa [Except.map] using hlengths⟩

theorem parseFixtureJsonlStr_accounted_mixedLine :
    ∃ output, parseFixtureJsonlStr mixedJson mixedOptions mixedLine.text = .ok output ∧
      output.events.length = 3 ∧ output.fills.length = 1 ∧ output.builderRows.length = 1 ∧
      output.warnings.length = 2 ∧ output.Accounted ∧
      (output.txs.map (·.eventCount.toNat)).sum = output.events.length := by
  rcases parse_mixedLine with ⟨output, hparse, hevents, hfills, hbuilders, hwarnings⟩
  rcases parseFixtureJsonlStr_accounted hparse with ⟨haccounted, hsum⟩
  refine ⟨output, hparse, hevents, hfills, hbuilders, hwarnings, haccounted, hsum ?_⟩
  intro line hline value hvalue
  rw [splitLines_mixedLine.1, List.mem_singleton] at hline
  rw [hline, fromStr_mixedLine] at hvalue
  rw [← Except.ok.inj hvalue]
  -- the line has three events
  show 3 < 2 ^ 32
  decide

end HotIndex
