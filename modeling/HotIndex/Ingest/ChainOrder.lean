import HotIndex.Ingest.DecibelParser
import Mathlib.Data.Prod.Lex

/-!
# Parsed Rows Stand in Chain Order

The parser only appends: what it makes of an event does not depend on the rows already
collected (`parseEvent_append`). An event of a transaction becomes at most one row of each
kind, at the place of the event in the chain, so the rows of a transaction stand in the
order of its events.
-/

namespace HotIndex

open Lib

/-! ## Collected rows -/

/-- The rows of one output behind those of another. -/
def ParserOutput.append (a b : ParserOutput) : ParserOutput where
  txs := a.txs ++ b.txs
  events := a.events ++ b.events
  fills := a.fills ++ b.fills
  orders := a.orders ++ b.orders
  positions := a.positions ++ b.positions
  builderRows := a.builderRows ++ b.builderRows
  activityRows := a.activityRows ++ b.activityRows
  unknownEvents := a.unknownEvents ++ b.unknownEvents
  warnings := a.warnings ++ b.warnings
  rawTransactionCount := a.rawTransactionCount + b.rawTransactionCount

instance : Append ParserOutput := ⟨ParserOutput.append⟩

namespace ParserOutput

@[simp] theorem events_append (a b : ParserOutput) : (a ++ b).events = a.events ++ b.events := rfl

@[simp] theorem orders_append (a b : ParserOutput) : (a ++ b).orders = a.orders ++ b.orders := rfl

@[simp] theorem positions_append (a b : ParserOutput) :
    (a ++ b).positions = a.positions ++ b.positions := rfl

@[simp] theorem append_empty (a : ParserOutput) : a ++ ({} : ParserOutput) = a := by
  show ParserOutput.append a {} = a
  simp [ParserOutput.append]

theorem append_assoc (a b c : ParserOutput) : a ++ b ++ c = a ++ (b ++ c) := by
  show ParserOutput.append (ParserOutput.append a b) c =
    ParserOutput.append a (ParserOutput.append b c)
  simp [ParserOutput.append, UInt64.add_assoc]

end ParserOutput

/-! ## The parser appends -/

section Append

variable (rawType : String) (data : JsonValue) (tx : TxMeta) (eventIdx : UInt32)
  (a b : ParserOutput)

theorem maybePushFill_append :
    maybePushFill rawType data tx eventIdx (a ++ b) =
      a ++ maybePushFill rawType data tx eventIdx b := by
  show maybePushFill rawType data tx eventIdx (a.append b) =
    a.append (maybePushFill rawType data tx eventIdx b)
  unfold maybePushFill
  cases stringField data marketKeys with
  | none => simp [ParserOutput.append]
  | some marketId => cases stringField data accountKeys <;> simp [ParserOutput.append]

theorem maybePushBuilderRow_append :
    maybePushBuilderRow data tx eventIdx (a ++ b) =
      a ++ maybePushBuilderRow data tx eventIdx b := by
  show maybePushBuilderRow data tx eventIdx (a.append b) =
    a.append (maybePushBuilderRow data tx eventIdx b)
  unfold maybePushBuilderRow
  cases stringField data builderKeys <;> cases stringField data marketKeys <;>
    cases stringField data accountKeys <;> simp [ParserOutput.append]

theorem maybePushOrder_append (eventType : DecibelEventType) :
    maybePushOrder rawType data tx eventIdx (a ++ b) eventType =
      a ++ maybePushOrder rawType data tx eventIdx b eventType := by
  show maybePushOrder rawType data tx eventIdx (a.append b) eventType =
    a.append (maybePushOrder rawType data tx eventIdx b eventType)
  unfold maybePushOrder
  cases stringField data marketKeys <;> cases stringField data accountKeys <;>
    simp [ParserOutput.append]

theorem maybePushPosition_append :
    maybePushPosition data tx eventIdx (a ++ b) =
      a ++ maybePushPosition data tx eventIdx b := by
  show maybePushPosition data tx eventIdx (a.append b) =
    a.append (maybePushPosition data tx eventIdx b)
  unfold maybePushPosition
  cases stringField data marketKeys <;> cases stringField data accountKeys <;>
    simp [ParserOutput.append]

theorem maybePushActivity_append (eventType : DecibelEventType) :
    maybePushActivity data tx eventIdx (a ++ b) eventType =
      a ++ maybePushActivity data tx eventIdx b eventType := by
  show maybePushActivity data tx eventIdx (a.append b) eventType =
    a.append (maybePushActivity data tx eventIdx b eventType)
  unfold maybePushActivity
  cases stringField data marketKeys <;> simp [ParserOutput.append]

theorem recordEvent_append (lineNo : Nat) (normalized : NormalizedEvent) :
    recordEvent rawType lineNo normalized (a ++ b) =
      a ++ recordEvent rawType lineNo normalized b := by
  show recordEvent rawType lineNo normalized (a.append b) =
    a.append (recordEvent rawType lineNo normalized b)
  unfold recordEvent
  cases normalized.eventType <;> simp [ParserOutput.append]

theorem pushRows_append (eventType : DecibelEventType) :
    pushRows rawType data eventType tx eventIdx (a ++ b) =
      a ++ pushRows rawType data eventType tx eventIdx b := by
  cases eventType <;>
    simp only [pushRows, maybePushFill_append, maybePushBuilderRow_append, maybePushOrder_append,
      maybePushPosition_append, maybePushActivity_append]

end Append

section Events

variable {json : JsonText} {options : ParserOptions}

/-- What the parser makes of an event does not depend on what it made before. -/
theorem parseEvent_append (event : JsonValue) (tx : TxMeta) (fallbackEventIdx : UInt32)
    (lineNo : Nat) (a b : ParserOutput) :
    parseEvent json options event tx fallbackEventIdx lineNo (a ++ b) =
      (a ++ ·) <$> parseEvent json options event tx fallbackEventIdx lineNo b := by
  unfold parseEvent
  cases stringField event ["type", "event_type", "raw_event_type"] with
  | none => rfl
  | some rawType =>
    simp only []
    -- an event of another package adds nothing to either side
    split_ifs
    · rfl
    · rw [recordEvent_append, pushRows_append]
      rfl

/-- What the parser makes of a Decibel event. -/
def eventRows (json : JsonText) (options : ParserOptions) (event : JsonValue) (rawType : String)
    (tx : TxMeta) (fallbackEventIdx : UInt32) (lineNo : Nat) : ParserOutput :=
  let eventIdx := (u32Field event ["event_idx", "event_index"]).getD fallbackEventIdx
  let data := ((event.get "data").or (event.get "payload")).getD (.object [])
  let eventType := classifyEventType rawType data
  pushRows rawType data eventType tx eventIdx
    (recordEvent rawType lineNo (normalizedEvent json options data eventType tx eventIdx) {})

/-- An event that is parsed adds its rows behind the others, none if it is of another contract. -/
theorem parseEvent_eq_ok {event : JsonValue} {tx : TxMeta} {fallbackEventIdx : UInt32}
    {lineNo : Nat} {before after : ParserOutput}
    (h : parseEvent json options event tx fallbackEventIdx lineNo before = .ok after) :
    ∃ rawType, stringField event ["type", "event_type", "raw_event_type"] = some rawType ∧
      after = before ++ (if matchesDecibelAddress event rawType options then
        eventRows json options event rawType tx fallbackEventIdx lineNo else {}) := by
  -- what the event adds is what it makes of an empty output
  rw [← ParserOutput.append_empty before, parseEvent_append] at h
  unfold parseEvent at h
  cases htype : stringField event ["type", "event_type", "raw_event_type"] with
  | none =>
    rw [htype] at h
    cases h
  | some rawType =>
    rw [htype] at h
    refine ⟨rawType, rfl, ?_⟩
    cases hmatches : matchesDecibelAddress event rawType options with
    | false =>
      simp only [hmatches, Bool.not_false, if_true] at h
      exact (Except.ok.inj h).symm
    | true =>
      simp only [hmatches, Bool.not_true, Bool.false_eq_true, if_false, Functor.map, Except.map,
        Except.ok.injEq] at h
      rw [if_pos rfl, ← h, eventRows]

end Events

/-! ## Rows of one event -/

/-- A place in the chain: a version and an event index, in that order. -/
abbrev ChainPlace := UInt64 ×ₗ UInt32

def NormalizedEvent.place (event : NormalizedEvent) : ChainPlace :=
  toLex (event.version, event.eventIdx)

def OrderRow.place (order : OrderRow) : ChainPlace := toLex (order.version, order.eventIdx)

def PositionRow.place (position : PositionRow) : ChainPlace :=
  toLex (position.sourceVersion, position.sourceEventIdx)

/-- Events, orders and positions stand in the order of the chain, no two of a kind at one
place. -/
structure ParserOutput.ChainOrder (output : ParserOutput) : Prop where
  events : output.events.Pairwise (fun a b => a.place < b.place)
  orders : output.orders.Pairwise (fun a b => a.place < b.place)
  positions : output.positions.Pairwise (fun a b => a.place < b.place)

/-- All events, orders and positions stand at places with the given property. -/
structure ParserOutput.Within (at_ : ChainPlace → Prop) (output : ParserOutput) : Prop where
  events : ∀ event ∈ output.events, at_ event.place
  orders : ∀ order ∈ output.orders, at_ order.place
  positions : ∀ position ∈ output.positions, at_ position.place

namespace ParserOutput

theorem ChainOrder.empty : ({} : ParserOutput).ChainOrder := ⟨.nil, .nil, .nil⟩

theorem Within.empty (at_ : ChainPlace → Prop) : ({} : ParserOutput).Within at_ :=
  ⟨by simp, by simp, by simp⟩

theorem Within.imp {at_ at' : ChainPlace → Prop} {output : ParserOutput}
    (h : ∀ place, at_ place → at' place) (hwithin : output.Within at_) : output.Within at' :=
  ⟨fun event hevent => h _ (hwithin.events event hevent),
    fun order horder => h _ (hwithin.orders order horder),
    fun position hposition => h _ (hwithin.positions position hposition)⟩

theorem Within.append {at_ : ChainPlace → Prop} {a b : ParserOutput} (ha : a.Within at_)
    (hb : b.Within at_) : (a ++ b).Within at_ := by
  refine ⟨?_, ?_, ?_⟩
  · intro event hevent
    exact (List.mem_append.1 hevent).elim (ha.events event) (hb.events event)
  · intro order horder
    exact (List.mem_append.1 horder).elim (ha.orders order) (hb.orders order)
  · intro position hposition
    exact (List.mem_append.1 hposition).elim (ha.positions position) (hb.positions position)

/-- Rows at earlier places may stand before rows at later ones. -/
theorem ChainOrder.append {early late : ChainPlace → Prop} {a b : ParserOutput}
    (ha : a.ChainOrder) (hb : b.ChainOrder) (hearly : a.Within early) (hlate : b.Within late)
    (h : ∀ p q, early p → late q → p < q) : (a ++ b).ChainOrder := by
  refine ⟨?_, ?_, ?_⟩
  · -- whatever is in the second part lies behind the first, for each kind of row
    rw [events_append, List.pairwise_append]
    exact ⟨ha.events, hb.events,
      fun p hp q hq => h _ _ (hearly.events p hp) (hlate.events q hq)⟩
  · rw [orders_append, List.pairwise_append]
    exact ⟨ha.orders, hb.orders,
      fun p hp q hq => h _ _ (hearly.orders p hp) (hlate.orders q hq)⟩
  · rw [positions_append, List.pairwise_append]
    exact ⟨ha.positions, hb.positions,
      fun p hp q hq => h _ _ (hearly.positions p hp) (hlate.positions q hq)⟩

/-- What a list of rows at one place says: there is at most one of each kind. -/
structure SingleAt (place : ChainPlace) (output : ParserOutput) : Prop where
  within : output.Within (· = place)
  events : output.events.length ≤ 1
  orders : output.orders.length ≤ 1
  positions : output.positions.length ≤ 1

theorem SingleAt.chainOrder {place : ChainPlace} {output : ParserOutput}
    (h : output.SingleAt place) : output.ChainOrder := by
  have hpairwise : ∀ {α : Type} (R : α → α → Prop) (l : List α), l.length ≤ 1 → l.Pairwise R := by
    intro α R l hl
    match l, hl with
    | [], _ => exact .nil
    | [a], _ => exact List.pairwise_singleton R a
  exact ⟨hpairwise _ _ h.events, hpairwise _ _ h.orders, hpairwise _ _ h.positions⟩

end ParserOutput

section Rows

variable (rawType : String) (data : JsonValue) (tx : TxMeta) (eventIdx : UInt32)

/-- The rows of an event stand at its place, at most one of each kind. -/
theorem pushRows_singleAt (eventType : DecibelEventType) :
    (pushRows rawType data eventType tx eventIdx {}).events = [] ∧
      (pushRows rawType data eventType tx eventIdx {}).SingleAt
        (toLex (tx.version, eventIdx)) := by
  have hnone : ∀ output : ParserOutput, output.events = [] → output.orders = [] →
      output.positions = [] →
      output.events = [] ∧ output.SingleAt (toLex (tx.version, eventIdx)) := by
    -- most branches add only rows of the other kinds, or a warning
    intro output hevents horders hpositions
    exact ⟨hevents, ⟨by simp [hevents], by simp [horders], by simp [hpositions]⟩,
      by simp [hevents], by simp [horders], by simp [hpositions]⟩
  have horder : ∀ eventType, (maybePushOrder rawType data tx eventIdx {} eventType).events = [] ∧
      (maybePushOrder rawType data tx eventIdx {} eventType).SingleAt
        (toLex (tx.version, eventIdx)) := by
    intro eventType
    unfold maybePushOrder
    cases stringField data marketKeys with
    | none => exact hnone _ rfl rfl rfl
    | some marketId =>
      cases stringField data accountKeys with
      | none => exact hnone _ rfl rfl rfl
      | some account => exact ⟨rfl, ⟨by simp, by simp [OrderRow.place], by simp⟩,
          by simp, by simp, by simp⟩
  have hactivity : ∀ eventType,
      (maybePushActivity data tx eventIdx {} eventType).events = [] ∧
        (maybePushActivity data tx eventIdx {} eventType).SingleAt
          (toLex (tx.version, eventIdx)) := by
    intro eventType
    unfold maybePushActivity
    cases stringField data marketKeys <;> exact hnone _ rfl rfl rfl
  cases eventType with
  | orderFilled =>
    -- fills and builder rows are neither events nor orders nor positions
    unfold pushRows maybePushFill maybePushBuilderRow
    cases stringField data builderKeys <;> cases stringField data marketKeys <;>
      cases stringField data accountKeys <;> exact hnone _ rfl rfl rfl
  | orderPlaced => exact horder _
  | orderCancelled => exact horder _
  | positionUpdated =>
    unfold pushRows maybePushPosition
    cases stringField data marketKeys with
    | none => exact hnone _ rfl rfl rfl
    | some marketId =>
      cases stringField data accountKeys with
      | none => exact hnone _ rfl rfl rfl
      | some account => exact ⟨rfl, ⟨by simp, by simp, by simp [PositionRow.place]⟩,
          by simp, by simp, by simp⟩
  | liquidation => exact hactivity _
  | fundingPayment => exact hactivity _
  | marketCreated => exact hactivity _
  | builderFeeAttributed => exact hactivity _
  | unknown tail => exact hnone _ rfl rfl rfl

theorem eventRows_singleAt (lineNo : Nat) (normalized : NormalizedEvent)
    (eventType : DecibelEventType)
    (hplace : normalized.place = toLex (tx.version, eventIdx)) :
    (pushRows rawType data eventType tx eventIdx
      (recordEvent rawType lineNo normalized {})).SingleAt (toLex (tx.version, eventIdx)) := by
  obtain ⟨hevents, hpushed⟩ := pushRows_singleAt rawType data tx eventIdx eventType
  -- recording the event adds it and nothing that has a place of its own
  have hrecorded : recordEvent rawType lineNo normalized {} =
      recordEvent rawType lineNo normalized {} ++ {} := (ParserOutput.append_empty _).symm
  have horders : (recordEvent rawType lineNo normalized {}).orders = [] := by
    unfold recordEvent
    cases normalized.eventType <;> rfl
  have hpositions : (recordEvent rawType lineNo normalized {}).positions = [] := by
    unfold recordEvent
    cases normalized.eventType <;> rfl
  have hrecord : (recordEvent rawType lineNo normalized {}).events = [normalized] := by
    unfold recordEvent
    cases normalized.eventType <;> rfl
  rw [hrecorded, pushRows_append]
  refine ⟨⟨?_, ?_, ?_⟩, ?_, ?_, ?_⟩
  · simp [hrecord, hevents, hplace]
  · simpa [horders] using hpushed.within.orders
  · simpa [hpositions] using hpushed.within.positions
  · simp [hrecord, hevents]
  · simpa [horders] using hpushed.orders
  · simpa [hpositions] using hpushed.positions

end Rows

section Events

variable {json : JsonText} {options : ParserOptions}

/-- A parsed event adds its own rows behind the others: at most one of each kind, at the
place of the event. -/
theorem parseEvent_ok {event : JsonValue} {tx : TxMeta} {fallbackEventIdx : UInt32}
    {lineNo : Nat} {before after : ParserOutput}
    (h : parseEvent json options event tx fallbackEventIdx lineNo before = .ok after) :
    ∃ rows : ParserOutput, after = before ++ rows ∧ rows.SingleAt (toLex (tx.version,
      (u32Field event ["event_idx", "event_index"]).getD fallbackEventIdx)) := by
  rcases parseEvent_eq_ok h with ⟨rawType, _, hafter⟩
  refine ⟨_, hafter, ?_⟩
  -- the rows are none, or all at the place of the event
  cases matchesDecibelAddress event rawType options with
  | false => exact ⟨.empty _, by simp, by simp, by simp⟩
  | true =>
    rw [if_pos rfl, eventRows]
    exact eventRows_singleAt _ _ _ _ _ _ _ rfl

/-- An event from parts stands at the place that the caller gave it. -/
theorem parseDecibelEventFromParts_ok {input : DecibelEventInput} {before after : ParserOutput}
    (h : parseDecibelEventFromParts json options input before = .ok after) :
    ∃ rows : ParserOutput, after = before ++ rows ∧
      rows.SingleAt (toLex (input.version, input.eventIdx)) := by
  unfold parseDecibelEventFromParts at h
  obtain ⟨rows, hafter, hrows⟩ := parseEvent_ok h
  refine ⟨rows, hafter, ?_⟩
  -- the index is read back from the object that the function builds
  have hidx : u32Field (JsonValue.object [
      ("event_idx", .number (.posInt (UInt64.ofNat input.eventIdx.toNat))),
      ("type", .string input.rawType), ("data", input.data)]) ["event_idx", "event_index"] =
      some input.eventIdx := by
    have hlt := input.eventIdx.toNat_lt
    have hword : (UInt64.ofNat input.eventIdx.toNat).toNat = input.eventIdx.toNat :=
      UInt64.toNat_ofNat_of_lt' (by simp only [UInt64.size]; omega)
    show (if (UInt64.ofNat input.eventIdx.toNat).toNat < UInt32.size then _ else none) = _
    rw [hword, if_pos (by simpa [UInt32.size] using hlt), UInt32.ofNat_toNat]
  rw [hidx] at hrows
  exact hrows

end Events

end HotIndex
