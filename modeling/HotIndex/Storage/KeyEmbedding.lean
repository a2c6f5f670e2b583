import HotIndex.Storage.KeyOrder

/-!
# Key Builders are Order Embeddings

The composite key builders of `key.rs` as maps of argument tuples: each builds a key
exactly from arguments whose texts hold no separator, compares its keys as the tuples
compare in segment order, and so gives different arguments different keys. The prefix
builder of a family selects the keys of one first text.
-/

namespace HotIndex

open Lib OrderDual

/-! ## Event types by their key text -/

/-- Only the key text of an unknown type starts with its tag. -/
theorem DecibelEventType.asKey_ne_unknown {t : DecibelEventType} (ht : ∀ raw, t ≠ .unknown raw)
    (raw : String) : t.asKey ≠ (DecibelEventType.unknown raw).asKey := by
  intro h
  have htag : asBytes "unknown:" = [117, 110, 107, 110, 111, 119, 110, 58] := by decide
  -- no other key starts with a `u`
  have hhead : (asBytes t.asKey).head? = some 117 := by
    rw [h, DecibelEventType.asKey, asBytes_append, htag]
    rfl
  cases t with
  | unknown raw' => exact ht raw' rfl
  | _ => revert hhead; decide

/-- The key text determines the event type. -/
theorem DecibelEventType.asKey_injective : Function.Injective DecibelEventType.asKey := by
  intro a b h
  by_cases ha : ∃ raw, a = .unknown raw
  · obtain ⟨raw, rfl⟩ := ha
    by_cases hb : ∃ raw', b = .unknown raw'
    · obtain ⟨raw', rfl⟩ := hb
      have hbytes := congrArg asBytes h
      simp only [DecibelEventType.asKey, asBytes_append] at hbytes
      rw [asBytes_inj (List.append_cancel_left hbytes)]
    · exact absurd h.symm (DecibelEventType.asKey_ne_unknown (not_exists.1 hb) raw)
  · have ha' := not_exists.1 ha
    by_cases hb : ∃ raw', b = .unknown raw'
    · obtain ⟨raw', rfl⟩ := hb
      exact absurd h (DecibelEventType.asKey_ne_unknown ha' raw')
    · have hb' := not_exists.1 hb
      -- two known types: finitely many texts
      revert h
      cases a with
      | unknown raw => exact absurd rfl (ha' raw)
      | _ =>
        cases b with
        | unknown raw => exact absurd rfl (hb' raw)
        | _ => decide

namespace Key

/-! ## Embeddings -/

/-- A key builder of several arguments: what it builds, the arguments that it accepts, and the
tuple that its keys are meant to compare by. -/
structure KeyBuilder (α τ : Type) where
  build : α → Except Fault Bytes
  /-- No text of the arguments contains the separator -/
  TextsOk : α → Prop
  /-- The arguments in segment order -/
  tuple : α → τ

/-- The builder embeds its arguments into the byte keys. -/
structure KeyBuilder.OrderEmbeds {α τ : Type} [LinearOrder τ] (builder : KeyBuilder α τ) :
    Prop where
  /-- Admissible arguments build a key, all others panic -/
  builds_iff : ∀ a, (∃ k, builder.build a = .ok k) ↔ builder.TextsOk a
  /-- Keys compare as the argument tuples -/
  lt_iff : ∀ a b k l, builder.build a = .ok k → builder.build b = .ok l →
    (k < l ↔ builder.tuple a < builder.tuple b)
  /-- A key determines its arguments -/
  injective : ∀ a b k, builder.build a = .ok k → builder.build b = .ok k → a = b

/-- Where the tuple holds all arguments, the order settles injectivity. -/
theorem KeyBuilder.orderEmbeds_of_lt_iff {α τ : Type} [LinearOrder τ] {builder : KeyBuilder α τ}
    (htuple : Function.Injective builder.tuple)
    (hbuild : ∀ a, (∃ k, builder.build a = .ok k) ↔ builder.TextsOk a)
    (hlt : ∀ a b k l, builder.build a = .ok k → builder.build b = .ok l →
      (k < l ↔ builder.tuple a < builder.tuple b)) :
    builder.OrderEmbeds := by
  refine ⟨hbuild, hlt, fun a b k ha hb => htuple ?_⟩
  -- equal keys have tuples of which neither is below the other
  apply le_antisymm
  · exact not_lt.1 (fun h => lt_irrefl k ((hlt b a k k hb ha).2 h))
  · exact not_lt.1 (fun h => lt_irrefl k ((hlt a b k k ha hb).2 h))

/-- A prefix builder selects the keys of a family by their first text. -/
structure KeyBuilder.PrefixSelects {α τ : Type} (builder : KeyBuilder α τ) (first : α → String)
    (buildPrefix : String → Except Fault Bytes) : Prop where
  /-- Every text that may stand in a key has a prefix -/
  builds : ∀ x, TextOk x → ∃ p, buildPrefix x = .ok p
  /-- It is a prefix of exactly the keys whose first text it was built from -/
  prefix_iff : ∀ x a p k, buildPrefix x = .ok p → builder.build a = .ok k →
    (p <+: k ↔ first a = x)

/-- All prefix builders build the same prefix of a text; what differs is the family. -/
theorem KeyBuilder.prefixSelects_of_prefix_iff {α τ : Type} {builder : KeyBuilder α τ}
    {first : α → String} {buildPrefix : String → Except Fault Bytes}
    (hbuild : ∀ x, buildPrefix x = fillsByMarketPrefix x)
    (hiff : ∀ x a p k, buildPrefix x = .ok p → builder.build a = .ok k →
      (p <+: k ↔ first a = x)) : builder.PrefixSelects first buildPrefix := by
  refine ⟨fun x hx => ?_, hiff⟩
  rw [hbuild]
  simpa [fillsByMarketPrefix] using hx

/-! ## The builders -/

namespace KeyBuilder

/-- Arguments: version, event index. -/
def rawEventByVersionIdx : KeyBuilder (UInt64 × UInt32) (UInt64 ×ₗ UInt32) where
  build := fun (version, eventIdx) => .ok (Key.rawEventByVersionIdx version eventIdx)
  TextsOk := fun _ => True
  tuple := fun (version, eventIdx) => toLex (version, eventIdx)

/-- Arguments: event type, version, event index. The type is compared by its key text. -/
def eventByTypeVersion :
    KeyBuilder (DecibelEventType × UInt64 × UInt32) (Text ×ₗ UInt64 ×ₗ UInt32) where
  build := fun (eventType, version, eventIdx) =>
    Key.eventByTypeVersion eventType version eventIdx
  TextsOk := fun (eventType, _) => TextOk eventType.asKey
  tuple := fun (eventType, version, eventIdx) =>
    toLex (⟨eventType.asKey⟩, toLex (version, eventIdx))

/-- Arguments: market, time, version, fill. -/
def fillsByMarketTime : KeyBuilder (String × UInt64 × UInt64 × String)
    (Text ×ₗ UInt64ᵒᵈ ×ₗ UInt64 ×ₗ Text) where
  build := fun (marketId, timestampUs, version, fillId) =>
    Key.fillsByMarketTime marketId timestampUs version fillId
  TextsOk := fun (marketId, _, _, fillId) => TextOk marketId ∧ TextOk fillId
  tuple := fun (marketId, timestampUs, version, fillId) =>
    toLex (⟨marketId⟩, toLex (toDual timestampUs, toLex (version, ⟨fillId⟩)))

/-- Arguments: account, time, market, fill. -/
def fillsByAccountTime : KeyBuilder (String × UInt64 × String × String)
    (Text ×ₗ UInt64ᵒᵈ ×ₗ Text ×ₗ Text) where
  build := fun (account, timestampUs, marketId, fillId) =>
    Key.fillsByAccountTime account timestampUs marketId fillId
  TextsOk := fun (account, _, marketId, fillId) =>
    TextOk account ∧ TextOk marketId ∧ TextOk fillId
  tuple := fun (account, timestampUs, marketId, fillId) =>
    toLex (⟨account⟩, toLex (toDual timestampUs, toLex (⟨marketId⟩, ⟨fillId⟩)))

/-- Arguments: account, market, subaccount. -/
def positionsByAccountMarket : KeyBuilder (String × String × Option String)
    (Text ×ₗ Text ×ₗ WithBot Text) where
  build := fun (account, marketId, subaccount) =>
    Key.positionsByAccountMarket account marketId subaccount
  TextsOk := fun (account, marketId, subaccount) =>
    TextOk account ∧ TextOk marketId ∧ ∀ text ∈ subaccount, TextOk text
  tuple := fun (account, marketId, subaccount) =>
    toLex (⟨account⟩, toLex (⟨marketId⟩, optText subaccount))

/-- Arguments: builder, time, market, fill. -/
def builderCodeFills : KeyBuilder (String × UInt64 × String × String)
    (Text ×ₗ UInt64ᵒᵈ ×ₗ Text ×ₗ Text) where
  build := fun (builderAddr, timestampUs, marketId, fillId) =>
    Key.builderCodeFills builderAddr timestampUs marketId fillId
  TextsOk := fun (builderAddr, _, marketId, fillId) =>
    TextOk builderAddr ∧ TextOk marketId ∧ TextOk fillId
  tuple := fun (builderAddr, timestampUs, marketId, fillId) =>
    toLex (⟨builderAddr⟩, toLex (toDual timestampUs, toLex (⟨marketId⟩, ⟨fillId⟩)))

/-- Arguments: market, time, activity type, version, event index. -/
def marketActivity : KeyBuilder (String × UInt64 × String × UInt64 × UInt32)
    (Text ×ₗ UInt64ᵒᵈ ×ₗ Text ×ₗ UInt64 ×ₗ UInt32) where
  build := fun (marketId, timestampUs, activityType, version, eventIdx) =>
    Key.marketActivity marketId timestampUs activityType version eventIdx
  TextsOk := fun (marketId, _, activityType, _, _) => TextOk marketId ∧ TextOk activityType
  tuple := fun (marketId, timestampUs, activityType, version, eventIdx) =>
    toLex (⟨marketId⟩, toLex (toDual timestampUs, toLex (⟨activityType⟩,
      toLex (version, eventIdx))))

/-- Arguments: network, package address. The network is compared by its name. -/
def ingestCheckpoint : KeyBuilder (Network × String) (Text ×ₗ Text) where
  build := fun (network, packageAddress) => Key.ingestCheckpoint network packageAddress
  TextsOk := fun (_, packageAddress) => TextOk packageAddress
  tuple := fun (network, packageAddress) => toLex (⟨network.asStr⟩, ⟨packageAddress⟩)

theorem rawEventByVersionIdx_embeds : rawEventByVersionIdx.OrderEmbeds := by
  apply orderEmbeds_of_lt_iff
  · intro a b h
    exact h
  · intro a
    simp [rawEventByVersionIdx]
  · intro a b k l hk hl
    cases hk
    cases hl
    exact Key.rawEventByVersionIdx_lt_iff ..

theorem eventByTypeVersion_embeds : eventByTypeVersion.OrderEmbeds := by
  apply orderEmbeds_of_lt_iff
  · intro a b h
    simp only [eventByTypeVersion, toLex_inj, Prod.mk.injEq, Text.mk.injEq] at h
    exact Prod.ext (DecibelEventType.asKey_injective h.1) (Prod.ext h.2.1 h.2.2)
  · intro a
    simp [eventByTypeVersion, eventByTypeVersion_eq_ok_iff]
  · intro a b k l
    exact eventByTypeVersion_lt_iff

theorem fillsByMarketTime_embeds : fillsByMarketTime.OrderEmbeds := by
  apply orderEmbeds_of_lt_iff
  · intro a b h
    simpa [fillsByMarketTime, Prod.ext_iff] using h
  · intro a
    simp [fillsByMarketTime, fillsByMarketTime_eq_ok_iff]
  · intro a b k l
    exact fillsByMarketTime_lt_iff

theorem fillsByAccountTime_embeds : fillsByAccountTime.OrderEmbeds := by
  apply orderEmbeds_of_lt_iff
  · intro a b h
    simpa [fillsByAccountTime, Prod.ext_iff] using h
  · intro a
    simp [fillsByAccountTime, fillsByAccountTime_eq_ok_iff]
  · intro a b k l
    exact fillsByAccountTime_lt_iff

theorem positionsByAccountMarket_embeds : positionsByAccountMarket.OrderEmbeds := by
  apply orderEmbeds_of_lt_iff
  · intro a b h
    simpa [positionsByAccountMarket, Prod.ext_iff, optText_inj] using h
  · intro a
    simp [positionsByAccountMarket, positionsByAccountMarket_eq_ok_iff]
  · intro a b k l
    exact positionsByAccountMarket_lt_iff

theorem builderCodeFills_embeds : builderCodeFills.OrderEmbeds :=
  -- the layout is that of the account index, under the builder's address
  fillsByAccountTime_embeds

theorem marketActivity_embeds : marketActivity.OrderEmbeds := by
  apply orderEmbeds_of_lt_iff
  · intro a b h
    simpa [marketActivity, Prod.ext_iff] using h
  · intro a
    simp [marketActivity, marketActivity_eq_ok_iff]
  · intro a b k l
    exact marketActivity_lt_iff

theorem ingestCheckpoint_embeds : ingestCheckpoint.OrderEmbeds := by
  apply orderEmbeds_of_lt_iff
  · intro a b h
    simp only [ingestCheckpoint, toLex_inj, Prod.mk.injEq, Text.mk.injEq] at h
    exact Prod.ext (Network.asStr_inj h.1) h.2
  · intro a
    simp [ingestCheckpoint, ingestCheckpoint_eq_ok_iff]
  · intro a b k l
    exact ingestCheckpoint_lt_iff

/-! ## The prefix builders -/

theorem fillsByMarketPrefix_selects :
    fillsByMarketTime.PrefixSelects Prod.fst fillsByMarketPrefix := by
  apply prefixSelects_of_prefix_iff (fun _ => rfl)
  intro x a p k hp hk
  exact fillsByMarketTime_prefix_iff hk hp

theorem fillsByAccountPrefix_selects :
    fillsByAccountTime.PrefixSelects Prod.fst fillsByAccountPrefix := by
  apply prefixSelects_of_prefix_iff (fun _ => rfl)
  intro x a p k hp hk
  exact fillsByAccountTime_prefix_iff hk hp

theorem positionsByAccountPrefix_selects :
    positionsByAccountMarket.PrefixSelects Prod.fst positionsByAccountPrefix := by
  apply prefixSelects_of_prefix_iff (fun _ => rfl)
  intro x a p k hp hk
  exact positionsByAccountMarket_prefix_iff hk hp

theorem builderCodeFillsPrefix_selects :
    builderCodeFills.PrefixSelects Prod.fst builderCodeFillsPrefix := by
  apply prefixSelects_of_prefix_iff (fun _ => rfl)
  intro x a p k hp hk
  exact builderCodeFills_prefix_iff hk hp

theorem marketActivityPrefix_selects :
    marketActivity.PrefixSelects Prod.fst marketActivityPrefix := by
  apply prefixSelects_of_prefix_iff (fun _ => rfl)
  intro x a p k hp hk
  exact marketActivity_prefix_iff hk hp

end KeyBuilder

/-- **Keys are order embeddings.** Every composite key builder embeds its arguments, in its
segment order, into the bytewise order of keys; and every prefix builder selects the keys of
its family by their first text. -/
theorem keyBuilders_orderEmbed :
    (KeyBuilder.rawEventByVersionIdx.OrderEmbeds ∧
      KeyBuilder.eventByTypeVersion.OrderEmbeds ∧
      KeyBuilder.fillsByMarketTime.OrderEmbeds ∧
      KeyBuilder.fillsByAccountTime.OrderEmbeds ∧
      KeyBuilder.positionsByAccountMarket.OrderEmbeds ∧
      KeyBuilder.builderCodeFills.OrderEmbeds ∧
      KeyBuilder.marketActivity.OrderEmbeds ∧
      KeyBuilder.ingestCheckpoint.OrderEmbeds) ∧
    KeyBuilder.fillsByMarketTime.PrefixSelects Prod.fst fillsByMarketPrefix ∧
    KeyBuilder.fillsByAccountTime.PrefixSelects Prod.fst fillsByAccountPrefix ∧
    KeyBuilder.positionsByAccountMarket.PrefixSelects Prod.fst positionsByAccountPrefix ∧
    KeyBuilder.builderCodeFills.PrefixSelects Prod.fst builderCodeFillsPrefix ∧
    KeyBuilder.marketActivity.PrefixSelects Prod.fst marketActivityPrefix := by
  refine ⟨⟨KeyBuilder.rawEventByVersionIdx_embeds, KeyBuilder.eventByTypeVersion_embeds,
    KeyBuilder.fillsByMarketTime_embeds, KeyBuilder.fillsByAccountTime_embeds,
    KeyBuilder.positionsByAccountMarket_embeds, KeyBuilder.builderCodeFills_embeds,
    KeyBuilder.marketActivity_embeds, KeyBuilder.ingestCheckpoint_embeds⟩, ?_⟩
  exact ⟨KeyBuilder.fillsByMarketPrefix_selects, KeyBuilder.fillsByAccountPrefix_selects,
    KeyBuilder.positionsByAccountPrefix_selects, KeyBuilder.builderCodeFillsPrefix_selects,
    KeyBuilder.marketActivityPrefix_selects⟩

end Key

end HotIndex
