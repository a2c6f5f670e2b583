import HotIndex.Storage.Key

/-!
# Keys Order Like Their Arguments

For every composite key builder: two keys compare bytewise as the argument tuples
compare lexicographically, in the segment order of the builder, with text compared
as bytes, numbers numerically, timestamps descending and an absent subaccount first.
Equal keys therefore come from equal arguments, and a family's prefix builder
selects exactly the keys whose first text is its own.
-/

namespace HotIndex.Key

open Lib OrderDual

/-- Where keys compare like argument tuples, equal keys have equal tuples. -/
private theorem eq_iff_of_lt_iff {α : Type*} [LinearOrder α] {k₁ k₂ : Bytes} {a₁ a₂ : α}
    (h₁₂ : k₁ < k₂ ↔ a₁ < a₂) (h₂₁ : k₂ < k₁ ↔ a₂ < a₁) : k₁ = k₂ ↔ a₁ = a₂ := by
  -- in a linear order, equal means neither below the other
  constructor
  · intro h
    rw [h, lt_self_iff_false, false_iff, not_lt] at h₁₂
    rw [h, lt_self_iff_false, false_iff, not_lt] at h₂₁
    exact le_antisymm h₂₁ h₁₂
  · intro h
    rw [h, lt_self_iff_false, iff_false, not_lt] at h₁₂
    rw [h, lt_self_iff_false, iff_false, not_lt] at h₂₁
    exact le_antisymm h₂₁ h₁₂

/-! ## Optional text -/

theorem optionalTextSegment_lt_iff (a b : Option String) :
    asBytes (optionalTextSegment a) < asBytes (optionalTextSegment b) ↔
      optText a < optText b := by
  have hnone : asBytes "none" = [110, 111, 110, 101] := by decide
  have hsome : asBytes "some:" = [115, 111, 109, 101, 58] := by decide
  -- the tags `none` and `some:` differ in their first byte, and `none` has the smaller one
  have htag : ∀ v, asBytes "none" < asBytes "some:" ++ asBytes v := by
    intro v
    rw [hnone, hsome]
    exact List.cons_lt_cons_iff.2 (Or.inl (by decide))
  cases a with
  | none =>
    cases b with
    | none => simp [optionalTextSegment, optText]
    | some b => simp [optionalTextSegment, optText, htag b]
  | some a =>
    cases b with
    | none => simp [optionalTextSegment, optText, (htag a).le]
    | some b =>
      simp only [optionalTextSegment, asBytes_append,
        append_lt_append_iff_of_length_eq (rfl : (asBytes "some:").length = _), lt_self_iff_false,
        true_and, false_or, optText, WithBot.coe_lt_coe, Text.lt_iff]

/-! ## Fixed-width keys -/

theorem txByVersion_inj {a b : UInt64} : txByVersion a = txByVersion b ↔ a = b := beU64_inj

theorem rawEventByVersionIdx_lt_iff (v₁ v₂ : UInt64) (i₁ i₂ : UInt32) :
    rawEventByVersionIdx v₁ i₁ < rawEventByVersionIdx v₂ i₂ ↔
      toLex (v₁, i₁) < toLex (v₂, i₂) := by
  unfold rawEventByVersionIdx
  -- the version has a fixed width, so the index decides behind equal versions
  rw [append_lt_append_iff_of_length_eq (by simp [beU64]), beU64_lt_iff, beU64_inj,
    beU32_lt_iff, Prod.Lex.toLex_lt_toLex]

theorem rawEventByVersionIdx_inj {v₁ v₂ : UInt64} {i₁ i₂ : UInt32} :
    rawEventByVersionIdx v₁ i₁ = rawEventByVersionIdx v₂ i₂ ↔ v₁ = v₂ ∧ i₁ = i₂ := by
  rw [eq_iff_of_lt_iff (rawEventByVersionIdx_lt_iff v₁ v₂ i₁ i₂)
    (rawEventByVersionIdx_lt_iff v₂ v₁ i₂ i₁), toLex_inj, Prod.mk.injEq]

/-! ## Keys that start with a text -/

theorem eventByTypeVersion_lt_iff {t₁ t₂ : DecibelEventType} {v₁ v₂ : UInt64} {i₁ i₂ : UInt32}
    {k₁ k₂ : Bytes} (h₁ : eventByTypeVersion t₁ v₁ i₁ = .ok k₁)
    (h₂ : eventByTypeVersion t₂ v₂ i₂ = .ok k₂) :
    k₁ < k₂ ↔
      toLex ((⟨t₁.asKey⟩ : Text), toLex (v₁, i₁)) < toLex (⟨t₂.asKey⟩, toLex (v₂, i₂)) := by
  obtain ⟨ht₁, rfl⟩ := (eventByTypeVersion_eq_ok_iff ..).1 h₁
  obtain ⟨ht₂, rfl⟩ := (eventByTypeVersion_eq_ok_iff ..).1 h₂
  simp only [text_sep_lt_iff ht₁ ht₂, beU64_sep_lt_iff, beU32_lt_iff, Prod.Lex.toLex_lt_toLex]

theorem fillsByMarketTime_lt_iff {m₁ m₂ f₁ f₂ : String} {ts₁ ts₂ v₁ v₂ : UInt64}
    {k₁ k₂ : Bytes} (h₁ : fillsByMarketTime m₁ ts₁ v₁ f₁ = .ok k₁)
    (h₂ : fillsByMarketTime m₂ ts₂ v₂ f₂ = .ok k₂) :
    k₁ < k₂ ↔
      toLex ((⟨m₁⟩ : Text), toLex (toDual ts₁, toLex (v₁, (⟨f₁⟩ : Text)))) <
        toLex (⟨m₂⟩, toLex (toDual ts₂, toLex (v₂, ⟨f₂⟩))) := by
  obtain ⟨⟨hm₁, -⟩, rfl⟩ := (fillsByMarketTime_eq_ok_iff ..).1 h₁
  obtain ⟨⟨hm₂, -⟩, rfl⟩ := (fillsByMarketTime_eq_ok_iff ..).1 h₂
  -- segment by segment; only the time runs backwards
  simp only [text_sep_lt_iff hm₁ hm₂, reverseTsKey_sep_lt_iff, beU64_sep_lt_iff,
    Prod.Lex.toLex_lt_toLex, toDual_lt_toDual, toDual_inj, Text.lt_iff]

theorem fillsByMarketTime_inj {m₁ m₂ f₁ f₂ : String} {ts₁ ts₂ v₁ v₂ : UInt64} {k₁ k₂ : Bytes}
    (h₁ : fillsByMarketTime m₁ ts₁ v₁ f₁ = .ok k₁)
    (h₂ : fillsByMarketTime m₂ ts₂ v₂ f₂ = .ok k₂) :
    k₁ = k₂ ↔ m₁ = m₂ ∧ ts₁ = ts₂ ∧ v₁ = v₂ ∧ f₁ = f₂ := by
  rw [eq_iff_of_lt_iff (fillsByMarketTime_lt_iff h₁ h₂) (fillsByMarketTime_lt_iff h₂ h₁)]
  simp

theorem fillsByAccountTime_lt_iff {a₁ a₂ m₁ m₂ f₁ f₂ : String} {ts₁ ts₂ : UInt64}
    {k₁ k₂ : Bytes} (h₁ : fillsByAccountTime a₁ ts₁ m₁ f₁ = .ok k₁)
    (h₂ : fillsByAccountTime a₂ ts₂ m₂ f₂ = .ok k₂) :
    k₁ < k₂ ↔
      toLex ((⟨a₁⟩ : Text), toLex (toDual ts₁, toLex ((⟨m₁⟩ : Text), (⟨f₁⟩ : Text)))) <
        toLex (⟨a₂⟩, toLex (toDual ts₂, toLex (⟨m₂⟩, ⟨f₂⟩))) := by
  obtain ⟨⟨ha₁, hm₁, -⟩, rfl⟩ := (fillsByAccountTime_eq_ok_iff ..).1 h₁
  obtain ⟨⟨ha₂, hm₂, -⟩, rfl⟩ := (fillsByAccountTime_eq_ok_iff ..).1 h₂
  simp only [text_sep_lt_iff ha₁ ha₂, text_sep_lt_iff hm₁ hm₂, reverseTsKey_sep_lt_iff,
    Prod.Lex.toLex_lt_toLex, toDual_lt_toDual, toDual_inj, Text.lt_iff]

theorem fillsByAccountTime_inj {a₁ a₂ m₁ m₂ f₁ f₂ : String} {ts₁ ts₂ : UInt64} {k₁ k₂ : Bytes}
    (h₁ : fillsByAccountTime a₁ ts₁ m₁ f₁ = .ok k₁)
    (h₂ : fillsByAccountTime a₂ ts₂ m₂ f₂ = .ok k₂) :
    k₁ = k₂ ↔ a₁ = a₂ ∧ ts₁ = ts₂ ∧ m₁ = m₂ ∧ f₁ = f₂ := by
  rw [eq_iff_of_lt_iff (fillsByAccountTime_lt_iff h₁ h₂) (fillsByAccountTime_lt_iff h₂ h₁)]
  simp

theorem orderById_inj {o₁ o₂ : String} {k₁ k₂ : Bytes} (h₁ : orderById o₁ = .ok k₁)
    (h₂ : orderById o₂ = .ok k₂) : k₁ = k₂ ↔ o₁ = o₂ := by
  obtain ⟨-, rfl⟩ := (orderById_eq_ok_iff ..).1 h₁
  obtain ⟨-, rfl⟩ := (orderById_eq_ok_iff ..).1 h₂
  exact ⟨asBytes_inj, congrArg asBytes⟩

theorem positionsByAccountMarket_lt_iff {a₁ a₂ m₁ m₂ : String} {s₁ s₂ : Option String}
    {k₁ k₂ : Bytes} (h₁ : positionsByAccountMarket a₁ m₁ s₁ = .ok k₁)
    (h₂ : positionsByAccountMarket a₂ m₂ s₂ = .ok k₂) :
    k₁ < k₂ ↔
      toLex ((⟨a₁⟩ : Text), toLex ((⟨m₁⟩ : Text), optText s₁)) <
        toLex (⟨a₂⟩, toLex (⟨m₂⟩, optText s₂)) := by
  obtain ⟨⟨ha₁, hm₁, -⟩, rfl⟩ := (positionsByAccountMarket_eq_ok_iff ..).1 h₁
  obtain ⟨⟨ha₂, hm₂, -⟩, rfl⟩ := (positionsByAccountMarket_eq_ok_iff ..).1 h₂
  simp only [text_sep_lt_iff ha₁ ha₂, text_sep_lt_iff hm₁ hm₂, optionalTextSegment_lt_iff,
    Prod.Lex.toLex_lt_toLex]

theorem positionsByAccountMarket_inj {a₁ a₂ m₁ m₂ : String} {s₁ s₂ : Option String}
    {k₁ k₂ : Bytes} (h₁ : positionsByAccountMarket a₁ m₁ s₁ = .ok k₁)
    (h₂ : positionsByAccountMarket a₂ m₂ s₂ = .ok k₂) :
    k₁ = k₂ ↔ a₁ = a₂ ∧ m₁ = m₂ ∧ s₁ = s₂ := by
  rw [eq_iff_of_lt_iff (positionsByAccountMarket_lt_iff h₁ h₂)
    (positionsByAccountMarket_lt_iff h₂ h₁)]
  simp [optText_inj]

/-- What a prefix builder selects: the keys whose first text is its own. -/
private theorem text_prefix_iff {a b : String} {x p : Bytes} (hb : TextOk b)
    (hp : TextOk a ∧ asBytes a ++ [sep] = p) : p <+: asBytes b ++ sep :: x ↔ b = a := by
  obtain ⟨ha, rfl⟩ := hp
  rw [append_sep_prefix_iff ha hb]
  exact ⟨fun h => (asBytes_inj h).symm, fun h => congrArg asBytes h.symm⟩

theorem fillsByMarketPrefix_eq_ok {marketId : String} (h : TextOk marketId) :
    fillsByMarketPrefix marketId = .ok (asBytes marketId ++ [sep]) := by
  simp [fillsByMarketPrefix, prefixSegments, joinSegments, h]

theorem fillsByAccountPrefix_eq_ok {account : String} (h : TextOk account) :
    fillsByAccountPrefix account = .ok (asBytes account ++ [sep]) :=
  fillsByMarketPrefix_eq_ok h

theorem builderCodeFillsPrefix_eq_ok {builderAddr : String} (h : TextOk builderAddr) :
    builderCodeFillsPrefix builderAddr = .ok (asBytes builderAddr ++ [sep]) :=
  fillsByMarketPrefix_eq_ok h

theorem marketActivityPrefix_eq_ok {marketId : String} (h : TextOk marketId) :
    marketActivityPrefix marketId = .ok (asBytes marketId ++ [sep]) :=
  fillsByMarketPrefix_eq_ok h

theorem fillsByMarketTime_prefix_iff {a m f : String} {ts v : UInt64} {k p : Bytes}
    (hk : fillsByMarketTime m ts v f = .ok k) (hp : fillsByMarketPrefix a = .ok p) :
    p <+: k ↔ m = a := by
  obtain ⟨⟨hm, -⟩, rfl⟩ := (fillsByMarketTime_eq_ok_iff ..).1 hk
  exact text_prefix_iff hm (by
    simpa [fillsByMarketPrefix, prefixSegments, joinSegments] using hp)

theorem fillsByAccountTime_prefix_iff {a b m f : String} {ts : UInt64} {k p : Bytes}
    (hk : fillsByAccountTime b ts m f = .ok k) (hp : fillsByAccountPrefix a = .ok p) :
    p <+: k ↔ b = a := by
  obtain ⟨⟨hb, -⟩, rfl⟩ := (fillsByAccountTime_eq_ok_iff ..).1 hk
  exact text_prefix_iff hb (by
    simpa [fillsByAccountPrefix, prefixSegments, joinSegments] using hp)

theorem positionsByAccountMarket_prefix_iff {a b m : String} {s : Option String} {k p : Bytes}
    (hk : positionsByAccountMarket b m s = .ok k) (hp : positionsByAccountPrefix a = .ok p) :
    p <+: k ↔ b = a := by
  obtain ⟨⟨hb, -⟩, rfl⟩ := (positionsByAccountMarket_eq_ok_iff ..).1 hk
  exact text_prefix_iff hb (by
    simpa [positionsByAccountPrefix, prefixSegments, joinSegments] using hp)

theorem builderCodeFills_lt_iff {b₁ b₂ m₁ m₂ f₁ f₂ : String} {ts₁ ts₂ : UInt64}
    {k₁ k₂ : Bytes} (h₁ : builderCodeFills b₁ ts₁ m₁ f₁ = .ok k₁)
    (h₂ : builderCodeFills b₂ ts₂ m₂ f₂ = .ok k₂) :
    k₁ < k₂ ↔
      toLex ((⟨b₁⟩ : Text), toLex (toDual ts₁, toLex ((⟨m₁⟩ : Text), (⟨f₁⟩ : Text)))) <
        toLex (⟨b₂⟩, toLex (toDual ts₂, toLex (⟨m₂⟩, ⟨f₂⟩))) :=
  -- the layout is that of the account index, under the builder's address
  fillsByAccountTime_lt_iff h₁ h₂

theorem builderCodeFills_inj {b₁ b₂ m₁ m₂ f₁ f₂ : String} {ts₁ ts₂ : UInt64} {k₁ k₂ : Bytes}
    (h₁ : builderCodeFills b₁ ts₁ m₁ f₁ = .ok k₁)
    (h₂ : builderCodeFills b₂ ts₂ m₂ f₂ = .ok k₂) :
    k₁ = k₂ ↔ b₁ = b₂ ∧ ts₁ = ts₂ ∧ m₁ = m₂ ∧ f₁ = f₂ :=
  fillsByAccountTime_inj h₁ h₂

theorem builderCodeFills_prefix_iff {a b m f : String} {ts : UInt64} {k p : Bytes}
    (hk : builderCodeFills b ts m f = .ok k) (hp : builderCodeFillsPrefix a = .ok p) :
    p <+: k ↔ b = a := by
  obtain ⟨⟨hb, -⟩, rfl⟩ := (builderCodeFills_eq_ok_iff ..).1 hk
  exact text_prefix_iff hb (by
    simpa [builderCodeFillsPrefix, prefixSegments, joinSegments] using hp)

theorem marketActivity_lt_iff {m₁ m₂ t₁ t₂ : String} {ts₁ ts₂ v₁ v₂ : UInt64} {i₁ i₂ : UInt32}
    {k₁ k₂ : Bytes} (h₁ : marketActivity m₁ ts₁ t₁ v₁ i₁ = .ok k₁)
    (h₂ : marketActivity m₂ ts₂ t₂ v₂ i₂ = .ok k₂) :
    k₁ < k₂ ↔
      toLex ((⟨m₁⟩ : Text), toLex (toDual ts₁, toLex ((⟨t₁⟩ : Text), toLex (v₁, i₁)))) <
        toLex (⟨m₂⟩, toLex (toDual ts₂, toLex (⟨t₂⟩, toLex (v₂, i₂)))) := by
  obtain ⟨⟨hm₁, ht₁⟩, rfl⟩ := (marketActivity_eq_ok_iff ..).1 h₁
  obtain ⟨⟨hm₂, ht₂⟩, rfl⟩ := (marketActivity_eq_ok_iff ..).1 h₂
  simp only [text_sep_lt_iff hm₁ hm₂, text_sep_lt_iff ht₁ ht₂, reverseTsKey_sep_lt_iff,
    beU64_sep_lt_iff, beU32_lt_iff, Prod.Lex.toLex_lt_toLex, toDual_lt_toDual, toDual_inj]

theorem marketActivity_inj {m₁ m₂ t₁ t₂ : String} {ts₁ ts₂ v₁ v₂ : UInt64} {i₁ i₂ : UInt32}
    {k₁ k₂ : Bytes} (h₁ : marketActivity m₁ ts₁ t₁ v₁ i₁ = .ok k₁)
    (h₂ : marketActivity m₂ ts₂ t₂ v₂ i₂ = .ok k₂) :
    k₁ = k₂ ↔ m₁ = m₂ ∧ ts₁ = ts₂ ∧ t₁ = t₂ ∧ v₁ = v₂ ∧ i₁ = i₂ := by
  rw [eq_iff_of_lt_iff (marketActivity_lt_iff h₁ h₂) (marketActivity_lt_iff h₂ h₁)]
  simp

theorem marketActivity_prefix_iff {a m t : String} {ts v : UInt64} {i : UInt32} {k p : Bytes}
    (hk : marketActivity m ts t v i = .ok k) (hp : marketActivityPrefix a = .ok p) :
    p <+: k ↔ m = a := by
  obtain ⟨⟨hm, -⟩, rfl⟩ := (marketActivity_eq_ok_iff ..).1 hk
  exact text_prefix_iff hm (by
    simpa [marketActivityPrefix, prefixSegments, joinSegments] using hp)

theorem ingestCheckpoint_lt_iff {n₁ n₂ : Network} {p₁ p₂ : String} {k₁ k₂ : Bytes}
    (h₁ : ingestCheckpoint n₁ p₁ = .ok k₁) (h₂ : ingestCheckpoint n₂ p₂ = .ok k₂) :
    k₁ < k₂ ↔
      toLex ((⟨n₁.asStr⟩ : Text), (⟨p₁⟩ : Text)) < toLex (⟨n₂.asStr⟩, ⟨p₂⟩) := by
  obtain ⟨-, rfl⟩ := (ingestCheckpoint_eq_ok_iff ..).1 h₁
  obtain ⟨-, rfl⟩ := (ingestCheckpoint_eq_ok_iff ..).1 h₂
  simp only [text_sep_lt_iff (textOk_network n₁) (textOk_network n₂), Prod.Lex.toLex_lt_toLex,
    Text.lt_iff]

theorem ingestCheckpoint_inj {n₁ n₂ : Network} {p₁ p₂ : String} {k₁ k₂ : Bytes}
    (h₁ : ingestCheckpoint n₁ p₁ = .ok k₁) (h₂ : ingestCheckpoint n₂ p₂ = .ok k₂) :
    k₁ = k₂ ↔ n₁ = n₂ ∧ p₁ = p₂ := by
  rw [eq_iff_of_lt_iff (ingestCheckpoint_lt_iff h₁ h₂) (ingestCheckpoint_lt_iff h₂ h₁)]
  simp only [toLex_inj, Prod.mk.injEq, Text.mk.injEq]
  exact and_congr_left' ⟨Network.asStr_inj, congrArg _⟩

end HotIndex.Key
