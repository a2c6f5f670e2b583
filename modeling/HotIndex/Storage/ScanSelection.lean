import HotIndex.Lib.ScanOrder
import HotIndex.Storage.FillIndexes

/-!
# What the Scans Select

A scan of the memory engine filters a map and sorts the rows by a comparator chain; a scan
of the RocksDB engine reads the rows under a key prefix in byte order. For rows with
distinct identities both return the first rows of one selection, each sorted by a tuple of
its own.
-/

namespace HotIndex

open Lib OrderDual

/-! ## Reading a prefix -/

/-- A scan with a positive limit has room for as many rows. -/
theorem RocksDb.scanRoom_eq {limit : Limit} (h : limit ≠ .rows 0) :
    RocksDb.scanRoom limit 0 = limit := by
  cases limit with
  | max => rfl
  | rows count =>
    have hpos : count ≠ 0 := fun he => h (congrArg Limit.rows he)
    have hroom : max (count - 0) 1 = count := by omega
    exact congrArg Limit.rows hroom

namespace RocksDb

section Selection

variable {α κ : Type} [LinearOrder κ] {db : RocksDb} {codec : Codec α} {family : ColumnFamily}
  {rows : List α} {key : α → Except Fault Bytes} {keyPrefix : Bytes} {limit : Limit}
  {text : String}

/-- A family in which no key is written twice lists all rows in key order. -/
theorem entries_eq_sortOn
    (hcf : db.cf family = SortedMap.ofList
      (rows.map (fun row => (built (key row), codec.toVec row))))
    (hkeys : (rows.map (fun row => built (key row))).Nodup) :
    (db.cf family).entries =
      (sortOn (fun row => built (key row)) rows).map
        (fun row => (built (key row), codec.toVec row)) := by
  have hnodup : ((rows.map (fun row => (built (key row), codec.toVec row))).map
      Prod.fst).Nodup := by
    rw [List.map_map]
    exact hkeys
  -- a sorted map without a key twice is its rows, sorted by their keys
  rw [hcf, ← SortedMap.sortOn_fst_eq_of_mem_iff hnodup
    (fun p => (SortedMap.mem_ofList_of_nodup hnodup p).symm)]
  exact (List.map_insertionSort _ _ (fun row => (built (key row), codec.toVec row)) rows
    (fun _ _ _ _ => Iff.rfl)).symm

/-- **A scan as a sorted selection.** Where byte keys compare as a text and then `scanKey`, and
the prefix selects the keys of one text, the scan lists the rows of that text in the order of
`scanKey`. -/
theorem scanPrefix_text (textOf : α → String) (scanKey : α → κ)
    (hcf : db.cf family = SortedMap.ofList
      (rows.map (fun row => (built (key row), codec.toVec row))))
    (hkey : ∀ row ∈ rows, ∃ k, key row = .ok k) (hjson : ∀ row ∈ rows, codec.RoundTrips row)
    (hnodup : (rows.map (fun row => toLex ((⟨textOf row⟩ : Text), scanKey row))).Nodup)
    (hbegins : ∀ row k, key row = .ok k → (keyPrefix <+: k ↔ textOf row = text))
    (hlt : ∀ a b ka kb, key a = .ok ka → key b = .ok kb →
      (ka < kb ↔ toLex ((⟨textOf a⟩ : Text), scanKey a) < toLex (⟨textOf b⟩, scanKey b))) :
    scanPrefix db codec family (.ok keyPrefix) limit =
      .ok ((scanRoom limit 0).truncate
        (sortOn scanKey (rows.filter (fun row => textOf row == text)))) := by
  have hbuilt : ∀ a ∈ rows, ∀ b ∈ rows, built (key a) < built (key b) ↔
      toLex ((⟨textOf a⟩ : Text), scanKey a) < toLex (⟨textOf b⟩, scanKey b) := by
    intro a ha b hb
    obtain ⟨ka, hka⟩ := hkey a ha
    obtain ⟨kb, hkb⟩ := hkey b hb
    rw [built_of_ok hka, built_of_ok hkb, hlt a b ka kb hka hkb]
  have hkeys : (rows.map (fun row => built (key row))).Nodup := by
    rw [List.Nodup, List.pairwise_map] at hnodup ⊢
    refine hnodup.imp_of_mem (fun {a b} ha hb hne he => ?_)
    rcases lt_or_gt_of_ne hne with h | h
    · exact ((hbuilt a ha b hb).2 h).ne he
    · exact ((hbuilt b hb a ha).2 h).ne' he
  -- the prefix selects the rows of the text
  have hfilter : rows.filter (fun row => decide (keyPrefix <+: built (key row))) =
      rows.filter (fun row => textOf row == text) := by
    apply List.filter_congr
    intro row hrow
    obtain ⟨k, hk⟩ := hkey row hrow
    rw [built_of_ok hk, Bool.eq_iff_iff, decide_eq_true_iff, beq_iff_eq]
    exact hbegins row k hk
  -- within one text, only `scanKey` is left to compare
  have hscanKey : ((rows.filter (fun row => textOf row == text)).map scanKey).Nodup := by
    have hsub := (List.filter_sublist (p := fun row => textOf row == text)).map
      (fun row => toLex ((⟨textOf row⟩ : Text), scanKey row)) |>.nodup hnodup
    rw [List.Nodup, List.pairwise_map] at hsub ⊢
    refine hsub.imp_of_mem (fun {a b} ha hb hne he => hne ?_)
    rw [beq_iff_eq.1 (List.mem_filter.1 ha).2, beq_iff_eq.1 (List.mem_filter.1 hb).2, he]
  have hsort : sortOn (fun row => built (key row))
      (rows.filter (fun row => textOf row == text)) =
      sortOn scanKey (rows.filter (fun row => textOf row == text)) := by
    apply sortOn_congr_key hscanKey
    intro a ha b hb hab
    obtain ⟨ha, hta⟩ := List.mem_filter.1 ha
    obtain ⟨hb, htb⟩ := List.mem_filter.1 hb
    rw [hbuilt a ha b hb, beq_iff_eq.1 hta, beq_iff_eq.1 htb]
    exact Prod.Lex.toLex_lt_toLex.2 (.inr ⟨rfl, hab⟩)
  rw [scanPrefix_ok, entries_eq_sortOn hcf hkeys, List.filter_map, ← Limit.map_truncate,
    List.mapM_map]
  show List.mapM _ ((scanRoom limit 0).truncate ((sortOn _ rows).filter
    (fun row => decide (keyPrefix <+: built (key row))))) = _
  rw [filter_sortOn hkeys, hfilter, hsort]
  have hdecode : ∀ row ∈ (scanRoom limit 0).truncate
      (sortOn scanKey (rows.filter (fun row => textOf row == text))),
      codec.decode (codec.toVec row) = .ok (id row) := by
    intro row hrow
    have hmem := mem_sortOn.1 (Limit.mem_of_mem_truncate hrow)
    exact Codec.decode_toVec (hjson row (List.mem_of_mem_filter hmem))
  exact (mapM_eq_ok hdecode).trans (by rw [List.map_id])

end Selection

end RocksDb

/-! ## Fills -/

/-- The fills of a market, in the order they were put. -/
def marketFills (ops : List PutOp) (marketId : String) : List FillRow :=
  (ops.filterMap PutOp.fill?).filter (fun fill => fill.marketId == marketId)

/-- The fills of an account, in the order they were put. -/
def accountFills (ops : List PutOp) (account : String) : List FillRow :=
  (ops.filterMap PutOp.fill?).filter (fun fill => fill.account == account)

/-- The order of the fills of one market in `cf_fills_by_market_time`. -/
def FillRow.marketScanKey (fill : FillRow) : UInt64ᵒᵈ ×ₗ UInt64 ×ₗ Text :=
  toLex (toDual fill.timestampUs, toLex (fill.version, ⟨fill.fillId⟩))

/-- The order of the fills of one account in `cf_fills_by_account_time`. -/
def FillRow.accountScanKey (fill : FillRow) : UInt64ᵒᵈ ×ₗ Text ×ₗ Text :=
  toLex (toDual fill.timestampUs, toLex (⟨fill.marketId⟩, ⟨fill.fillId⟩))

section Scans

open RocksDb (built built_of_ok afterRun cf_afterRun filed)

variable {ops : List PutOp} {json : SerdeJson}

/-- Fills with distinct ids have distinct images under any key that determines the id. -/
theorem nodup_map_of_fillId {κ : Type} {key : FillRow → κ} {fills : List FillRow}
    (h : (fills.map FillRow.fillId).Nodup)
    (hkey : ∀ a ∈ fills, ∀ b ∈ fills, key a = key b → a.fillId = b.fillId) :
    (fills.map key).Nodup := by
  rw [List.Nodup, List.pairwise_map] at h ⊢
  exact h.imp_of_mem (fun ha hb hne he => hne (hkey _ ha _ hb he))

theorem mem_fills {fill : FillRow} :
    fill ∈ ops.filterMap PutOp.fill? ↔ .putFill fill ∈ ops := by
  rw [List.mem_filterMap]
  constructor
  · intro ⟨op, hop, hfill⟩
    cases op <;> cases hfill
    exact hop
  · intro hop
    exact ⟨_, hop, rfl⟩

theorem fillsById_values_perm (hdistinct : ((ops.filterMap PutOp.fill?).map FillRow.fillId).Nodup) :
    (MemoryEngine.empty.run ops).fillsById.values.Perm (ops.filterMap PutOp.fill?) := by
  rw [MemoryEngine.fillsById_run, filterMap_fillEntry_eq]
  refine (SortedMap.values_ofList_perm ?_).trans ?_
  · rw [List.map_map]
    exact nodup_map_of_fillId hdistinct (fun a _ b _ he => congrArg Text.str he)
  · rw [List.map_map]
    exact List.Perm.of_eq (List.map_id _)

/-- The memory engine's fill scans sort a selection of the fills that were put. -/
theorem sortFills_selected (hdistinct : ((ops.filterMap PutOp.fill?).map FillRow.fillId).Nodup)
    (selected : FillRow → Bool) (limit : Limit) :
    limit.truncate (MemoryEngine.sortFillsRecentFirst
        ((MemoryEngine.empty.run ops).fillsById.values.filter selected)) =
      limit.truncate (sortOn MemoryEngine.recentFirstKey
        ((ops.filterMap PutOp.fill?).filter selected)) := by
  have hperm := (fillsById_values_perm hdistinct).filter selected
  unfold MemoryEngine.sortFillsRecentFirst
  -- the sort is stable, but its key has no ties
  rw [sortOn_congr_perm hperm]
  apply (hperm.map _).nodup_iff.2
  apply nodup_map_of_fillId ((List.filter_sublist.map _).nodup hdistinct)
  intro a _ b _ he
  simp only [MemoryEngine.recentFirstKey, toLex_inj, Prod.mk.injEq, Text.mk.injEq] at he
  exact he.2.2.2

/-- The RocksDB engine's scan of a market sorts the market's fills by `marketScanKey`. -/
theorem RocksDb.scanMarketFills_eq (hText : ∀ op ∈ ops, op.TextOk)
    (hjson : ∀ op ∈ ops, json.RoundTrips op)
    (hdistinct : ((ops.filterMap PutOp.fill?).map FillRow.fillId).Nodup) {marketId : String}
    (hMarket : Key.TextOk marketId) (limit : Limit) :
    (afterRun json ops).scanMarketFills json marketId limit =
      .ok ((RocksDb.scanRoom limit 0).truncate (sortOn FillRow.marketScanKey
        ((ops.filterMap PutOp.fill?).filter (fun fill => fill.marketId == marketId)))) := by
  have hbegins := Key.fillsByMarketPrefix_eq_ok hMarket
  unfold RocksDb.scanMarketFills
  rw [hbegins]
  -- what `scanPrefix_text` asks of a family: keys that are built, read back, distinct, and
  -- ordered as the tuples are
  apply RocksDb.scanPrefix_text FillRow.marketId FillRow.marketScanKey
    (RocksDb.afterRun_fillsByMarketTime json ops)
  · exact fun fill hfill => (RocksDb.fill_keys_ok (hText _ (mem_fills.1 hfill))).1
  · exact fun fill hfill => hjson _ (mem_fills.1 hfill)
  · exact nodup_map_of_fillId hdistinct (fun a _ b _ he =>
      congrArg (fun key => (ofLex (ofLex (ofLex key).2).2).2.str) he)
  · exact fun fill k hk => Key.fillsByMarketTime_prefix_iff hk hbegins
  · exact fun a b ka kb hka hkb => Key.fillsByMarketTime_lt_iff hka hkb

/-- The RocksDB engine's scan of an account sorts the account's fills by `accountScanKey`. -/
theorem RocksDb.scanAccountFills_eq (hText : ∀ op ∈ ops, op.TextOk)
    (hjson : ∀ op ∈ ops, json.RoundTrips op)
    (hdistinct : ((ops.filterMap PutOp.fill?).map FillRow.fillId).Nodup) {account : String}
    (hAccount : Key.TextOk account) (limit : Limit) :
    (afterRun json ops).scanAccountFills json account limit =
      .ok ((RocksDb.scanRoom limit 0).truncate (sortOn FillRow.accountScanKey
        ((ops.filterMap PutOp.fill?).filter (fun fill => fill.account == account)))) := by
  have hbegins := Key.fillsByAccountPrefix_eq_ok hAccount
  unfold RocksDb.scanAccountFills
  rw [hbegins]
  -- as for markets, the key now being that of the account
  apply RocksDb.scanPrefix_text FillRow.account FillRow.accountScanKey
    (RocksDb.afterRun_fillsByAccountTime json ops)
  · exact fun fill hfill => (RocksDb.fill_keys_ok (hText _ (mem_fills.1 hfill))).2
  · exact fun fill hfill => hjson _ (mem_fills.1 hfill)
  · exact nodup_map_of_fillId hdistinct (fun a _ b _ he =>
      congrArg (fun key => (ofLex (ofLex (ofLex key).2).2).2.str) he)
  · exact fun fill k hk => Key.fillsByAccountTime_prefix_iff hk hbegins
  · exact fun a b ka kb hka hkb => Key.fillsByAccountTime_lt_iff hka hkb

/-! ## Attributions -/

theorem mem_builderRows {row : BuilderAttributionRow} :
    row ∈ ops.filterMap PutOp.builderAttribution? ↔ .putBuilderAttribution row ∈ ops := by
  rw [List.mem_filterMap]
  constructor
  · intro ⟨op, hop, hrow⟩
    cases op <;> cases hrow
    exact hop
  · intro hop
    exact ⟨_, hop, rfl⟩

theorem filterMap_builderEntry_eq (ops : List PutOp) :
    ops.filterMap MemoryEngine.builderEntry =
      (ops.filterMap PutOp.builderAttribution?).map
        (fun row => (toLex ((⟨row.builderAddr⟩ : Text), (⟨row.fillId⟩ : Text)), row)) := by
  rw [List.map_filterMap]
  rfl

/-- The key of an attribution in `cf_builder_code_fills`. -/
def BuilderAttributionRow.codeFillsKey (row : BuilderAttributionRow) : Except Fault Bytes :=
  Key.builderCodeFills row.builderAddr row.timestampUs row.marketId row.fillId

theorem RocksDb.afterRun_builderCodeFills (json : SerdeJson) (ops : List PutOp) :
    (afterRun json ops).cf .builderCodeFills = SortedMap.ofList
      ((ops.filterMap PutOp.builderAttribution?).map
        (fun row => (built row.codeFillsKey, json.builder.toVec row))) := by
  rw [cf_afterRun, RocksDb.familyWrites_builderCodeFills, filterMap_builderEntry_eq, List.map_map]
  rfl

/-- Every key has the prefix that the scan of its builder starts from. -/
theorem builderPrefix_of_key {row : BuilderAttributionRow}
    (h : (PutOp.putBuilderAttribution row).TextOk) :
    ∃ p, Key.builderCodeFillsPrefix row.builderAddr = .ok p ∧ p <+: built row.codeFillsKey := by
  obtain ⟨k, hk⟩ := RocksDb.builder_key_ok h
  have hbuilder : Key.TextOk row.builderAddr := ((Key.builderCodeFills_eq_ok_iff ..).1 hk).1.1
  have hbegins := Key.builderCodeFillsPrefix_eq_ok hbuilder
  refine ⟨_, hbegins, ?_⟩
  unfold BuilderAttributionRow.codeFillsKey
  rw [built_of_ok hk]
  exact (Key.builderCodeFills_prefix_iff hk hbegins).2 rfl

/-- No two attributions share their builder and fill. -/
def BuildersDistinct (ops : List PutOp) : Prop :=
  ((ops.filterMap PutOp.builderAttribution?).map (fun row => (row.builderAddr, row.fillId))).Nodup

instance (ops : List PutOp) : Decidable (BuildersDistinct ops) :=
  inferInstanceAs (Decidable (List.Nodup _))

/-- Distinct attributions have distinct images under any key that determines builder and
fill. -/
theorem BuildersDistinct.nodup_map {κ : Type} {key : BuilderAttributionRow → κ}
    {rows : List BuilderAttributionRow} (hdistinct : BuildersDistinct ops)
    (hsub : rows.Sublist (ops.filterMap PutOp.builderAttribution?))
    (hkey : ∀ a ∈ rows, ∀ b ∈ rows, key a = key b →
      a.builderAddr = b.builderAddr ∧ a.fillId = b.fillId) : (rows.map key).Nodup := by
  have h := (hsub.map (fun row : BuilderAttributionRow => (row.builderAddr, row.fillId))).nodup
    hdistinct
  rw [List.Nodup, List.pairwise_map] at h ⊢
  exact h.imp_of_mem (fun ha hb hne he => hne (Prod.ext_iff.2 (hkey _ ha _ hb he)))

theorem builderAttributions_values_perm (hdistinct : BuildersDistinct ops) :
    (MemoryEngine.empty.run ops).builderAttributionsByFill.values.Perm
      (ops.filterMap PutOp.builderAttribution?) := by
  rw [MemoryEngine.builderAttributionsByFill_run, filterMap_builderEntry_eq]
  refine (SortedMap.values_ofList_perm ?_).trans ?_
  · rw [List.map_map]
    apply hdistinct.nodup_map (List.Sublist.refl _)
    intro a _ b _ he
    simpa using he
  · rw [List.map_map]
    exact List.Perm.of_eq (List.map_id _)

/-- The attributions of a builder, in the order they were put. -/
def builderRows (ops : List PutOp) (builderAddr : String) : List BuilderAttributionRow :=
  (ops.filterMap PutOp.builderAttribution?).filter (fun row => row.builderAddr == builderAddr)

/-- The order of the attributions of one builder in `cf_builder_code_fills`. -/
def BuilderAttributionRow.scanKey (row : BuilderAttributionRow) : UInt64ᵒᵈ ×ₗ Text ×ₗ Text :=
  toLex (toDual row.timestampUs, toLex (⟨row.marketId⟩, ⟨row.fillId⟩))

theorem nodup_builderRecentFirstKey (hdistinct : BuildersDistinct ops) (builderAddr : String) :
    ((builderRows ops builderAddr).map MemoryEngine.builderRecentFirstKey).Nodup := by
  apply hdistinct.nodup_map List.filter_sublist
  intro a ha b hb he
  refine ⟨?_, congrArg (fun key => (ofLex key).2.str) he⟩
  rw [beq_iff_eq.1 (List.mem_filter.1 ha).2, beq_iff_eq.1 (List.mem_filter.1 hb).2]

theorem nodup_builderScanKey (hdistinct : BuildersDistinct ops) (builderAddr : String) :
    ((builderRows ops builderAddr).map BuilderAttributionRow.scanKey).Nodup := by
  apply hdistinct.nodup_map List.filter_sublist
  intro a ha b hb he
  refine ⟨?_, congrArg (fun key => (ofLex (ofLex key).2).2.str) he⟩
  rw [beq_iff_eq.1 (List.mem_filter.1 ha).2, beq_iff_eq.1 (List.mem_filter.1 hb).2]

theorem MemoryEngine.scanBuilderCodeFills_eq (hdistinct : BuildersDistinct ops)
    (builderAddr : String) (limit : Limit) :
    (MemoryEngine.empty.run ops).scanBuilderCodeFills builderAddr limit =
      limit.truncate (sortOn MemoryEngine.builderRecentFirstKey (builderRows ops builderAddr)) := by
  have hperm := (builderAttributions_values_perm hdistinct).filter
    (fun row => row.builderAddr == builderAddr)
  have hnodup := nodup_builderRecentFirstKey hdistinct builderAddr
  exact congrArg limit.truncate (sortOn_congr_perm hperm ((hperm.map _).nodup_iff.2 hnodup))

/-- The RocksDB engine's scan of a builder sorts the builder's attributions by `scanKey`. -/
theorem RocksDb.scanBuilderCodeFills_eq (hText : ∀ op ∈ ops, op.TextOk)
    (hjson : ∀ op ∈ ops, json.RoundTrips op) (hdistinct : BuildersDistinct ops)
    {builderAddr : String} (hBuilder : Key.TextOk builderAddr) (limit : Limit) :
    (afterRun json ops).scanBuilderCodeFills json builderAddr limit =
      .ok ((RocksDb.scanRoom limit 0).truncate
        (sortOn BuilderAttributionRow.scanKey (builderRows ops builderAddr))) := by
  have hbegins := Key.builderCodeFillsPrefix_eq_ok hBuilder
  unfold RocksDb.scanBuilderCodeFills
  rw [hbegins]
  apply RocksDb.scanPrefix_text BuilderAttributionRow.builderAddr BuilderAttributionRow.scanKey
    (RocksDb.afterRun_builderCodeFills json ops)
  · exact fun row hrow => RocksDb.builder_key_ok (hText _ (mem_builderRows.1 hrow))
  · exact fun row hrow => hjson _ (mem_builderRows.1 hrow)
  · -- the key has the builder first and the fill last
    apply hdistinct.nodup_map (List.Sublist.refl _)
    intro a _ b _ he
    exact ⟨congrArg (fun key => (ofLex key).1.str) he,
      congrArg (fun key => (ofLex (ofLex (ofLex key).2).2).2.str) he⟩
  · exact fun row k hk => Key.builderCodeFills_prefix_iff hk hbegins
  · exact fun a b ka kb hka hkb => Key.builderCodeFills_lt_iff hka hkb

/-! ## Activities -/

/-- No two activity rows, put or derived, share their market, time, type, version and event
index. -/
def ActivitiesDistinct (ops : List PutOp) : Prop :=
  ((ops.filterMap PutOp.activity?).map (fun row =>
    (row.marketId, row.timestampUs, row.activityType, row.version, row.eventIdx))).Nodup

instance (ops : List PutOp) : Decidable (ActivitiesDistinct ops) :=
  inferInstanceAs (Decidable (List.Nodup _))

/-- The activities of a market, in the order they were put. -/
def marketActivities (ops : List PutOp) (marketId : String) : List ActivityRow :=
  (ops.filterMap PutOp.activity?).filter (fun row => row.marketId == marketId)

/-- The order of the activities of one market in `cf_market_recent_activity`. -/
def ActivityRow.scanKey (row : ActivityRow) : UInt64ᵒᵈ ×ₗ Text ×ₗ UInt64 ×ₗ UInt32 :=
  toLex (toDual row.timestampUs, toLex (⟨row.activityType⟩, toLex (row.version, row.eventIdx)))

/-- The order of the memory engine's activity scan: its comparator, and then the order in which
the rows were put. -/
def MemoryEngine.activityOrder (rows : List ActivityRow) (row : ActivityRow) :
    (UInt64ᵒᵈ ×ₗ UInt64 ×ₗ UInt32) ×ₗ Nat :=
  toLex (MemoryEngine.activityRecentFirstKey row, rows.idxOf row)

theorem ActivitiesDistinct.nodup (hdistinct : ActivitiesDistinct ops) (marketId : String) :
    (marketActivities ops marketId).Nodup :=
  (List.Nodup.of_map _ hdistinct).filter _

theorem nodup_activityOrder (hdistinct : ActivitiesDistinct ops) (marketId : String) :
    ((marketActivities ops marketId).map
      (MemoryEngine.activityOrder (marketActivities ops marketId))).Nodup := by
  rw [List.Nodup, List.pairwise_map]
  apply (pairwise_idxOf_lt (hdistinct.nodup marketId)).imp
  intro a b hlt he
  exact hlt.ne (congrArg (fun key => (ofLex key).2) he)

theorem nodup_activityScanKey (hdistinct : ActivitiesDistinct ops) (marketId : String) :
    ((marketActivities ops marketId).map ActivityRow.scanKey).Nodup := by
  have h := hdistinct
  unfold ActivitiesDistinct at h
  rw [List.Nodup, List.pairwise_map] at h ⊢
  refine (h.filter _).imp_of_mem (fun {a b} ha hb hne he => hne ?_)
  have hm : a.marketId = b.marketId := by
    rw [beq_iff_eq.1 (List.mem_filter.1 ha).2, beq_iff_eq.1 (List.mem_filter.1 hb).2]
  simp only [ActivityRow.scanKey, toLex_inj, Prod.mk.injEq, toDual_inj, Text.mk.injEq] at he
  simp only [Prod.mk.injEq]
  exact ⟨hm, he.1, he.2.1, he.2.2⟩

theorem MemoryEngine.scanMarketActivity_eq (hdistinct : ActivitiesDistinct ops)
    (marketId : String) (limit : Limit) :
    (MemoryEngine.empty.run ops).scanMarketActivity marketId limit =
      limit.truncate (sortOn (MemoryEngine.activityOrder (marketActivities ops marketId))
        (marketActivities ops marketId)) := by
  unfold MemoryEngine.scanMarketActivity
  rw [MemoryEngine.activities_run]
  exact congrArg limit.truncate
    (sortOn_eq_sortOn_place (pairwise_idxOf_lt (hdistinct.nodup marketId)))

/-- The RocksDB engine's scan of a market sorts the market's activities by `scanKey`. -/
theorem RocksDb.scanMarketActivity_eq (hText : ∀ op ∈ ops, op.TextOk)
    (hjson : ∀ row ∈ ops.filterMap PutOp.activity?, json.activity.RoundTrips row)
    (hdistinct : ActivitiesDistinct ops) {marketId : String} (hMarket : Key.TextOk marketId)
    (limit : Limit) :
    (afterRun json ops).scanMarketActivity json marketId limit =
      .ok ((RocksDb.scanRoom limit 0).truncate
        (sortOn ActivityRow.scanKey (marketActivities ops marketId))) := by
  have hbegins := Key.marketActivityPrefix_eq_ok hMarket
  have hcf : ((afterRun json ops).cf .marketRecentActivity) = SortedMap.ofList
      ((ops.filterMap PutOp.activity?).map (fun row => (built (Key.marketActivity row.marketId
        row.timestampUs row.activityType row.version row.eventIdx), json.activity.toVec row))) := by
    rw [cf_afterRun, RocksDb.familyWrites_marketRecentActivity]
  unfold RocksDb.scanMarketActivity
  rw [hbegins]
  apply RocksDb.scanPrefix_text ActivityRow.marketId ActivityRow.scanKey hcf
  · intro row hrow
    obtain ⟨op, hop, hactivity⟩ := List.mem_filterMap.1 hrow
    exact RocksDb.activity_key_ok (hText _ hop) hactivity
  · exact hjson
  -- market and scan key together are the whole identity
  · have h := hdistinct
    unfold ActivitiesDistinct at h
    rw [List.Nodup, List.pairwise_map] at h ⊢
    refine h.imp (fun {a b} hne he => hne ?_)
    simp only [ActivityRow.scanKey, toLex_inj, Prod.mk.injEq, toDual_inj, Text.mk.injEq] at he
    simpa using he
  · exact fun row k hk => Key.marketActivity_prefix_iff hk hbegins
  · exact fun a b ka kb hka hkb => Key.marketActivity_lt_iff hka hkb

end Scans

end HotIndex
