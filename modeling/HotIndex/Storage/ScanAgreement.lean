import HotIndex.Storage.ScanSelection

/-!
# Where the Scans Agree

Under a positive limit, the scans of the two engines return the same rows in the same order
exactly when every pair of rows that the engines order differently comes behind the limit:

- for the fills of a market (`scanMarketFills_agree_iff`);
- for the fills of an account and the attributions of a builder (`scanFills_agree_iff`);
- for the activities of a market (`scanMarketActivity_agree_iff`).
-/

namespace HotIndex

open Lib OrderDual

/-! ## Two orders under a limit -/

/-- Under a limit, two orders of the same rows agree exactly when the limit is reached before
any two rows that they order differently. -/
theorem Limit.truncate_sortOn_eq_iff {α κ κ' : Type} [LinearOrder κ] [LinearOrder κ']
    {key : α → κ} {key' : α → κ'} {rows : List α} (h : (rows.map key).Nodup)
    (h' : (rows.map key').Nodup) (limit : Limit) :
    limit.truncate (sortOn key rows) = limit.truncate (sortOn key' rows) ↔
      ∀ a ∈ rows, ∀ b ∈ rows, key a < key b → key' b < key' a →
        limit.reached (rank key rows a) = true := by
  cases limit with
  | rows count => simpa [Limit.truncate, Limit.reached] using take_sortOn_eq_iff h h' count
  | max =>
    -- no limit is a limit as large as the list
    have htake := take_sortOn_eq_iff h h' rows.length
    rw [List.take_of_length_le (length_sortOn).le, List.take_of_length_le (length_sortOn).le]
      at htake
    refine htake.trans (forall₂_congr (fun a ha => ?_))
    have hlt : ¬ rows.length ≤ rank key rows a := not_le.2 (rank_lt_length ha)
    simp [Limit.reached, hlt]

/-- Fills with distinct ids, in the order of the memory engine and in that of an index whose keys
hold the id. -/
theorem Limit.truncate_fills_eq_iff {κ : Type} [LinearOrder κ] {scanKey : FillRow → κ}
    {Reversed : FillRow → FillRow → Prop} {fills : List FillRow}
    (hdistinct : (fills.map FillRow.fillId).Nodup)
    (hid : ∀ a b, scanKey a = scanKey b → a.fillId = b.fillId)
    (hreversed : ∀ a b, MemoryEngine.recentFirstKey a < MemoryEngine.recentFirstKey b ∧
      scanKey b < scanKey a ↔ Reversed a b) (limit : Limit) :
    limit.truncate (sortOn MemoryEngine.recentFirstKey fills) =
        limit.truncate (sortOn scanKey fills) ↔
      ∀ a ∈ fills, ∀ b ∈ fills, Reversed a b →
        limit.reached (rank MemoryEngine.recentFirstKey fills a) = true := by
  -- both keys have the fill id in them, so neither has ties
  have hmemory : (fills.map MemoryEngine.recentFirstKey).Nodup :=
    nodup_map_of_fillId hdistinct (fun a _ b _ he =>
      congrArg (fun key => (ofLex (ofLex (ofLex key).2).2).2.str) he)
  have hrocks : (fills.map scanKey).Nodup :=
    nodup_map_of_fillId hdistinct (fun a _ b _ he => hid a b he)
  apply (Limit.truncate_sortOn_eq_iff hmemory hrocks limit).trans
  refine forall₄_congr (fun a _ b _ => ?_)
  rw [← hreversed, and_imp]

/-- Tuples that compare one way with one tail and the other way with another have one head. -/
theorem toLex_reversed_iff {κ α β : Type} [LinearOrder κ] [LinearOrder α] [LinearOrder β]
    {k l : κ} {a b : α} {c d : β} :
    toLex (k, a) < toLex (l, b) ∧ toLex (l, d) < toLex (k, c) ↔ k = l ∧ a < b ∧ d < c := by
  simp only [Prod.Lex.toLex_lt_toLex]
  constructor
  · rintro ⟨h | ⟨rfl, hab⟩, h' | ⟨he, hdc⟩⟩
    · exact absurd h h'.asymm
    · exact absurd he h.ne'
    · exact absurd h' (lt_irrefl _)
    · exact ⟨rfl, hab, hdc⟩
  · intro ⟨hkl, hab, hdc⟩
    exact ⟨.inr ⟨hkl, hab⟩, .inr ⟨hkl.symm, hdc⟩⟩

section Scans

open RocksDb (afterRun)

variable {ops : List PutOp} {json : SerdeJson}

/-! ## Market fills -/

/-- Two fills of one transaction of which the first by event index is the last by id. -/
def FillRow.ReversedInMarket (a b : FillRow) : Prop :=
  a.timestampUs = b.timestampUs ∧ a.version = b.version ∧
    a.eventIdx < b.eventIdx ∧ (⟨b.fillId⟩ : Text) < ⟨a.fillId⟩

theorem FillRow.reversedInMarket_iff {a b : FillRow} :
    MemoryEngine.recentFirstKey a < MemoryEngine.recentFirstKey b ∧
      b.marketScanKey < a.marketScanKey ↔ a.ReversedInMarket b := by
  unfold MemoryEngine.recentFirstKey FillRow.marketScanKey FillRow.ReversedInMarket
  rw [toLex_reversed_iff, toLex_reversed_iff, toDual_inj, Prod.Lex.toLex_lt_toLex]
  constructor
  · rintro ⟨hts, hv, he | ⟨-, hf⟩, hrev⟩
    · exact ⟨hts, hv, he, hrev⟩
    · exact absurd hf hrev.asymm
  · intro ⟨hts, hv, he, hrev⟩
    exact ⟨hts, hv, .inl he, hrev⟩

/-- **Market fill scans** of fills with distinct ids agree, under a positive limit, exactly when
any two fills of the market that the engines order differently come behind the limit. -/
theorem scanMarketFills_agree_iff (hText : ∀ op ∈ ops, op.TextOk)
    (hjson : ∀ op ∈ ops, json.RoundTrips op)
    (hdistinct : ((ops.filterMap PutOp.fill?).map FillRow.fillId).Nodup) :
    ∃ db, RocksDb.exec (RocksDb.run json ops) .empty = (.ok (), db) ∧
      ∀ marketId, Key.TextOk marketId → ∀ limit, limit ≠ .rows 0 →
        (db.scanMarketFills json marketId limit =
            .ok ((MemoryEngine.empty.run ops).scanMarketFills marketId limit) ↔
          ∀ a ∈ marketFills ops marketId, ∀ b ∈ marketFills ops marketId,
            a.ReversedInMarket b → limit.reached
              (rank MemoryEngine.recentFirstKey (marketFills ops marketId) a) = true) := by
  refine ⟨_, RocksDb.exec_run_empty json hText, fun marketId hMarket limit hlimit => ?_⟩
  -- the fills of one market are among those of the history
  have hnodup : ((marketFills ops marketId).map FillRow.fillId).Nodup :=
    (List.filter_sublist.map _).nodup hdistinct
  have hscan : (MemoryEngine.empty.run ops).scanMarketFills marketId limit =
      limit.truncate (sortOn MemoryEngine.recentFirstKey (marketFills ops marketId)) :=
    sortFills_selected hdistinct _ limit
  -- both engines cut off a sorted list of the same fills
  rw [RocksDb.scanMarketFills_eq hText hjson hdistinct hMarket limit, RocksDb.scanRoom_eq hlimit,
    hscan, Except.ok.injEq, eq_comm]
  apply Limit.truncate_fills_eq_iff hnodup
  · exact fun a b he => congrArg (fun key => (ofLex (ofLex key).2).2.str) he
  · exact fun a b => FillRow.reversedInMarket_iff

/-- A fill of transaction 7. -/
def sampleFill (fillId marketId : String) (eventIdx : UInt32) : FillRow where
  version := 7
  eventIdx := eventIdx
  fillId := fillId
  marketId := marketId
  account := "0xa"
  subaccount := none
  orderId := none
  side := none
  price := "1"
  size := "2"
  notional := none
  builderAddr := none
  builderFeeBps := none
  timestampUs := 5
  rawEventType := "TradeEvent"

/-- Two fills of one transaction, numbered 9 and 10 in the order of their events. -/
def numberedFills : List PutOp :=
  [.putFill (sampleFill "9" "BTC" 0), .putFill (sampleFill "10" "BTC" 1)]

theorem scanMarketFills_agree_iff_numberedFills :
    ∃ db, RocksDb.exec (RocksDb.run (.ofOps numberedFills) numberedFills) .empty = (.ok (), db) ∧
      ∀ marketId, Key.TextOk marketId → ∀ limit, limit ≠ .rows 0 →
        (db.scanMarketFills (.ofOps numberedFills) marketId limit =
            .ok ((MemoryEngine.empty.run numberedFills).scanMarketFills marketId limit) ↔
          ∀ a ∈ marketFills numberedFills marketId, ∀ b ∈ marketFills numberedFills marketId,
            a.ReversedInMarket b → limit.reached
              (rank MemoryEngine.recentFirstKey (marketFills numberedFills marketId) a) = true) :=
  @scanMarketFills_agree_iff numberedFills (.ofOps numberedFills) (by decide +kernel)
    (by decide +kernel) (by decide)

/-- As text, 10 comes before 9: a scan for one fill returns different fills. -/
theorem scanMarketFills_disagree_numberedFills :
    (∀ op ∈ numberedFills, op.TextOk) ∧
      ((numberedFills.filterMap PutOp.fill?).map FillRow.fillId).Nodup ∧
      ∃ db, RocksDb.exec (RocksDb.run (.ofOps numberedFills) numberedFills) .empty =
          (.ok (), db) ∧
        db.scanMarketFills (.ofOps numberedFills) "BTC" (.rows 1) =
          .ok [sampleFill "10" "BTC" 1] ∧
        (MemoryEngine.empty.run numberedFills).scanMarketFills "BTC" (.rows 1) =
          [sampleFill "9" "BTC" 0] := by
  have hText : ∀ op ∈ numberedFills, op.TextOk := by decide +kernel
  refine ⟨hText, by decide, _, RocksDb.exec_run_empty _ hText, ?_, ?_⟩
  · decide +kernel
  · decide +kernel

/-! ## Account fills and attributions -/

/-- Two fills of one time of which the first by version, event index and id is the last by
market and id. -/
def FillRow.ReversedInAccount (a b : FillRow) : Prop :=
  a.timestampUs = b.timestampUs ∧
    toLex (a.version, toLex (a.eventIdx, (⟨a.fillId⟩ : Text))) <
      toLex (b.version, toLex (b.eventIdx, (⟨b.fillId⟩ : Text))) ∧
    toLex ((⟨b.marketId⟩ : Text), (⟨b.fillId⟩ : Text)) < toLex (⟨a.marketId⟩, ⟨a.fillId⟩)

theorem FillRow.reversedInAccount_iff {a b : FillRow} :
    MemoryEngine.recentFirstKey a < MemoryEngine.recentFirstKey b ∧
      b.accountScanKey < a.accountScanKey ↔ a.ReversedInAccount b := by
  unfold MemoryEngine.recentFirstKey FillRow.accountScanKey FillRow.ReversedInAccount
  rw [toLex_reversed_iff, toDual_inj]

/-- Two attributions of one time of which the first by fill id is the last by market. -/
def BuilderAttributionRow.Reversed (a b : BuilderAttributionRow) : Prop :=
  a.timestampUs = b.timestampUs ∧ (⟨a.fillId⟩ : Text) < ⟨b.fillId⟩ ∧
    (⟨b.marketId⟩ : Text) < ⟨a.marketId⟩

theorem BuilderAttributionRow.reversed_iff {a b : BuilderAttributionRow} :
    MemoryEngine.builderRecentFirstKey a < MemoryEngine.builderRecentFirstKey b ∧
      b.scanKey < a.scanKey ↔ a.Reversed b := by
  unfold MemoryEngine.builderRecentFirstKey BuilderAttributionRow.scanKey
    BuilderAttributionRow.Reversed
  rw [toLex_reversed_iff, toDual_inj, Prod.Lex.toLex_lt_toLex]
  constructor
  · rintro ⟨hts, hf, hm | ⟨-, hrev⟩⟩
    · exact ⟨hts, hf, hm⟩
    · exact absurd hf hrev.asymm
  · intro ⟨hts, hf, hm⟩
    exact ⟨hts, hf, .inl hm⟩

theorem scanAccountFills_agree (hText : ∀ op ∈ ops, op.TextOk)
    (hjson : ∀ op ∈ ops, json.RoundTrips op)
    (hdistinct : ((ops.filterMap PutOp.fill?).map FillRow.fillId).Nodup) {account : String}
    (hAccount : Key.TextOk account) {limit : Limit} (hlimit : limit ≠ .rows 0) :
    (afterRun json ops).scanAccountFills json account limit =
        .ok ((MemoryEngine.empty.run ops).scanAccountFills account limit) ↔
      ∀ a ∈ accountFills ops account, ∀ b ∈ accountFills ops account,
        a.ReversedInAccount b → limit.reached
          (rank MemoryEngine.recentFirstKey (accountFills ops account) a) = true := by
  have hnodup : ((accountFills ops account).map FillRow.fillId).Nodup :=
    (List.filter_sublist.map _).nodup hdistinct
  have hscan : (MemoryEngine.empty.run ops).scanAccountFills account limit =
      limit.truncate (sortOn MemoryEngine.recentFirstKey (accountFills ops account)) :=
    sortFills_selected hdistinct _ limit
  -- both engines cut off a sorted list of the same fills
  rw [RocksDb.scanAccountFills_eq hText hjson hdistinct hAccount limit,
    RocksDb.scanRoom_eq hlimit, hscan, Except.ok.injEq, eq_comm]
  apply Limit.truncate_fills_eq_iff hnodup
  · exact fun a b he => congrArg (fun key => (ofLex (ofLex key).2).2.str) he
  · exact fun a b => FillRow.reversedInAccount_iff

theorem scanBuilderCodeFills_agree (hText : ∀ op ∈ ops, op.TextOk)
    (hjson : ∀ op ∈ ops, json.RoundTrips op) (hdistinct : BuildersDistinct ops)
    {builderAddr : String} (hBuilder : Key.TextOk builderAddr) {limit : Limit}
    (hlimit : limit ≠ .rows 0) :
    (afterRun json ops).scanBuilderCodeFills json builderAddr limit =
        .ok ((MemoryEngine.empty.run ops).scanBuilderCodeFills builderAddr limit) ↔
      ∀ a ∈ builderRows ops builderAddr, ∀ b ∈ builderRows ops builderAddr,
        a.Reversed b → limit.reached
          (rank MemoryEngine.builderRecentFirstKey (builderRows ops builderAddr) a) = true := by
  -- builder and fill tell rows apart under either order
  have hmemory := nodup_builderRecentFirstKey hdistinct builderAddr
  have hrocks := nodup_builderScanKey hdistinct builderAddr
  rw [RocksDb.scanBuilderCodeFills_eq hText hjson hdistinct hBuilder limit,
    RocksDb.scanRoom_eq hlimit, MemoryEngine.scanBuilderCodeFills_eq hdistinct,
    Except.ok.injEq, eq_comm]
  apply (Limit.truncate_sortOn_eq_iff hmemory hrocks limit).trans
  refine forall₄_congr (fun a _ b _ => ?_)
  rw [← BuilderAttributionRow.reversed_iff, and_imp]

/-- **Account and builder scans** of distinct rows agree, under a positive limit, exactly when
any two rows that the engines order differently come behind the limit. -/
theorem scanFills_agree_iff (hText : ∀ op ∈ ops, op.TextOk)
    (hjson : ∀ op ∈ ops, json.RoundTrips op)
    (hfills : ((ops.filterMap PutOp.fill?).map FillRow.fillId).Nodup)
    (hbuilders : BuildersDistinct ops) :
    ∃ db, RocksDb.exec (RocksDb.run json ops) .empty = (.ok (), db) ∧
      (∀ account, Key.TextOk account → ∀ limit, limit ≠ .rows 0 →
        (db.scanAccountFills json account limit =
            .ok ((MemoryEngine.empty.run ops).scanAccountFills account limit) ↔
          ∀ a ∈ accountFills ops account, ∀ b ∈ accountFills ops account,
            a.ReversedInAccount b → limit.reached
              (rank MemoryEngine.recentFirstKey (accountFills ops account) a) = true)) ∧
      ∀ builderAddr, Key.TextOk builderAddr → ∀ limit, limit ≠ .rows 0 →
        (db.scanBuilderCodeFills json builderAddr limit =
            .ok ((MemoryEngine.empty.run ops).scanBuilderCodeFills builderAddr limit) ↔
          ∀ a ∈ builderRows ops builderAddr, ∀ b ∈ builderRows ops builderAddr,
            a.Reversed b → limit.reached
              (rank MemoryEngine.builderRecentFirstKey (builderRows ops builderAddr) a) = true) :=
  ⟨_, RocksDb.exec_run_empty json hText,
    fun _ hAccount _ hlimit => scanAccountFills_agree hText hjson hfills hAccount hlimit,
    fun _ hBuilder _ hlimit => scanBuilderCodeFills_agree hText hjson hbuilders hBuilder hlimit⟩

/-- Two fills of one block in two markets, each with its attribution. -/
def crossMarketFills : List PutOp :=
  let attribution (fillId marketId : String) (eventIdx : UInt32) : BuilderAttributionRow :=
    { builderAddr := "0xb", marketId := marketId, account := "0xa", version := 7,
      eventIdx := eventIdx, fillId := fillId, notional := none, builderFeeBps := none,
      estimatedFeeAmount := none, timestampUs := 5 }
  [.putFill (sampleFill "1" "ETH" 0), .putFill (sampleFill "2" "BTC" 1),
    .putBuilderAttribution (attribution "1" "ETH" 0),
    .putBuilderAttribution (attribution "2" "BTC" 1)]

theorem scanFills_agree_iff_crossMarketFills :
    ∃ db, RocksDb.exec (RocksDb.run (.ofOps crossMarketFills) crossMarketFills) .empty =
        (.ok (), db) ∧
      (∀ account, Key.TextOk account → ∀ limit, limit ≠ .rows 0 →
        (db.scanAccountFills (.ofOps crossMarketFills) account limit =
            .ok ((MemoryEngine.empty.run crossMarketFills).scanAccountFills account limit) ↔
          ∀ a ∈ accountFills crossMarketFills account,
            ∀ b ∈ accountFills crossMarketFills account,
            a.ReversedInAccount b → limit.reached (rank MemoryEngine.recentFirstKey
              (accountFills crossMarketFills account) a) = true)) ∧
      ∀ builderAddr, Key.TextOk builderAddr → ∀ limit, limit ≠ .rows 0 →
        (db.scanBuilderCodeFills (.ofOps crossMarketFills) builderAddr limit =
            .ok ((MemoryEngine.empty.run crossMarketFills).scanBuilderCodeFills builderAddr
              limit) ↔
          ∀ a ∈ builderRows crossMarketFills builderAddr,
            ∀ b ∈ builderRows crossMarketFills builderAddr,
            a.Reversed b → limit.reached (rank MemoryEngine.builderRecentFirstKey
              (builderRows crossMarketFills builderAddr) a) = true) :=
  @scanFills_agree_iff crossMarketFills (.ofOps crossMarketFills) (by decide +kernel)
    (by decide +kernel) (by decide) (by decide)

/-- The memory engine returns the fill of the first event, the RocksDB engine that of the first
market. -/
theorem scanFills_disagree_crossMarketFills :
    (∀ op ∈ crossMarketFills, op.TextOk) ∧
      ((crossMarketFills.filterMap PutOp.fill?).map FillRow.fillId).Nodup ∧
      BuildersDistinct crossMarketFills ∧
      ∃ db, RocksDb.exec (RocksDb.run (.ofOps crossMarketFills) crossMarketFills) .empty =
          (.ok (), db) ∧
        (db.scanAccountFills (.ofOps crossMarketFills) "0xa" (.rows 1) ≠
          .ok ((MemoryEngine.empty.run crossMarketFills).scanAccountFills "0xa" (.rows 1))) ∧
        (db.scanBuilderCodeFills (.ofOps crossMarketFills) "0xb" (.rows 1) ≠
          .ok ((MemoryEngine.empty.run crossMarketFills).scanBuilderCodeFills "0xb"
            (.rows 1))) := by
  have hText : ∀ op ∈ crossMarketFills, op.TextOk := by decide +kernel
  refine ⟨hText, by decide, by decide, _, RocksDb.exec_run_empty _ hText, ?_, ?_⟩
  · decide +kernel
  · decide +kernel

/-! ## Activities -/

/-- Two activities of one time of which the first by version, event index and put is the last by
type. -/
def ActivityRow.Reversed (rows : List ActivityRow) (a b : ActivityRow) : Prop :=
  a.timestampUs = b.timestampUs ∧ (⟨b.activityType⟩ : Text) < ⟨a.activityType⟩ ∧
    (toLex (a.version, a.eventIdx) < toLex (b.version, b.eventIdx) ∨
      (a.version, a.eventIdx) = (b.version, b.eventIdx) ∧ rows.idxOf a < rows.idxOf b)

theorem ActivityRow.reversed_iff {rows : List ActivityRow} {a b : ActivityRow} :
    MemoryEngine.activityOrder rows a < MemoryEngine.activityOrder rows b ∧
      b.scanKey < a.scanKey ↔ a.Reversed rows b := by
  -- regroup the memory order as time first
  have hregroup : MemoryEngine.activityOrder rows a < MemoryEngine.activityOrder rows b ↔
      toLex (toDual a.timestampUs, toLex (toLex (a.version, a.eventIdx), rows.idxOf a)) <
        toLex (toDual b.timestampUs, toLex (toLex (b.version, b.eventIdx), rows.idxOf b)) := by
    simp only [MemoryEngine.activityOrder, MemoryEngine.activityRecentFirstKey,
      Prod.Lex.toLex_lt_toLex, toLex_inj, Prod.mk.injEq]
    tauto
  have hfirst : toLex (toLex (a.version, a.eventIdx), rows.idxOf a) <
      toLex (toLex (b.version, b.eventIdx), rows.idxOf b) ↔
      (toLex (a.version, a.eventIdx) < toLex (b.version, b.eventIdx) ∨
        (a.version, a.eventIdx) = (b.version, b.eventIdx) ∧ rows.idxOf a < rows.idxOf b) :=
    Prod.Lex.toLex_lt_toLex
  rw [hregroup]
  unfold ActivityRow.scanKey ActivityRow.Reversed
  rw [toLex_reversed_iff, toDual_inj, hfirst]
  constructor
  · intro ⟨hts, hve, hrev⟩
    rcases Prod.Lex.toLex_lt_toLex.1 hrev with ht | ⟨-, hrev⟩
    · exact ⟨hts, ht, hve⟩
    · rcases hve with hlt | ⟨he, -⟩
      · exact absurd hlt hrev.asymm
      · exact absurd (congrArg toLex he) hrev.ne'
  · intro ⟨hts, ht, hve⟩
    exact ⟨hts, hve, Prod.Lex.toLex_lt_toLex.2 (.inl ht)⟩

/-- **Activity scans** of distinct rows agree, under a positive limit, exactly when any two
activities of the market that the engines order differently come behind the limit. -/
theorem scanMarketActivity_agree_iff (hText : ∀ op ∈ ops, op.TextOk)
    (hjson : ∀ row ∈ ops.filterMap PutOp.activity?, json.activity.RoundTrips row)
    (hdistinct : ActivitiesDistinct ops) :
    ∃ db, RocksDb.exec (RocksDb.run json ops) .empty = (.ok (), db) ∧
      ∀ marketId, Key.TextOk marketId → ∀ limit, limit ≠ .rows 0 →
        (db.scanMarketActivity json marketId limit =
            .ok ((MemoryEngine.empty.run ops).scanMarketActivity marketId limit) ↔
          ∀ a ∈ marketActivities ops marketId, ∀ b ∈ marketActivities ops marketId,
            a.Reversed (marketActivities ops marketId) b → limit.reached
              (rank (MemoryEngine.activityOrder (marketActivities ops marketId))
                (marketActivities ops marketId) a) = true) := by
  refine ⟨_, RocksDb.exec_run_empty json hText, fun marketId hMarket limit hlimit => ?_⟩
  -- the memory engine breaks ties by insertion, which its order has as a last component
  have hmemory := nodup_activityOrder hdistinct marketId
  have hrocks := nodup_activityScanKey hdistinct marketId
  rw [RocksDb.scanMarketActivity_eq hText hjson hdistinct hMarket limit,
    RocksDb.scanRoom_eq hlimit, MemoryEngine.scanMarketActivity_eq hdistinct, Except.ok.injEq,
    eq_comm]
  apply (Limit.truncate_sortOn_eq_iff hmemory hrocks limit).trans
  refine forall₄_congr (fun a _ b _ => ?_)
  rw [← ActivityRow.reversed_iff, and_imp]

/-- An order event of transaction 7. -/
def sampleOrderActivity : ActivityRow where
  marketId := "BTC"
  activityType := "order"
  version := 7
  eventIdx := 0
  timestampUs := 5
  summary := "o1"

/-- An order event and, behind it in the same transaction, a fill. -/
def orderThenFill : List PutOp :=
  [.putActivity sampleOrderActivity, .putFill (sampleFill "1" "BTC" 1)]

theorem scanMarketActivity_agree_iff_orderThenFill :
    ∃ db, RocksDb.exec (RocksDb.run (.ofOps orderThenFill) orderThenFill) .empty = (.ok (), db) ∧
      ∀ marketId, Key.TextOk marketId → ∀ limit, limit ≠ .rows 0 →
        (db.scanMarketActivity (.ofOps orderThenFill) marketId limit =
            .ok ((MemoryEngine.empty.run orderThenFill).scanMarketActivity marketId limit) ↔
          ∀ a ∈ marketActivities orderThenFill marketId,
            ∀ b ∈ marketActivities orderThenFill marketId,
            a.Reversed (marketActivities orderThenFill marketId) b → limit.reached
              (rank (MemoryEngine.activityOrder (marketActivities orderThenFill marketId))
                (marketActivities orderThenFill marketId) a) = true) :=
  @scanMarketActivity_agree_iff orderThenFill (.ofOps orderThenFill) (by decide +kernel)
    (by decide +kernel) (by decide)

/-- The memory engine returns the order event, the RocksDB engine the fill. -/
theorem scanMarketActivity_disagree_orderThenFill :
    (∀ op ∈ orderThenFill, op.TextOk) ∧ ActivitiesDistinct orderThenFill ∧
      ∃ db, RocksDb.exec (RocksDb.run (.ofOps orderThenFill) orderThenFill) .empty =
          (.ok (), db) ∧
        db.scanMarketActivity (.ofOps orderThenFill) "BTC" (.rows 1) ≠
          .ok ((MemoryEngine.empty.run orderThenFill).scanMarketActivity "BTC" (.rows 1)) := by
  have hText : ∀ op ∈ orderThenFill, op.TextOk := by decide +kernel
  exact ⟨hText, by decide, _, RocksDb.exec_run_empty _ hText, by decide +kernel⟩

end Scans

end HotIndex
