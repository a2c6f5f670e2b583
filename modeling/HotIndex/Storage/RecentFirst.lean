import HotIndex.Storage.HistoryScans
import HotIndex.Storage.ScanContract

/-!
# What a Limited Scan Leaves Out

Both engines list the fills of a market by descending timestamp; only the timestamp is
reversed, so fills of one timestamp are listed in ascending order of the version and what
follows it. A limited scan therefore never leaves out a fill of a later timestamp, and of the
fills of one timestamp it leaves out the last in that order (`scanMarketFills_recency`). It
returns the most recent fills in chain order exactly if the limit does not fall between two
fills of one timestamp of which the one listed first is the earlier.
-/

namespace HotIndex

open Lib OrderDual

/-! ## Limits on ascending lists -/

theorem Limit.mem_truncate_iff {α κ : Type} [LinearOrder κ] {key : α → κ} {l : List α}
    (hl : l.Pairwise (fun a b => key a < key b)) (limit : Limit) {a : α} (ha : a ∈ l) :
    a ∈ limit.truncate l ↔ limit.reached (rank key l a) = false := by
  cases limit with
  | rows count => simp [Limit.truncate, Limit.reached, mem_take_iff_rank hl ha]
  | max => simp [Limit.truncate, Limit.reached, ha]

/-- Rows that a limit leaves out come behind the rows that it admits. -/
theorem Limit.lt_of_not_mem_truncate {α κ : Type} [LinearOrder κ] {key : α → κ} {l : List α}
    (hl : l.Pairwise (fun a b => key a < key b)) {limit : Limit} {a b : α}
    (ha : a ∈ limit.truncate l) (hb : b ∈ l) (hnot : b ∉ limit.truncate l) : key a < key b := by
  have hmem := Limit.mem_of_mem_truncate ha
  by_contra hle
  rcases lt_or_eq_of_le (not_lt.1 hle) with hlt | heq
  · -- a row before an admitted row has a smaller rank, so it is admitted
    apply hnot
    rw [Limit.mem_truncate_iff hl limit hmem] at ha
    rw [Limit.mem_truncate_iff hl limit hb]
    have hrank := rank_lt_rank hb hlt
    cases limit with
    | max => rfl
    | rows count =>
      simp only [Limit.reached, decide_eq_false_iff_not] at ha ⊢
      omega
  · have hinj := List.inj_on_of_nodup_map
      (List.pairwise_map.2 (hl.imp (fun hab => hab.ne))) hb hmem heq
    exact hnot (hinj ▸ ha)

/-! ## Chain order -/

/-- The place of a fill in the chain. -/
def FillRow.chainOrder (fill : FillRow) : UInt64 ×ₗ UInt64 ×ₗ UInt32 :=
  toLex (fill.timestampUs, toLex (fill.version, fill.eventIdx))

/-- No fill that is left out comes behind a returned one in the chain. -/
def KeepsMostRecent (fills returned : List FillRow) : Prop :=
  ∀ left ∈ fills, left ∉ returned → ∀ row ∈ returned, ¬ row.chainOrder < left.chainOrder

/-- Among fills of one timestamp, the limit does not admit one and leave out one that comes
behind it in the chain. -/
def LimitKeepsTies {κ : Type} [LinearOrder κ] (fills : List FillRow) (key : FillRow → κ)
    (limit : Limit) : Prop :=
  ∀ a ∈ fills, ∀ b ∈ fills, a.timestampUs = b.timestampUs →
    toLex (a.version, a.eventIdx) < toLex (b.version, b.eventIdx) →
    limit.reached (rank key fills b) = true → limit.reached (rank key fills a) = true

/-- What a limited scan returns of fills that are listed by descending timestamp and then by
`tie`. -/
structure ScanRecency {κ : Type} [LinearOrder κ] (fills returned : List FillRow)
    (tie : FillRow → κ) (limit : Limit) : Prop where
  /-- A fill that is left out is older than every returned one, or of its age and behind it. -/
  leftOut : ∀ left ∈ fills, left ∉ returned → ∀ row ∈ returned,
    left.timestampUs < row.timestampUs ∨ left.timestampUs = row.timestampUs ∧ tie row < tie left
  keepsMostRecent_iff : KeepsMostRecent fills returned ↔
    LimitKeepsTies fills (fun fill => toLex (toDual fill.timestampUs, tie fill)) limit

theorem scanRecency_truncate {κ : Type} [LinearOrder κ] {fills : List FillRow}
    {tie : FillRow → κ}
    (hfills : fills.Pairwise (fun a b => toLex (toDual a.timestampUs, tie a) <
      toLex (toDual b.timestampUs, tie b))) (limit : Limit) :
    ScanRecency fills (limit.truncate fills) tie limit := by
  have hleft : ∀ left ∈ fills, left ∉ limit.truncate fills → ∀ row ∈ limit.truncate fills,
      left.timestampUs < row.timestampUs ∨
        left.timestampUs = row.timestampUs ∧ tie row < tie left := by
    intro left hmem hnot row hrow
    have hlt := Limit.lt_of_not_mem_truncate hfills hrow hmem hnot
    rw [Prod.Lex.toLex_lt_toLex] at hlt
    rcases hlt with hts | ⟨hts, htie⟩
    · exact .inl (toDual_lt_toDual.1 hts)
    · exact .inr ⟨(toDual_inj.1 hts).symm, htie⟩
  refine ⟨hleft, ?_, ?_⟩
  · -- a pair that the limit separates is a counterexample
    intro hkeeps a ha b hb hts hlt hreached
    by_contra hadmitted
    rw [Bool.not_eq_true, ← Limit.mem_truncate_iff hfills limit ha] at hadmitted
    have hout : b ∉ limit.truncate fills := by
      rw [Limit.mem_truncate_iff hfills limit hb, hreached]
      decide
    apply hkeeps b hb hout a hadmitted
    unfold FillRow.chainOrder
    rw [hts]
    exact Prod.Lex.toLex_lt_toLex.2 (.inr ⟨rfl, hlt⟩)
  · -- only a fill of the same timestamp can be left out although it comes behind
    intro hties left hmem hnot row hrow hchain
    have hrowMem := Limit.mem_of_mem_truncate hrow
    rw [Limit.mem_truncate_iff hfills limit hrowMem] at hrow
    rcases Prod.Lex.toLex_lt_toLex.1 hchain with hts | ⟨hts, hlt⟩
    · rcases hleft left hmem hnot row (by
        rwa [Limit.mem_truncate_iff hfills limit hrowMem]) with holder | ⟨heq, _⟩
      · exact absurd hts holder.asymm
      · exact absurd heq hts.ne'
    · rw [Limit.mem_truncate_iff hfills limit hmem, Bool.not_eq_false] at hnot
      rw [hties row hrowMem left hmem hts hlt hnot] at hrow
      cases hrow

/-- The order in which the fills are listed does not matter. -/
theorem ScanRecency.of_perm {κ : Type} [LinearOrder κ] {fills fills' returned : List FillRow}
    {tie : FillRow → κ} {limit : Limit} (h : ScanRecency fills returned tie limit)
    (hperm : fills.Perm fills') : ScanRecency fills' returned tie limit := by
  -- none of it depends on the order in which the fills are given
  have hkeeps : KeepsMostRecent fills' returned ↔ KeepsMostRecent fills returned := by
    unfold KeepsMostRecent
    simp only [hperm.mem_iff]
  have hties : LimitKeepsTies fills' (fun fill => toLex (toDual fill.timestampUs, tie fill))
      limit ↔ LimitKeepsTies fills (fun fill => toLex (toDual fill.timestampUs, tie fill))
      limit := by
    unfold LimitKeepsTies
    simp only [hperm.mem_iff, rank_congr_perm hperm]
  refine ⟨fun left hmem => h.leftOut left (hperm.mem_iff.2 hmem), ?_⟩
  rw [hkeeps, hties]
  exact h.keepsMostRecent_iff

/-! ## The two engines -/

/-- The stored fills of a market. -/
def MemoryEngine.marketFillsOf (inner : MemoryEngine) (marketId : String) : List FillRow :=
  inner.fillsById.values.filter (fun fill => fill.marketId == marketId)

/-- What the memory engine compares fills of one timestamp by. -/
def FillRow.memoryTie (fill : FillRow) : UInt64 ×ₗ UInt32 ×ₗ Text :=
  toLex (fill.version, toLex (fill.eventIdx, ⟨fill.fillId⟩))

/-- What the keys of the RocksDB engine compare fills of one timestamp by. -/
def FillRow.marketKeyTie (fill : FillRow) : UInt64 ×ₗ Text := toLex (fill.version, ⟨fill.fillId⟩)

/-- Every fill is stored under its id. -/
theorem MemoryEngine.nodup_fillIds (ops : List PutOp) :
    ((MemoryEngine.empty.run ops).fillsById.values.map
      (fun fill => (⟨fill.fillId⟩ : Text))).Nodup := by
  rw [MemoryEngine.fillsById_run]
  -- the ids of the fills are the keys of the map
  have hkeys : (SortedMap.ofList (ops.filterMap MemoryEngine.fillEntry)).values.map
      (fun fill => (⟨fill.fillId⟩ : Text)) =
      (SortedMap.ofList (ops.filterMap MemoryEngine.fillEntry)).entries.map Prod.fst := by
    rw [SortedMap.values, List.map_map]
    apply List.map_congr_left
    intro p hp
    rcases MemoryEngine.mem_fillEntries (SortedMap.mem_of_mem_ofList hp) with ⟨fill, _, rfl⟩
    rfl
  rw [hkeys, List.Nodup, List.pairwise_map]
  exact (SortedMap.sorted _).imp (fun hlt => hlt.ne)

theorem MemoryEngine.scanMarketFills_recency (ops : List PutOp) (marketId : String)
    (limit : Limit) :
    ScanRecency ((MemoryEngine.empty.run ops).marketFillsOf marketId)
      ((MemoryEngine.empty.run ops).scanMarketFills marketId limit) FillRow.memoryTie limit := by
  set fills := (MemoryEngine.empty.run ops).marketFillsOf marketId with hfills
  -- fill ids are distinct, and part of the key that is sorted by
  have hnodup : (fills.map MemoryEngine.recentFirstKey).Nodup := by
    have hids : (fills.map (fun fill => (⟨fill.fillId⟩ : Text))).Nodup :=
      (List.filter_sublist.map _).nodup (MemoryEngine.nodup_fillIds ops)
    exact .of_map (fun key => (ofLex (ofLex (ofLex key).2).2).2) (by rwa [List.map_map])
  have hrecency : ScanRecency (sortOn MemoryEngine.recentFirstKey fills)
      (limit.truncate (sortOn MemoryEngine.recentFirstKey fills)) FillRow.memoryTie limit :=
    scanRecency_truncate (sortOn_pairwise_lt hnodup) limit
  exact hrecency.of_perm (sortOn_perm _ fills)

namespace RocksDb

variable {json : SerdeJson} {history : History}

/-- The stored fills of a market. -/
def marketFillsOf (json : SerdeJson) (db : RocksDb) (marketId : String) : List FillRow :=
  (db.decodedRows json.fill .fillsByMarketTime).filter (fun fill => fill.marketId == marketId)

theorem scanMarketFills_afterHistory (hjson : ∀ step ∈ history, json.RoundTrips step.2)
    {marketId : String} (hMarket : Key.TextOk marketId) (limit : Limit) :
    (afterHistory json history).scanMarketFills json marketId limit =
      .ok ((scanRoom limit 0).truncate
        ((afterHistory json history).marketFillsOf json marketId)) := by
  have hbegins := Key.fillsByMarketPrefix_eq_ok hMarket
  unfold scanMarketFills
  rw [hbegins]
  exact (holdsRows_fillsByMarketTime hjson).scanPrefix_eq
    (fun fill k hk => Key.fillsByMarketTime_prefix_iff hk hbegins) limit

theorem scanMarketFills_recency (hjson : ∀ step ∈ history, json.RoundTrips step.2)
    {marketId : String} {limit : Limit} {returned : List FillRow}
    (hscan : (afterHistory json history).scanMarketFills json marketId limit = .ok returned) :
    ScanRecency ((afterHistory json history).marketFillsOf json marketId) returned
      FillRow.marketKeyTie (scanRoom limit 0) := by
  have hMarket : Key.TextOk marketId := by
    -- for any other market, the prefix of the scan panics
    by_contra hnot
    have hpanic := Key.assertTextSegments_panic (List.mem_singleton_self marketId) hnot
    simp [scanMarketFills, scanPrefix, Key.fillsByMarketPrefix, hpanic, bind, Except.bind]
      at hscan
  rw [scanMarketFills_afterHistory hjson hMarket] at hscan
  cases hscan
  apply scanRecency_truncate
  exact (holdsRows_fillsByMarketTime hjson).pairwise_scanKey
    (fun a b ka kb hka hkb => Key.fillsByMarketTime_lt_iff hka hkb)

end RocksDb

/-- **Recent first.** In every state of either engine, a limited scan of a market leaves out no
fill of a later timestamp than a returned one, and of one timestamp only fills behind it in the
order of the engine. It keeps the most recent fills in chain order exactly if the limit does not
separate two fills of one timestamp that are listed in the order of the chain. -/
theorem scanMarketFills_recent_first {json : SerdeJson} {history : RocksDb.History}
    (hjson : ∀ step ∈ history, json.RoundTrips step.2) (ops : List PutOp) (marketId : String)
    (limit : Limit) :
    ScanRecency ((MemoryEngine.empty.run ops).marketFillsOf marketId)
        ((MemoryEngine.empty.run ops).scanMarketFills marketId limit) FillRow.memoryTie limit ∧
      (Key.TextOk marketId → ∃ returned,
        (RocksDb.afterHistory json history).scanMarketFills json marketId limit =
          .ok returned) ∧
      ∀ returned, (RocksDb.afterHistory json history).scanMarketFills json marketId limit =
          .ok returned →
        ScanRecency ((RocksDb.afterHistory json history).marketFillsOf json marketId) returned
          FillRow.marketKeyTie (RocksDb.scanRoom limit 0) := by
  refine ⟨MemoryEngine.scanMarketFills_recency ops marketId limit, ?_, ?_⟩
  · intro hMarket
    exact ⟨_, RocksDb.scanMarketFills_afterHistory hjson hMarket limit⟩
  · intro returned hscan
    exact RocksDb.scanMarketFills_recency hjson hscan

/-- Two fills of one transaction, numbered 1 and 2 in the order of their events. -/
def tiedFills : List PutOp :=
  [.putFill (sampleFill "1" "BTC" 0), .putFill (sampleFill "2" "BTC" 1)]

/-- The fills of `tiedFills`, and one that is refused. -/
def tiedHistory : RocksDb.History :=
  [(fun _ => none, .putFill (sampleFill "1" "BTC" 0)),
    (fun _ => none, .putFill (sampleFill "2" "BTC" 1)),
    (fun _ => some "IO error", .putFill (sampleFill "3" "BTC" 2))]

theorem scanMarketFills_recent_first_tied :
    ScanRecency ((MemoryEngine.empty.run tiedFills).marketFillsOf "BTC")
        ((MemoryEngine.empty.run tiedFills).scanMarketFills "BTC" (.rows 1)) FillRow.memoryTie
        (.rows 1) ∧
      (Key.TextOk "BTC" → ∃ returned,
        (RocksDb.afterHistory (.ofOps (tiedHistory.map Prod.snd)) tiedHistory).scanMarketFills
          (.ofOps (tiedHistory.map Prod.snd)) "BTC" (.rows 1) = .ok returned) ∧
      ∀ returned,
        (RocksDb.afterHistory (.ofOps (tiedHistory.map Prod.snd)) tiedHistory).scanMarketFills
          (.ofOps (tiedHistory.map Prod.snd)) "BTC" (.rows 1) = .ok returned →
        ScanRecency ((RocksDb.afterHistory (.ofOps (tiedHistory.map Prod.snd))
          tiedHistory).marketFillsOf (.ofOps (tiedHistory.map Prod.snd)) "BTC") returned
          FillRow.marketKeyTie (RocksDb.scanRoom (.rows 1) 0) :=
  scanMarketFills_recent_first (by decide +kernel) tiedFills "BTC" (.rows 1)

/-- Of two fills of one transaction, a scan for one returns the earlier, in both engines. -/
theorem scanMarketFills_keeps_earlier_tied :
    ¬ KeepsMostRecent ((MemoryEngine.empty.run tiedFills).marketFillsOf "BTC")
        ((MemoryEngine.empty.run tiedFills).scanMarketFills "BTC" (.rows 1)) ∧
      (RocksDb.afterHistory (.ofOps tiedFills) (tiedHistory.take 2)).scanMarketFills
        (.ofOps tiedFills) "BTC" (.rows 1) = .ok [sampleFill "1" "BTC" 0] ∧
      ¬ KeepsMostRecent ((RocksDb.afterHistory (.ofOps tiedFills)
          (tiedHistory.take 2)).marketFillsOf (.ofOps tiedFills) "BTC")
        [sampleFill "1" "BTC" 0] := by
  -- the fill that is left out is the later one in the chain
  have hearlier : (sampleFill "1" "BTC" 0).chainOrder < (sampleFill "2" "BTC" 1).chainOrder := by
    decide
  refine ⟨fun hkeeps => ?_, by decide +kernel, fun hkeeps => ?_⟩
  · exact hkeeps (sampleFill "2" "BTC" 1) (by decide +kernel) (by decide +kernel)
      (sampleFill "1" "BTC" 0) (by decide +kernel) hearlier
  · exact hkeeps (sampleFill "2" "BTC" 1) (by decide +kernel) (by decide +kernel)
      (sampleFill "1" "BTC" 0) (by decide +kernel) hearlier

end HotIndex
