import HotIndex.Storage.HistoryScans
import HotIndex.Storage.VolumeAgreement

/-!
# The Window of a Builder Volume

The window of length `W` that ends at `end` is meant to hold the attributions `r` with
`end - r.timestamp_us < W`. Both engines start it at `end.saturating_sub(W) + 1`: where `end`
lies within the first `W` of time, that start saturates to `1`, and the attributions with
timestamp `0`, which is what the parser gives a transaction without one, are not counted.
Everywhere else the count is exact (`builderVolume_window_iff`).
-/

namespace HotIndex

open Lib

/-! ## The bounds of the window -/

theorem toNat_saturatingSub (a b : UInt64) :
    (saturatingSub a b).toNat = a.toNat - b.toNat := by
  unfold saturatingSub
  split_ifs with h
  · exact UInt64.toNat_sub_of_le a b h
  · rw [UInt64.le_iff_toNat_le] at h
    simp only [UInt64.toNat_zero]
    omega

theorem toNat_saturatingAdd_one (a : UInt64) :
    (saturatingAdd a 1).toNat = min (a.toNat + 1) (2 ^ 64 - 1) := by
  have hmax : u64Max.toNat = 2 ^ 64 - 1 := by decide
  have hroom : (u64Max - 1).toNat = 2 ^ 64 - 2 := by decide
  have ha := a.toNat_lt
  unfold saturatingAdd
  -- either there is room for one more, or the sum stays at the top
  split_ifs with h
  · rw [UInt64.le_iff_toNat_le, hroom] at h
    rw [UInt64.toNat_add, UInt64.toNat_one]
    omega
  · rw [UInt64.le_iff_toNat_le, hroom] at h
    rw [hmax]
    omega

theorem TimeWindow.durationUs_pos (window : TimeWindow) : 0 < window.durationUs.toNat := by
  cases window <;> decide

/-- The end of the window: the latest checkpoint or attribution. -/
def windowEnd (rows : List BuilderAttributionRow) (checkpointTs : UInt64) : UInt64 :=
  max checkpointTs (latestTimestamp (rows.map BuilderAttributionRow.timestampUs))

/-- The start that both engines compute for the window. -/
def windowStart (endTs : UInt64) (window : TimeWindow) : UInt64 :=
  saturatingAdd (saturatingSub endTs window.durationUs) 1

/-- The attribution lies in the window of the given length. -/
def InWindow (endTs : UInt64) (window : TimeWindow) (row : BuilderAttributionRow) : Prop :=
  endTs.toNat - row.timestampUs.toNat < window.durationUs.toNat

instance (endTs : UInt64) (window : TimeWindow) (row : BuilderAttributionRow) :
    Decidable (InWindow endTs window row) :=
  inferInstanceAs (Decidable (_ < _))

theorem toNat_windowStart (endTs : UInt64) (window : TimeWindow) :
    (windowStart endTs window).toNat = endTs.toNat - window.durationUs.toNat + 1 := by
  have hpos := window.durationUs_pos
  have hend := endTs.toNat_lt
  unfold windowStart
  rw [toNat_saturatingAdd_one, toNat_saturatingSub]
  omega

/-- A window that does not reach the start of time is the half-open one. -/
theorem windowStart_le_iff {endTs : UInt64} {window : TimeWindow}
    (h : window.durationUs ≤ endTs) (row : BuilderAttributionRow) :
    windowStart endTs window ≤ row.timestampUs ↔ InWindow endTs window row := by
  have hpos := window.durationUs_pos
  rw [UInt64.le_iff_toNat_le] at h
  rw [UInt64.le_iff_toNat_le, toNat_windowStart]
  unfold InWindow
  omega

/-- A window that reaches the start of time misses only timestamp zero. -/
theorem windowStart_le_iff_of_lt {endTs : UInt64} {window : TimeWindow}
    (h : endTs < window.durationUs) (row : BuilderAttributionRow) :
    InWindow endTs window row ∧
      (windowStart endTs window ≤ row.timestampUs ↔ row.timestampUs ≠ 0) := by
  rw [UInt64.lt_iff_toNat_lt] at h
  rw [UInt64.le_iff_toNat_le, toNat_windowStart, ne_eq, ← UInt64.toNat_inj, UInt64.toNat_zero]
  unfold InWindow
  omega

/-! ## What the loop counts -/

namespace VolumeState

theorem trades_foldl (rows : List BuilderAttributionRow) (st : VolumeState) :
    (rows.foldl visitExact st).trades = st.trades + UInt64.ofNat rows.length := by
  induction rows generalizing st with
  | nil => simp
  | cons row rows ih =>
    rw [List.foldl_cons, ih, List.length_cons, UInt64.ofNat_add]
    show st.trades + 1 + _ = _
    rw [UInt64.add_assoc, UInt64.add_comm 1]
    rfl

theorem accounts_foldl (rows : List BuilderAttributionRow) (st : VolumeState) :
    (rows.foldl visitExact st).accounts =
      st.accounts ∪ (rows.map (fun row => (⟨row.account⟩ : Text))).toFinset := by
  induction rows generalizing st with
  | nil => simp
  | cons row rows ih =>
    rw [List.foldl_cons, ih]
    ext account
    simp [visitExact, or_left_comm]

end VolumeState

/-- The distinct accounts of some attributions. -/
def distinctAccounts (rows : List BuilderAttributionRow) : Finset Text :=
  (rows.map (fun row => (⟨row.account⟩ : Text))).toFinset

theorem card_distinctAccounts_le (rows : List BuilderAttributionRow) :
    (distinctAccounts rows).card ≤ rows.length := by
  have h := List.toFinset_card_le (rows.map (fun row => (⟨row.account⟩ : Text)))
  rwa [List.length_map] at h

/-- A volume row that is returned counts the attributions from the start of its window. -/
theorem builderVolumeRow_counts {builderAddr : String} {window : TimeWindow}
    {rows : List BuilderAttributionRow} {checkpointTs : UInt64} {volume : BuilderVolumeRow}
    (h : builderVolumeRow builderAddr window rows checkpointTs = .ok volume) :
    let counted := rows.filter
      (fun row => windowStart (windowEnd rows checkpointTs) window ≤ row.timestampUs)
    volume.windowEndTsUs = windowEnd rows checkpointTs ∧
      volume.trades = UInt64.ofNat counted.length ∧
      volume.activeAccounts = UInt64.ofNat (distinctAccounts counted).card := by
  unfold builderVolumeRow at h
  -- the start is computed from the later of the two maxima, which is the end
  have hend : max (latestTimestamp (rows.map BuilderAttributionRow.timestampUs))
      (max checkpointTs (latestTimestamp (rows.map BuilderAttributionRow.timestampUs))) =
      windowEnd rows checkpointTs :=
    max_eq_right (le_max_right _ _)
  have hstart : saturatingAdd (saturatingSub (windowEnd rows checkpointTs) window.durationUs) 1 =
      windowStart (windowEnd rows checkpointTs) window := rfl
  simp only [hend, hstart] at h
  rcases bind_eq_ok_iff.1 h with ⟨st, hst, h⟩
  rcases bind_eq_ok_iff.1 h with ⟨notional, _, h⟩
  rcases bind_eq_ok_iff.1 h with ⟨feeShare, _, h⟩
  cases h
  -- a loop without overflow is the fold of the exact steps
  have hfold := foldlM_eq_foldl (fun _ _ _ => VolumeState.visit_eq_ok) hst
  refine ⟨rfl, ?_, ?_⟩
  · show st.trades = _
    rw [hfold, VolumeState.trades_foldl]
    exact UInt64.zero_add _
  · show UInt64.ofNat st.accounts.card = _
    rw [hfold, VolumeState.accounts_foldl]
    simp [VolumeState.start, distinctAccounts]

/-! ## The exact window -/

/-- The volume row counts exactly the attributions in the window that ends at `endTs`. -/
structure CountsWindow (rows : List BuilderAttributionRow) (endTs : UInt64) (window : TimeWindow)
    (volume : BuilderVolumeRow) : Prop where
  windowEnd : volume.windowEndTsUs = endTs
  trades : volume.trades.toNat = (rows.filter (fun row => InWindow endTs window row)).length
  activeAccounts : volume.activeAccounts.toNat =
    (distinctAccounts (rows.filter (fun row => InWindow endTs window row))).card

/-- The counts are exact if and only if the window does not reach the start of time or no
attribution of the builder has timestamp zero. -/
theorem countsWindow_iff {builderAddr : String} {window : TimeWindow}
    {rows : List BuilderAttributionRow} {checkpointTs : UInt64} {volume : BuilderVolumeRow}
    (hlength : rows.length < 2 ^ 64)
    (h : builderVolumeRow builderAddr window rows checkpointTs = .ok volume) :
    CountsWindow rows (windowEnd rows checkpointTs) window volume ↔
      window.durationUs ≤ windowEnd rows checkpointTs ∨ ∀ row ∈ rows, row.timestampUs ≠ 0 := by
  rcases builderVolumeRow_counts h with ⟨hend, htrades, haccounts⟩
  set endTs := windowEnd rows checkpointTs with hendTs
  have hcounted : (rows.filter (fun row => windowStart endTs window ≤ row.timestampUs)).length ≤
      rows.length := List.length_filter_le _ _
  have htoNat : volume.trades.toNat =
      (rows.filter (fun row => windowStart endTs window ≤ row.timestampUs)).length := by
    rw [htrades]
    exact UInt64.toNat_ofNat_of_lt' (hcounted.trans_lt hlength)
  constructor
  · intro hcounts
    by_contra! hcond
    rcases hcond with ⟨hlt, row, hrow, hzero⟩
    -- all attributions lie in the window, and the one at zero is not counted
    have hall : rows.filter (fun row => InWindow endTs window row) = rows := by
      rw [List.filter_eq_self]
      intro row _
      simpa using (windowStart_le_iff_of_lt hlt row).1
    have hmissed : (rows.filter (fun row => windowStart endTs window ≤ row.timestampUs)).length <
        rows.length := by
      apply List.length_filter_lt_length_iff_exists.2
      exact ⟨row, hrow, by simpa [(windowStart_le_iff_of_lt hlt row).2] using hzero⟩
    have htotal := hcounts.trades
    rw [hall, htoNat] at htotal
    omega
  · intro hcond
    -- both conditions admit the same attributions
    have hsame : rows.filter (fun row => windowStart endTs window ≤ row.timestampUs) =
        rows.filter (fun row => InWindow endTs window row) := by
      apply List.filter_congr
      intro row hrow
      rw [decide_eq_decide]
      rcases le_or_gt window.durationUs endTs with hle | hlt
      · exact windowStart_le_iff hle row
      · have hzero : row.timestampUs ≠ 0 := (hcond.resolve_left (not_le.2 hlt)) row hrow
        have hstart := windowStart_le_iff_of_lt hlt row
        exact ⟨fun _ => hstart.1, fun _ => hstart.2.2 hzero⟩
    refine ⟨hend, by rw [htoNat, hsame], ?_⟩
    -- there are no more accounts than attributions, so their number fits too
    have hcard := (card_distinctAccounts_le
      (rows.filter (fun row => windowStart endTs window ≤ row.timestampUs))).trans hcounted
    rw [haccounts, ← hsame]
    exact UInt64.toNat_ofNat_of_lt' (hcard.trans_lt hlength)

/-! ## The two engines -/

/-- What `get_builder_code_volume` owes for the stored attributions of a builder: it returns a
row unless a sum overflows, and the row counts the window exactly under the one condition. The
rows are collected in a `Vec`, which is shorter than `2 ^ 64`. -/
structure WindowSpec (volume : Except Fault (Option BuilderVolumeRow))
    (rows : List BuilderAttributionRow) (checkpointTs : UInt64) (window : TimeWindow) : Prop where
  returns : rows ≠ [] → NoOverflow volume → ∃ row, volume = .ok (some row)
  exact_iff : rows.length < 2 ^ 64 → ∀ row, volume = .ok (some row) →
    (CountsWindow rows (windowEnd rows checkpointTs) window row ↔
      window.durationUs ≤ windowEnd rows checkpointTs ∨ ∀ row ∈ rows, row.timestampUs ≠ 0)

theorem windowSpec_volumeOfRows (builderAddr : String) (window : TimeWindow)
    (rows : List BuilderAttributionRow) (checkpointTs : UInt64) :
    WindowSpec (volumeOfRows builderAddr window rows checkpointTs) rows checkpointTs window := by
  cases rows with
  | nil => exact ⟨fun h => absurd rfl h, fun _ row h => by cases h⟩
  | cons first rest =>
    constructor
    · -- the row fails by overflow only
      intro _ h
      rcases (failsByOverflow_builderVolumeRow builderAddr window (first :: rest)
        checkpointTs).returns (.of_bind h) with ⟨row, hrow⟩
      refine ⟨row, ?_⟩
      show (builderVolumeRow builderAddr window (first :: rest) checkpointTs >>= _) = _
      rw [hrow]
      rfl
    · intro hlength row h
      rcases bind_eq_ok_iff.1 h with ⟨row', hrow, h⟩
      cases h
      exact countsWindow_iff hlength hrow

/-- The stored attributions of a builder. -/
def MemoryEngine.attributionsOf (inner : MemoryEngine) (builderAddr : String) :
    List BuilderAttributionRow :=
  inner.builderAttributionsByFill.values.filter (fun row => row.builderAddr == builderAddr)

/-- The latest checkpoint among the stored ones. -/
def MemoryEngine.latestCheckpoint (inner : MemoryEngine) : UInt64 :=
  latestTimestamp (inner.checkpoints.values.map IngestCheckpoint.lastProcessedTimestampUs)

namespace RocksDb

/-- The stored attributions of a builder. -/
def attributionsOf (json : SerdeJson) (db : RocksDb) (builderAddr : String) :
    List BuilderAttributionRow :=
  (db.decodedRows json.builder .builderCodeFills).filter
    (fun row => row.builderAddr == builderAddr)

/-- The latest checkpoint among the stored ones. -/
def latestCheckpoint (json : SerdeJson) (db : RocksDb) : UInt64 :=
  latestTimestamp ((db.decodedRows json.checkpoint .ingestCheckpoint).map
    IngestCheckpoint.lastProcessedTimestampUs)

variable {json : SerdeJson} {history : History}

theorem latestCheckpointTimestampUs_afterHistory
    (hjson : ∀ step ∈ history, json.RoundTrips step.2) :
    (afterHistory json history).latestCheckpointTimestampUs json =
      .ok ((afterHistory json history).latestCheckpoint json) := by
  have hholds := holdsRows_ingestCheckpoint hjson
  unfold latestCheckpointTimestampUs latestCheckpoint latestTimestamp
  rw [hholds.entries_eq, List.foldlM_map, List.foldl_map]
  -- every checkpoint that is stored can be decoded
  apply foldlM_eq_ok
  intro checkpoint hmem maxTs
  rw [Codec.decode_toVec (hholds.of_mem hmem).2]
  rfl

/-- The volume is computed from the stored attributions of the builder. -/
theorem getBuilderCodeVolume_afterHistory (hjson : ∀ step ∈ history, json.RoundTrips step.2)
    {builderAddr : String} (hBuilder : Key.TextOk builderAddr) (window : TimeWindow) :
    (afterHistory json history).getBuilderCodeVolume json builderAddr window =
      volumeOfRows builderAddr window ((afterHistory json history).attributionsOf json builderAddr)
        ((afterHistory json history).latestCheckpoint json) := by
  have hbegins := Key.builderCodeFillsPrefix_eq_ok hBuilder
  -- the scan without a limit returns all rows under the builder's prefix
  have hscan : (afterHistory json history).scanBuilderCodeFills json builderAddr .max =
      .ok ((afterHistory json history).attributionsOf json builderAddr) := by
    unfold scanBuilderCodeFills
    rw [hbegins]
    exact (holdsRows_builderCodeFills hjson).scanPrefix_eq
      (fun row k hk => Key.builderCodeFills_prefix_iff hk hbegins) .max
  unfold getBuilderCodeVolume
  rw [hscan, latestCheckpointTimestampUs_afterHistory hjson]
  rfl

/-- No attribution is stored for a builder that cannot be part of a key. -/
theorem attributionsOf_eq_nil (hjson : ∀ step ∈ history, json.RoundTrips step.2)
    {builderAddr : String} (h : ¬ Key.TextOk builderAddr) :
    (afterHistory json history).attributionsOf json builderAddr = [] := by
  unfold attributionsOf
  rw [List.filter_eq_nil_iff]
  -- a stored row has a key, and its builder is a text of that key
  intro row hrow hbuilder
  rcases ((holdsRows_builderCodeFills hjson).of_mem hrow).1 with ⟨k, hk⟩
  have hText := ((Key.builderCodeFills_eq_ok_iff ..).1 hk).1.1
  rw [beq_iff_eq.1 hbuilder] at hText
  exact h hText

theorem windowSpec_afterHistory (hjson : ∀ step ∈ history, json.RoundTrips step.2)
    (builderAddr : String) (window : TimeWindow) :
    WindowSpec ((afterHistory json history).getBuilderCodeVolume json builderAddr window)
      ((afterHistory json history).attributionsOf json builderAddr)
      ((afterHistory json history).latestCheckpoint json) window := by
  by_cases hBuilder : Key.TextOk builderAddr
  · rw [getBuilderCodeVolume_afterHistory hjson hBuilder]
    exact windowSpec_volumeOfRows _ _ _ _
  · -- the prefix of the scan panics, and nothing is stored that it could miss
    rw [getBuilderCodeVolume_panics _ json hBuilder, attributionsOf_eq_nil hjson hBuilder]
    exact ⟨fun h => absurd rfl h, fun _ row h => by cases h⟩

end RocksDb

/-- **Volume windows.** In every state of either engine, the row returned for a builder counts
exactly its stored attributions in the window, if and only if the window ends at or behind its
length or none of these attributions has timestamp zero. -/
theorem builderVolume_window_iff {json : SerdeJson} {history : RocksDb.History}
    (hjson : ∀ step ∈ history, json.RoundTrips step.2) (ops : List PutOp) (builderAddr : String)
    (window : TimeWindow) :
    WindowSpec ((MemoryEngine.empty.run ops).getBuilderCodeVolume builderAddr window)
      ((MemoryEngine.empty.run ops).attributionsOf builderAddr)
      (MemoryEngine.empty.run ops).latestCheckpoint window ∧
    WindowSpec
      ((RocksDb.afterHistory json history).getBuilderCodeVolume json builderAddr window)
      ((RocksDb.afterHistory json history).attributionsOf json builderAddr)
      ((RocksDb.afterHistory json history).latestCheckpoint json) window :=
  ⟨windowSpec_volumeOfRows _ _ _ _, RocksDb.windowSpec_afterHistory hjson builderAddr window⟩

/-- An attribution of a transaction without a timestamp. -/
def untimedAttribution : BuilderAttributionRow where
  builderAddr := "0xb"
  marketId := "BTC"
  account := "0xa"
  version := 7
  eventIdx := 0
  fillId := "1"
  notional := some "10.50"
  builderFeeBps := none
  estimatedFeeAmount := none
  timestampUs := 0

/-- A history whose second operation fails. -/
def untimedHistory : RocksDb.History :=
  [(fun _ => none, .putBuilderAttribution untimedAttribution),
    (fun _ => some "IO error", .putBuilderAttribution { untimedAttribution with fillId := "2" })]

theorem builderVolume_window_iff_untimed :
    WindowSpec
        ((MemoryEngine.empty.run [.putBuilderAttribution untimedAttribution]).getBuilderCodeVolume
          "0xb" .h24)
        ((MemoryEngine.empty.run [.putBuilderAttribution untimedAttribution]).attributionsOf "0xb")
        (MemoryEngine.empty.run [.putBuilderAttribution untimedAttribution]).latestCheckpoint
        .h24 ∧
      WindowSpec
        ((RocksDb.afterHistory (.ofOps (untimedHistory.map Prod.snd))
          untimedHistory).getBuilderCodeVolume (.ofOps (untimedHistory.map Prod.snd)) "0xb" .h24)
        ((RocksDb.afterHistory (.ofOps (untimedHistory.map Prod.snd))
          untimedHistory).attributionsOf (.ofOps (untimedHistory.map Prod.snd)) "0xb")
        ((RocksDb.afterHistory (.ofOps (untimedHistory.map Prod.snd))
          untimedHistory).latestCheckpoint (.ofOps (untimedHistory.map Prod.snd))) .h24 :=
  builderVolume_window_iff (by decide +kernel) [.putBuilderAttribution untimedAttribution] "0xb"
    .h24

/-- The volume row of one attribution at time zero reports no trade. -/
theorem builderVolume_misses_untimed :
    ∃ row, (MemoryEngine.empty.run
        [.putBuilderAttribution untimedAttribution]).getBuilderCodeVolume "0xb" .h24 =
          .ok (some row) ∧
      (RocksDb.afterHistory (.ofOps (untimedHistory.map Prod.snd))
        untimedHistory).getBuilderCodeVolume (.ofOps (untimedHistory.map Prod.snd)) "0xb" .h24 =
          .ok (some row) ∧
      row.trades = 0 ∧ row.activeAccounts = 0 ∧ ¬ CountsWindow [untimedAttribution] 0 .h24 row := by
  refine ⟨{
    builderAddr := "0xb"
    window := .h24
    windowStartTsUs := 1
    windowEndTsUs := 0
    notionalVolume := "0"
    trades := 0
    activeAccounts := 0
    estimatedFeeShare := none
    source := "parsed_decibel_events"
    disclaimer := "analytics estimate; not official settlement statement" },
    by decide +kernel, by decide +kernel, rfl, rfl, fun h => ?_⟩
  -- the window ends before it starts, while the one row is counted in it
  have htrades := h.trades
  revert htrades
  decide

end HotIndex
