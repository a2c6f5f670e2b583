import HotIndex.Bench.Ingest
import HotIndex.Lib.ScanOrder
import HotIndex.Storage.ReplayConvergence
import HotIndex.Storage.RowJson

/-!
# Warm-Up

What the rows of a benchmark warm-up leave behind when the measured replay puts them again.
The maps of the memory engine absorb them, its vector of activities does not: the engine
answers like one that never warmed up exactly when no warm-up row stores an activity
(`warmUp_harmless_iff`). A RocksDB database absorbs every warm-up
(`runIngestBench_converges`).
-/

namespace HotIndex

open Lib

/-! ## The memory engine -/

namespace MemoryEngine

/-- Operations of the memory engine succeed one after the other. -/
theorem forM_putM (ops : List PutOp) (inner : MemoryEngine) :
    (ops.forM putM).run.run inner = (.ok (), inner.run ops) := by
  induction ops generalizing inner with
  | nil => rfl
  | cons op ops ih =>
    show (ops.forM putM).run.run (inner.put op) = _
    rw [ih]
    rfl

/-- Measured operations of the memory engine are counted as no errors. -/
theorem forM_observeErrors_putM (ops : List PutOp) (errors : UInt64) (inner : MemoryEngine) :
    (((ops.forM (observeErrors putM)).run errors).run).run inner =
      (.ok ((), errors), inner.run ops) := by
  induction ops generalizing inner with
  | nil => rfl
  | cons op ops ih =>
    show (((ops.forM (observeErrors putM)).run errors).run).run (inner.put op) = _
    rw [ih]
    rfl

theorem run_append (inner : MemoryEngine) (ops ops' : List PutOp) :
    inner.run (ops ++ ops') = (inner.run ops).run ops' :=
  List.foldl_append

theorem run_warmupIngest (rows : IngestRows) (warmup : Nat) (inner : MemoryEngine) :
    (warmupIngest putM rows warmup).run.run inner =
      (.ok (), inner.run (rows.ops.take warmup)) := by
  rw [warmupIngest_eq]
  exact forM_putM _ inner

/-- The measured replay counts no errors and is followed by the checkpoint. -/
theorem run_measuredIngest (dataset : IngestDataset) (iterations : Nat) (inner : MemoryEngine) :
    (measuredIngest putM dataset iterations).run.run inner =
      (.ok { operations := UInt64.ofNat (min iterations dataset.rows.totalRows), errors := 0 },
        inner.run (dataset.rows.ops.take iterations ++
          [.putIngestCheckpoint dataset.checkpoint])) := by
  have hmeasured := forM_observeErrors_putM (dataset.rows.ops.take iterations) 0 inner
  unfold measuredIngest putCheckpointFromManifest
  rw [measureIngest_eq, run_append]
  simp only [bind_assoc, ExceptT.run_bind, StateT.run_bind]
  rw [hmeasured]
  rfl

theorem run_replayIntoEngine (dataset : IngestDataset) (inner : MemoryEngine) :
    (replayIntoEngine putM dataset).run.run inner = (.ok (), inner.run dataset.replayOps) := by
  rw [replayIntoEngine_eq]
  exact forM_putM _ inner

/-- A run behind one of its prefixes: the maps absorb the prefix, the activities keep it. -/
theorem run_restarted {started ops : List PutOp} (h : started <+: ops) :
    (empty.run started).run ops =
      { empty.run ops with
        activities := started.filterMap PutOp.activity? ++ (empty.run ops).activities } := by
  -- a map holds the last writes, which are all in the second run
  have habsorb : ∀ {κ ν : Type} [LinearOrder κ] (entry : PutOp → Option (κ × ν)),
      SortedMap.ofList ((started ++ ops).filterMap entry) =
        SortedMap.ofList (ops.filterMap entry) := by
    intro κ ν _ entry
    rw [List.filterMap_append]
    show SortedMap.empty.insertAll _ = SortedMap.empty.insertAll _
    rw [SortedMap.insertAll_append]
    apply SortedMap.insertAll_absorb_of_isPrefix
    exact h.filterMap entry
  rw [← run_append]
  apply MemoryEngine.ext
  · rw [txByVersion_run, habsorb, txByVersion_run]
  · rw [eventsByVersionIdx_run, habsorb, eventsByVersionIdx_run]
  · rw [fillsById_run, habsorb, fillsById_run]
  · rw [ordersById_run, habsorb, ordersById_run]
  · rw [positionsByAccountMarket_run, habsorb, positionsByAccountMarket_run]
  · rw [builderAttributionsByFill_run, habsorb, builderAttributionsByFill_run]
  · rw [checkpoints_run, habsorb, checkpoints_run]
  · rw [activities_run, activities_run, List.filterMap_append]

/-- Two engines that differ at most in leading activities answer alike only if there are no
such activities: an unlimited scan of their market returns them too. -/
theorem activities_eq_nil_of_reads_eq {json : SerdeJson} {sha256 : Bytes → Bytes}
    {inner : MemoryEngine} {leading : List ActivityRow}
    (h : ({ inner with activities := leading ++ inner.activities } : MemoryEngine).reads json
      sha256 = inner.reads json sha256) : leading = [] := by
  cases leading with
  | nil => rfl
  | cons row leading =>
    have hscan := congrArg (fun reads => reads.scanMarketActivity row.marketId .max) h
    have hlength := congrArg List.length (Except.ok.inj hscan)
    simp only [scanMarketActivity, Limit.truncate, length_sortOn, List.filter_append,
      List.length_append] at hlength
    simp at hlength

variable (json : SerdeJson) (sha256 : Bytes → Bytes)

/-- **Warm-up of the memory engine.** After a warm-up, a measured replay of all rows and the
checkpoint, the memory engine has the checksums, the statistics and the answers to every query
of an engine that replayed the dataset once, exactly when no warm-up row stores an
activity: no fill and no activity row is among the first `warmup` rows. -/
theorem warmUp_harmless_iff (dataset : IngestDataset) (warmup : Nat) {iterations : Nat}
    (h : dataset.rows.totalRows ≤ iterations) :
    ∃ result benched fresh,
      (runIngestBench putM dataset warmup iterations).run.run empty = (.ok result, benched) ∧
      (replayIntoEngine putM dataset).run.run empty = (.ok (), fresh) ∧
      (benched.reads json sha256 = fresh.reads json sha256 ∧ benched.stats = fresh.stats ↔
        ∀ op ∈ dataset.rows.ops.take warmup, op.activity? = none) := by
  have hall : dataset.rows.ops.take iterations = dataset.rows.ops :=
    List.take_of_length_le (dataset.rows.length_ops.trans_le h)
  -- the warm-up puts a prefix of what is measured
  have hstarted : dataset.rows.ops.take warmup <+: dataset.replayOps :=
    (List.take_prefix warmup _).trans (List.prefix_append _ _)
  have hbenched : (runIngestBench putM dataset warmup iterations).run.run empty =
      (.ok { operations := UInt64.ofNat (min iterations dataset.rows.totalRows), errors := 0 },
        (empty.run (dataset.rows.ops.take warmup)).run dataset.replayOps) := by
    unfold runIngestBench
    rw [ExceptT.run_bind, StateT.run_bind, run_warmupIngest]
    show (measuredIngest putM dataset iterations).run.run _ = _
    rw [run_measuredIngest, hall]
    rfl
  refine ⟨_, _, _, hbenched, run_replayIntoEngine dataset empty, ?_⟩
  -- a replay that starts again leaves the activities of the prefix behind twice
  rw [run_restarted hstarted]
  constructor
  · intro hsame
    exact List.filterMap_eq_nil_iff.1 (activities_eq_nil_of_reads_eq hsame.1)
  · intro hnone
    rw [List.filterMap_eq_nil_iff.2 hnone]
    exact ⟨rfl, rfl⟩

/-- A dataset of one fill. -/
def oneFillDataset : IngestDataset where
  manifest := (fixtureDataset NormalizedDataset.localOptions
    { fills := [NormalizedDataset.tradeFill "0xa" 0] } .empty).manifest
  rows := {
    txs := []
    events := []
    fills := [NormalizedDataset.tradeFill "0xa" 0]
    orders := []
    positions := []
    builderRows := []
    activityRows := [] }

theorem warmUp_harmless_iff_oneFillDataset :
    ∃ result benched fresh,
      (runIngestBench putM oneFillDataset 1 1).run.run empty = (.ok result, benched) ∧
      (replayIntoEngine putM oneFillDataset).run.run empty = (.ok (), fresh) ∧
      (benched.reads (.ofOps oneFillDataset.replayOps) Sha256.digest =
          fresh.reads (.ofOps oneFillDataset.replayOps) Sha256.digest ∧
          benched.stats = fresh.stats ↔
        ∀ op ∈ oneFillDataset.rows.ops.take 1, op.activity? = none) :=
  warmUp_harmless_iff _ _ oneFillDataset 1 (by decide)

/-- The fill of the warm-up is counted twice in the activities of its market, in a scan as in
the checksum of the column family. -/
theorem warmUp_repeats_activity_oneFillDataset :
    oneFillDataset.rows.totalRows ≤ 1 ∧
      ∃ result benched fresh,
        (runIngestBench putM oneFillDataset 1 1).run.run empty = (.ok result, benched) ∧
        (replayIntoEngine putM oneFillDataset).run.run empty = (.ok (), fresh) ∧
        benched.scanMarketActivity "BTC" .max ≠ fresh.scanMarketActivity "BTC" .max ∧
        benched.checksums (.ofOps oneFillDataset.replayOps) Sha256.digest ≠
          fresh.checksums (.ofOps oneFillDataset.replayOps) Sha256.digest := by
  -- checksums that count different numbers of rows differ
  have hrows : ∀ {a b : Except Fault (List CfChecksum)},
      a.map (List.map CfChecksum.rowCount) ≠ b.map (List.map CfChecksum.rowCount) → a ≠ b :=
    fun h he => h (congrArg _ he)
  refine ⟨by decide, _, _, _, rfl, rfl, ?_, hrows ?_⟩ <;> decide +kernel

end MemoryEngine

/-! ## RocksDB -/

namespace RocksDb

variable {putError : ColumnFamily → Option String} (json : SerdeJson)

/-- An operation whose failure is only noted makes the same writes. -/
theorem LogsTo.isErr {m : RocksM Unit} {outcome : Except Fault Unit} {log : List LogEntry}
    (hm : LogsTo putError m outcome log) :
    LogsTo putError (isErr m) (resultIsErr outcome) log := by
  intro db hdb
  show (resultIsErr (exec m db).1, (exec m db).2) = _
  rw [hm db hdb]

/-- The closure of the measured replay: note the failure, then count it. -/
theorem run_observeErrors (op : PutOp) (errors : UInt64) :
    (observeErrors (put json) op).run errors =
      (isErr (put json op) >>= fun failed =>
        pure ((), if failed then errors + 1 else errors) : RocksM (Unit × UInt64)) := by
  unfold observeErrors
  rw [StateT.run_bind, StateT.run_monadLift]
  simp only [bind_assoc, pure_bind]
  congr 1
  funext failed
  cases failed <;> rfl

/-- A sequence of operations and its measured replay are logs. If the sequence succeeds they
are the same log, and no error is counted. -/
theorem logsTo_measured (putError : ColumnFamily → Option String) (ops : List PutOp)
    (errors : UInt64) :
    ∃ outcome log outcome' log', LogsTo putError (run json ops) outcome log ∧
      LogsTo putError ((ops.forM (observeErrors (put json))).run errors) outcome' log' ∧
        (outcome = .ok () → outcome' = .ok ((), errors) ∧ log' = log) := by
  induction ops generalizing errors with
  | nil => exact ⟨_, _, _, _, LogsTo.pure (), LogsTo.pure ((), errors), fun _ => ⟨rfl, rfl⟩⟩
  | cons op ops ih =>
    have hsplit : ((op :: ops).forM (observeErrors (put json))).run errors =
        (isErr (put json op) >>= fun failed =>
          (ops.forM (observeErrors (put json))).run (if failed then errors + 1 else errors)) := by
      show (observeErrors (put json) op >>= fun _ => ops.forM _).run errors = _
      rw [StateT.run_bind, run_observeErrors]
      simp only [bind_assoc, pure_bind]
    obtain ⟨first, log₁, hput⟩ := isLog_put putError json op
    rw [hsplit]
    cases first with
    | error fault =>
      -- the sequence ends here, its measured replay may go on
      have hmeasured : IsLog putError (isErr (put json op) >>= fun failed =>
          (ops.forM (observeErrors (put json))).run
            (if failed then errors + 1 else errors)) := by
        apply IsLog.bind ⟨_, _, hput.isErr⟩
        intro failed
        obtain ⟨_, _, outcome', log', -, hlog', -⟩ := ih (if failed then errors + 1 else errors)
        exact ⟨outcome', log', hlog'⟩
      obtain ⟨outcome', log', hlog'⟩ := hmeasured
      exact ⟨_, _, _, _, hput.bind_error, hlog', nofun⟩
    | ok u =>
      obtain ⟨outcome, log, outcome', log', hlog, hlog', hok⟩ := ih errors
      refine ⟨_, _, _, _, hput.bind_ok hlog, hput.isErr.bind_ok hlog', fun houtcome => ?_⟩
      obtain ⟨h₁, h₂⟩ := hok houtcome
      rw [h₁, h₂]
      exact ⟨rfl, rfl⟩

/-- Measured operations go on behind measured operations. -/
theorem observeErrors_append (ops ops' : List PutOp) (errors : UInt64) :
    ((ops ++ ops').forM (observeErrors (put json))).run errors =
      ((ops.forM (observeErrors (put json))).run errors >>= fun counted =>
        (ops'.forM (observeErrors (put json))).run counted.2) := by
  rw [List.forM_eq_forM, List.forM_append, StateT.run_bind]

/-- **Warm-up of RocksDB.** A warm-up that succeeds, of no more rows than are measured, leaves
no trace: the measured replay and the checkpoint give the same result and the same database
as without it. -/
theorem runIngestBench_converges (db : RocksDb) (dataset : IngestDataset)
    {warmup iterations : Nat} (h : min warmup dataset.rows.totalRows ≤ iterations)
    (hwarmup : (exec (warmupIngest (put json) dataset.rows warmup) db).1 = .ok ()) :
    exec (runIngestBench (put json) dataset warmup iterations) db =
      exec (measuredIngest (put json) dataset iterations) db := by
  set rows := dataset.rows with hrows
  have hstarted : rows.ops.take warmup <+: rows.ops.take iterations := by
    rw [← rows.take_ops_min warmup]
    exact List.take_prefix_take_left h
  obtain ⟨rest, hrest⟩ := hstarted
  have hwarm : warmupIngest (put json) rows warmup = run json (rows.ops.take warmup) :=
    warmupIngest_eq (put json) rows warmup
  obtain ⟨outcome, log, outcome', log', hlog, hmeasured, hok⟩ :=
    logsTo_measured json db.putError (rows.ops.take warmup) 0
  -- a warm-up that failed would have ended the run
  have houtcome : outcome = .ok () := by
    rw [← hwarmup, hwarm, hlog db rfl]
  obtain ⟨hcounted, hsame⟩ := hok houtcome
  rw [hcounted, hsame] at hmeasured
  -- the measured replay starts with the rows of the warm-up
  have hwhole : ∃ outcome log', LogsTo db.putError
      (measuredIngest (put json) dataset iterations) outcome log' ∧ log <+: log' := by
    unfold measuredIngest
    rw [measureIngest_eq, ← hrows, ← hrest, observeErrors_append]
    simp only [bind_assoc, pure_bind]
    apply hmeasured.exists_bind
    intro counted
    obtain ⟨_, _, outcome', log', -, hlog', -⟩ :=
      logsTo_measured json db.putError rest counted.2
    apply IsLog.bind ⟨outcome', log', hlog'⟩
    intro counted
    apply IsLog.bind (isLog_put db.putError json _)
    intro _
    exact ⟨_, _, LogsTo.pure _⟩
  obtain ⟨outcome', log', hwhole, hprefix⟩ := hwhole
  have hfirst : exec (warmupIngest (put json) rows warmup) db =
      (.ok (), (exec (run json (rows.ops.take warmup)) db).2) := by
    rw [hwarm, ← houtcome, hlog db rfl]
  unfold runIngestBench
  rw [exec_bind_of_ok hfirst]
  exact exec_absorb hlog hwhole hprefix

end RocksDb

end HotIndex
