import HotIndex.Lib.Sha256
import HotIndex.Lib.WriteLog
import HotIndex.Storage.Reads
import HotIndex.Storage.RowJson

/-!
# Replays that Start Over

What a write operation of `RocksDbEngine` does depends on its rows and on the writes that
the database refuses, never on what the database holds: it is a log of writes and an
outcome (`LogsTo`). The log of a prefix of a replay is a prefix of the log of the
replay, and a log absorbs its prefixes. So a replay that was interrupted (or a warm-up)
leaves no trace behind the whole replay (`restartedReplay_converges`).
-/

namespace HotIndex

open Lib

namespace RocksDb

/-- One write of a log: the family, the key and the value. -/
abbrev LogEntry := ColumnFamily × Bytes × Bytes

/-! ## Operations as logs -/

/-- On every database that refuses the writes `putError`, the operation ends with `outcome`
and has made the writes `log`. -/
def LogsTo {α : Type} (putError : ColumnFamily → Option String) (m : RocksM α)
    (outcome : Except Fault α) (log : List LogEntry) : Prop :=
  ∀ db : RocksDb, db.putError = putError → exec m db = (outcome, log.foldl store db)

/-- The operation is a log on the databases that refuse the writes `putError`. -/
def IsLog {α : Type} (putError : ColumnFamily → Option String) (m : RocksM α) : Prop :=
  ∃ outcome log, LogsTo putError m outcome log

/-- An operation that fails ends the operation it is the first part of. -/
theorem exec_bind_of_error {α β : Type} {m : RocksM α} {f : α → RocksM β} {db db' : RocksDb}
    {fault : Fault} (h : exec m db = (.error fault, db')) :
    exec (m >>= f) db = (.error fault, db') := by
  unfold exec at *
  rw [ExceptT.run_bind, StateT.run_bind, h]
  rfl

section Logs

variable {α β : Type} {putError : ColumnFamily → Option String}

theorem LogsTo.pure (a : α) : LogsTo putError (pure a : RocksM α) (.ok a) [] :=
  fun _ _ => rfl

theorem LogsTo.throw (fault : Fault) :
    LogsTo putError (throw fault : RocksM α) (.error fault) [] :=
  fun _ _ => rfl

/-- The log of two parts is that of the first and, if it succeeds, of the second. -/
theorem LogsTo.bind_ok {m : RocksM α} {f : α → RocksM β} {a : α} {log log' : List LogEntry}
    {outcome : Except Fault β} (hm : LogsTo putError m (.ok a) log)
    (hf : LogsTo putError (f a) outcome log') :
    LogsTo putError (m >>= f) outcome (log ++ log') := by
  intro db hdb
  -- the writes of the first part leave it open which writes are refused
  have hdb' : (log.foldl store db).putError = putError := by
    rw [putError_foldl_store, hdb]
  rw [exec_bind_of_ok (hm db hdb), hf _ hdb', List.foldl_append]

theorem LogsTo.bind_error {m : RocksM α} {f : α → RocksM β} {fault : Fault}
    {log : List LogEntry} (hm : LogsTo putError m (.error fault) log) :
    LogsTo putError (m >>= f) (.error fault) log :=
  fun db hdb => exec_bind_of_error (hm db hdb)

/-- The log of a first part is a prefix of the whole log. -/
theorem LogsTo.exists_bind {m : RocksM α} {f : α → RocksM β} {outcome : Except Fault α}
    {log : List LogEntry} (hm : LogsTo putError m outcome log)
    (hf : ∀ a, IsLog putError (f a)) :
    ∃ outcome' log', LogsTo putError (m >>= f) outcome' log' ∧ log <+: log' := by
  cases outcome with
  | error fault => exact ⟨_, _, hm.bind_error, List.prefix_rfl⟩
  | ok a =>
    obtain ⟨outcome', log', hlog'⟩ := hf a
    exact ⟨_, _, hm.bind_ok hlog', List.prefix_append _ _⟩

theorem IsLog.bind {m : RocksM α} {f : α → RocksM β} (hm : IsLog putError m)
    (hf : ∀ a, IsLog putError (f a)) : IsLog putError (m >>= f) := by
  obtain ⟨outcome, log, hlog⟩ := hm
  obtain ⟨outcome', log', hlog', -⟩ := hlog.exists_bind hf
  exact ⟨outcome', log', hlog'⟩

end Logs

/-! ## The operations of the engine -/

section Operations

variable (putError : ColumnFamily → Option String)

theorem isLog_putCf (family : ColumnFamily) (key value : Bytes) :
    IsLog putError (putCf family key value) := by
  cases herror : putError family with
  | some message =>
    refine ⟨.error (rocksError message), [], fun db hdb => ?_⟩
    rw [exec_putCf, hdb, herror]
    rfl
  | none =>
    refine ⟨.ok (), [(family, key, value)], fun db hdb => ?_⟩
    rw [exec_putCf, hdb, herror]
    rfl

/-- A key that panics does so before anything is written. -/
theorem isLog_putJson {α : Type} (codec : Codec α) (family : ColumnFamily)
    (key : Except Fault Bytes) (value : α) : IsLog putError (putJson codec family key value) := by
  cases key with
  | error fault => exact ⟨_, _, LogsTo.bind_error (LogsTo.throw fault)⟩
  | ok key =>
    apply IsLog.bind ⟨_, _, LogsTo.pure key⟩
    intro key
    exact isLog_putCf putError family key (codec.toVec value)

/-- Every operation of the engine is a log, also one that fails or panics midway. -/
theorem isLog_put (json : SerdeJson) (op : PutOp) : IsLog putError (put json op) := by
  cases op with
  | putFill fill =>
    apply IsLog.bind (isLog_putJson ..)
    intro _
    apply IsLog.bind (isLog_putJson ..)
    intro _
    apply isLog_putJson
  | _ => apply isLog_putJson

/-- A sequence of operations is a log: step by step. -/
theorem isLog_run (json : SerdeJson) (ops : List PutOp) : IsLog putError (run json ops) := by
  induction ops with
  | nil => exact ⟨_, _, LogsTo.pure ()⟩
  | cons op ops ih =>
    apply IsLog.bind (isLog_put putError json op)
    intro _
    exact ih

end Operations

/-- A sequence is run piece by piece. -/
theorem run_append (json : SerdeJson) (ops ops' : List PutOp) :
    run json (ops ++ ops') = run json ops >>= fun _ => run json ops' := by
  induction ops with
  | nil => rfl
  | cons op ops ih =>
    show (put json op >>= fun _ => run json (ops ++ ops')) = _
    rw [ih]
    exact (bind_assoc (put json op) (fun _ => run json ops) (fun _ => run json ops')).symm

/-! ## Absorption -/

/-- A log absorbs its prefixes, in every column family. -/
theorem foldl_store_absorb {log log' : List LogEntry} (h : log <+: log') (db : RocksDb) :
    log'.foldl store (log.foldl store db) = log'.foldl store db := by
  apply RocksDb.ext
  · -- the writes to a family are a prefix of the later writes to it, which cover them
    funext family
    rw [cf_foldl_store, cf_foldl_store, cf_foldl_store]
    apply SortedMap.insertAll_absorb_of_isPrefix
    exact h.filterMap _
  · simp only [putError_foldl_store]

/-- Behind an operation whose log is a prefix of its own, an operation does what it does
without it. -/
theorem exec_absorb {α β : Type} {db : RocksDb} {m : RocksM α} {m' : RocksM β}
    {outcome : Except Fault α} {outcome' : Except Fault β} {log log' : List LogEntry}
    (hm : LogsTo db.putError m outcome log) (hm' : LogsTo db.putError m' outcome' log')
    (h : log <+: log') : exec m' (exec m db).2 = exec m' db := by
  rw [hm db rfl, hm' db rfl, hm' _ (putError_foldl_store log db), foldl_store_absorb h]

variable (json : SerdeJson) (sha256 : Bytes → Bytes)

/-- **A restarted replay converges.** On every database, a sequence of operations that is run
again from its start, after any prefix of it was run, ends with the same outcome and the
same database as the sequence run once; so every column family, every query and all
checksums agree. Operations may fail, or panic on a key text. -/
theorem restartedReplay_converges (db : RocksDb) {started ops : List PutOp}
    (h : started <+: ops) :
    ∃ outcome once restarted,
      exec (run json ops) db = (outcome, once) ∧
      exec (run json ops) (exec (run json started) db).2 = (outcome, restarted) ∧
      (∀ family, restarted.cf family = once.cf family) ∧
      restarted.reads json sha256 = once.reads json sha256 := by
  obtain ⟨rest, rfl⟩ := h
  obtain ⟨outcome, log, hstarted⟩ := isLog_run db.putError json started
  -- the log of the whole sequence starts with the log of what was started
  have hlogs : ∃ outcome' log',
      LogsTo db.putError (run json (started ++ rest)) outcome' log' ∧ log <+: log' := by
    rw [run_append]
    exact hstarted.exists_bind (fun _ => isLog_run db.putError json rest)
  obtain ⟨outcome', log', hops, hlog⟩ := hlogs
  refine ⟨outcome', _, _, hops db rfl, ?_, fun _ => rfl, rfl⟩
  rw [exec_absorb hstarted hops hlog, hops db rfl]

/-- Two fills under one market key, and an activity under the key of their activity rows. -/
def collidingOps : List PutOp :=
  let fill (account : String) : FillRow :=
    { version := 7, eventIdx := 0, fillId := "t1", marketId := "BTC", account := account,
      subaccount := none, orderId := none, side := none, price := "1", size := "2",
      notional := none, builderAddr := none, builderFeeBps := none, timestampUs := 5,
      rawEventType := "TradeEvent" }
  [.putFill (fill "0xa"), .putFill (fill "0xb"),
    .putActivity
      { marketId := "BTC", activityType := "fill", version := 7, eventIdx := 0,
        timestampUs := 5, summary := "t1" }]

theorem restartedReplay_converges_collidingOps :
    ∃ outcome once restarted,
      exec (run (.ofOps collidingOps) collidingOps) .empty = (outcome, once) ∧
      exec (run (.ofOps collidingOps) collidingOps)
        (exec (run (.ofOps collidingOps) (collidingOps.take 2)) .empty).2 =
          (outcome, restarted) ∧
      (∀ family, restarted.cf family = once.cf family) ∧
      restarted.reads (.ofOps collidingOps) Sha256.digest =
        once.reads (.ofOps collidingOps) Sha256.digest :=
  restartedReplay_converges (.ofOps collidingOps) Sha256.digest .empty (List.take_prefix 2 _)

end RocksDb

end HotIndex
