import HotIndex.Lib.SortedMap
import HotIndex.Storage.BuilderVolume

/-!
# The RocksDB Engine

`rocksdb_engine.rs` over a database that is one bytewise sorted map for each column
family. A write either replaces the value of its key or fails with the error that the
database reports for the family; an operation that fails midway keeps the writes it
made before. Reads do not fail.

`stats` is not modelled: it reports RocksDB's own estimates.
-/

namespace HotIndex

open Lib

/-- The database behind `RocksDbEngine`. -/
@[ext]
structure RocksDb where
  /-- The rows of each column family -/
  cf : ColumnFamily → SortedMap Bytes Bytes
  /-- The error of `put_cf` on a family, if its writes fail -/
  putError : ColumnFamily → Option String

/-- A write operation: it changes the database also when it fails. -/
abbrev RocksM := ExceptT Fault (StateM RocksDb)

namespace RocksDb

/-- A freshly opened database on which every write succeeds. -/
def empty : RocksDb where
  cf := fun _ => .empty
  putError := fun _ => none

/-- Run an operation on a database. -/
def exec {α : Type} (m : RocksM α) (db : RocksDb) : Except Fault α × RocksDb := m.run.run db

/-- `rocks_error` -/
def rocksError (message : String) : Fault := .error (.storage message)

/-! ## Writes -/

/-- `DB::put_cf` -/
def putCf (family : ColumnFamily) (key value : Bytes) : RocksM Unit := do
  let db ← get
  match db.putError family with
  -- a refused write leaves the database as it is
  | some message => throw (rocksError message)
  | none => set { db with cf := Function.update db.cf family ((db.cf family).insert key value) }

/-- `put_json`. The key is an argument: a key that panics does so before anything is
written. -/
def putJson {α : Type} (codec : Codec α) (family : ColumnFamily) (key : Except Fault Bytes)
    (value : α) : RocksM Unit := do
  let key ← liftExcept key
  putCf family key (codec.toVec value)
where
  liftExcept (key : Except Fault Bytes) : RocksM Bytes :=
    match key with
    | .ok key => pure key
    | .error fault => throw fault

section Writes

variable (json : SerdeJson)

def putTx (tx : TxRow) : RocksM Unit :=
  putJson json.tx .txByVersion (.ok (Key.txByVersion tx.version)) tx

def putEvent (event : NormalizedEvent) : RocksM Unit :=
  putJson json.event .rawEventByVersionIdx
    (.ok (Key.rawEventByVersionIdx event.version event.eventIdx)) event

def putActivity (row : ActivityRow) : RocksM Unit :=
  putJson json.activity .marketRecentActivity
    (Key.marketActivity row.marketId row.timestampUs row.activityType row.version row.eventIdx)
    row

/-- `put_fill`: both fill indexes, then the derived activity row. -/
def putFill (fill : FillRow) : RocksM Unit := do
  putJson json.fill .fillsByMarketTime
    (Key.fillsByMarketTime fill.marketId fill.timestampUs fill.version fill.fillId) fill
  putJson json.fill .fillsByAccountTime
    (Key.fillsByAccountTime fill.account fill.timestampUs fill.marketId fill.fillId) fill
  putActivity json fill.activity

def putOrder (order : OrderRow) : RocksM Unit :=
  putJson json.order .orderById (Key.orderById order.orderId) order

def putPosition (position : PositionRow) : RocksM Unit :=
  putJson json.position .positionsByAccountMarket
    (Key.positionsByAccountMarket position.account position.marketId position.subaccount)
    position

def putBuilderAttribution (row : BuilderAttributionRow) : RocksM Unit :=
  putJson json.builder .builderCodeFills
    (Key.builderCodeFills row.builderAddr row.timestampUs row.marketId row.fillId) row

def putIngestCheckpoint (checkpoint : IngestCheckpoint) : RocksM Unit :=
  putJson json.checkpoint .ingestCheckpoint
    (Key.ingestCheckpoint checkpoint.network checkpoint.packageAddress) checkpoint

/-- One operation of the trait. -/
def put : PutOp → RocksM Unit
  | .putTx tx => putTx json tx
  | .putEvent event => putEvent json event
  | .putFill fill => putFill json fill
  | .putOrder order => putOrder json order
  | .putPosition position => putPosition json position
  | .putBuilderAttribution row => putBuilderAttribution json row
  | .putActivity row => putActivity json row
  | .putIngestCheckpoint checkpoint => putIngestCheckpoint json checkpoint

/-- A sequence of operations, up to the first that fails. -/
def run (ops : List PutOp) : RocksM Unit := ops.forM (put json)

end Writes

/-! ## Queries -/

section Queries

variable {α : Type} (json : SerdeJson) (db : RocksDb)

def getJson (codec : Codec α) (family : ColumnFamily) (key : Except Fault Bytes) :
    Except Fault (Option α) := do
  let key ← key
  match (db.cf family).get? key with
  | none => return none
  | some bytes => return some (← codec.decode bytes)

/-- The loop of `scan_prefix` over the rows its iterator yields. The limit is tested after
a row was taken. -/
def scanLoop (codec : Codec α) (keyPrefix : Bytes) (limit : Limit) (rows : List α) :
    List (Bytes × Bytes) → Except Fault (List α)
  | [] => .ok rows
  | (key, value) :: rest =>
    if keyPrefix <+: key then do
      -- a value that does not decode fails the whole scan
      let rows := rows ++ [← codec.decode value]
      if limit.reached rows.length then return rows else scanLoop codec keyPrefix limit rows rest
    else .ok rows

def scanPrefix (codec : Codec α) (family : ColumnFamily) (keyPrefix : Except Fault Bytes)
    (limit : Limit) : Except Fault (List α) := do
  let keyPrefix ← keyPrefix
  scanLoop codec keyPrefix limit [] ((db.cf family).rangeFrom keyPrefix)

def getTx (version : UInt64) : Except Fault (Option TxRow) :=
  getJson db json.tx .txByVersion (.ok (Key.txByVersion version))

/-- `multi_get_txs`: the values of all keys first, then their decoding in order. -/
def multiGetTxs (versions : List UInt64) : Except Fault (List (Option TxRow)) :=
  let results := (versions.map Key.txByVersion).map (db.cf .txByVersion).get?
  results.mapM (fun result =>
    match result with
    | none => .ok none
    | some value => do return some (← json.tx.decode value))

def getOrder (orderId : String) : Except Fault (Option OrderRow) :=
  getJson db json.order .orderById (Key.orderById orderId)

def getPositionsByAccount (account : String) : Except Fault (List PositionRow) :=
  scanPrefix db json.position .positionsByAccountMarket (Key.positionsByAccountPrefix account)
    .max

def scanMarketFills (marketId : String) (limit : Limit) : Except Fault (List FillRow) :=
  scanPrefix db json.fill .fillsByMarketTime (Key.fillsByMarketPrefix marketId) limit

def scanAccountFills (account : String) (limit : Limit) : Except Fault (List FillRow) :=
  scanPrefix db json.fill .fillsByAccountTime (Key.fillsByAccountPrefix account) limit

def scanBuilderCodeFills (builderAddr : String) (limit : Limit) :
    Except Fault (List BuilderAttributionRow) :=
  scanPrefix db json.builder .builderCodeFills (Key.builderCodeFillsPrefix builderAddr) limit

def latestCheckpointTimestampUs : Except Fault UInt64 :=
  (db.cf .ingestCheckpoint).entries.foldlM (fun maxTs item => do
    let checkpoint ← json.checkpoint.decode item.2
    return max maxTs checkpoint.lastProcessedTimestampUs) 0

def getBuilderCodeVolume (builderAddr : String) (window : TimeWindow) :
    Except Fault (Option BuilderVolumeRow) := do
  let rows ← scanBuilderCodeFills json db builderAddr .max
  if rows.isEmpty then return none
  let checkpointTs ← latestCheckpointTimestampUs json db
  return some (← builderVolumeRow builderAddr window rows checkpointTs)

def scanMarketActivity (marketId : String) (limit : Limit) : Except Fault (List ActivityRow) :=
  scanPrefix db json.activity .marketRecentActivity (Key.marketActivityPrefix marketId) limit

end Queries

/-! ### What a scan returns -/

/-- How much a scan still takes when it holds `len` rows: at least one row, as the limit is
tested after a row was taken. -/
def scanRoom (limit : Limit) (len : Nat) : Limit :=
  match limit with
  | .rows count => .rows (max (count - len) 1)
  | .max => .max

private theorem scanRoom_truncate_nil {β : Type} (limit : Limit) (len : Nat) :
    (scanRoom limit len).truncate ([] : List β) = [] := by
  cases limit <;> simp [scanRoom, Limit.truncate]

/-- The next row is taken; whether the scan goes on is decided after it. -/
private theorem scanRoom_truncate_cons {β : Type} (limit : Limit) (len : Nat) (b : β)
    (l : List β) :
    (scanRoom limit len).truncate (b :: l) =
      b :: (if limit.reached (len + 1) then [] else (scanRoom limit (len + 1)).truncate l) := by
  cases limit with
  | max => rfl
  | rows count =>
    simp only [scanRoom, Limit.truncate, Limit.reached, decide_eq_true_eq]
    -- the limit is tested behind a row, so the first row always has room
    split_ifs with h
    · have hone : max (count - len) 1 = 1 := by omega
      rw [hone, List.take_succ_cons, List.take_zero]
    · have hmore : max (count - len) 1 = max (count - (len + 1)) 1 + 1 := by omega
      rw [hmore, List.take_succ_cons]

/-- A scan decodes the rows under its prefix, in key order, as far as its limit allows. -/
theorem scanLoop_eq {α : Type} (codec : Codec α) (keyPrefix : Bytes) (limit : Limit)
    (rows : List α) (l : List (Bytes × Bytes)) :
    scanLoop codec keyPrefix limit rows l =
      (rows ++ ·) <$> ((scanRoom limit rows.length).truncate
        (l.takeWhile (fun p => decide (keyPrefix <+: p.1)))).mapM
          (fun p => codec.decode p.2) := by
  have hstop : ∀ rows : List α, (.ok rows : Except Fault (List α)) =
      (rows ++ ·) <$> ([] : List (Bytes × Bytes)).mapM (fun p => codec.decode p.2) := by
    intro rows
    show _ = Except.ok (rows ++ [])
    rw [List.append_nil]
  -- pushing a decoded row and then collecting the rest is collecting behind that row
  have hpush : ∀ (rows : List α) (row : α) (rest : Except Fault (List α)),
      (rows ++ ·) <$> (rest >>= fun rows => pure (row :: rows)) =
        (rows ++ [row] ++ ·) <$> rest := by
    intro rows row rest
    cases rest with
    | error fault => rfl
    | ok rest =>
      show Except.ok (rows ++ row :: rest) = Except.ok (rows ++ [row] ++ rest)
      rw [List.append_assoc, List.singleton_append]
  induction l generalizing rows with
  | nil => rw [scanLoop, List.takeWhile_nil, scanRoom_truncate_nil, hstop]
  | cons p l ih =>
    obtain ⟨key, value⟩ := p
    rw [scanLoop]
    split_ifs with hp
    · rw [List.takeWhile_cons_of_pos (by simpa using hp), scanRoom_truncate_cons, List.mapM_cons]
      cases codec.decode value with
      | error fault => rfl
      | ok row =>
        have hlen : rows.length + 1 = (rows ++ [row]).length := by simp
        refine Eq.trans ?_ (hpush rows row _).symm
        rw [hlen]
        show (if limit.reached (rows ++ [row]).length then Except.ok (rows ++ [row])
          else scanLoop codec keyPrefix limit (rows ++ [row]) l) = _
        split_ifs
        · exact hstop _
        · exact ih _
    · rw [List.takeWhile_cons_of_neg (by simpa using hp), scanRoom_truncate_nil, hstop]

theorem scanPrefix_ok {α : Type} {db : RocksDb} {codec : Codec α} {family : ColumnFamily}
    {keyPrefix : Bytes} {limit : Limit} :
    scanPrefix db codec family (.ok keyPrefix) limit =
      ((scanRoom limit 0).truncate ((db.cf family).entries.filter
        (fun p => decide (keyPrefix <+: p.1)))).mapM (fun p => codec.decode p.2) := by
  show scanLoop codec keyPrefix limit [] ((db.cf family).rangeFrom keyPrefix) = _
  rw [scanLoop_eq, SortedMap.takeWhile_rangeFrom_prefix]
  simp

/-! ## Checksums -/

/-- `checksum_cf`: hash a family in key order, counting its rows. -/
def checksumCf (sha256 : Bytes → Bytes) (db : RocksDb) (family : ColumnFamily) : CfChecksum :=
  let hashed : Bytes × UInt64 := (db.cf family).entries.foldl
    (fun hashed item => (updateChecksum hashed.1 item.1 item.2, hashed.2 + 1)) ([], 0)
  { cfName := family.cfName
    rowCount := hashed.2
    hashHex := hexLower (sha256 hashed.1) }

def checksums (sha256 : Bytes → Bytes) (db : RocksDb) : List CfChecksum :=
  logicalCfs.map (checksumCf sha256 db)

/-! ## What a run stores -/

/-- A key that was built. -/
def built : Except Fault Bytes → Bytes
  | .ok key => key
  | .error _ => []

/-- The rows that an operation with admissible key texts stores, in the order of its writes. -/
def writes (json : SerdeJson) : PutOp → List (ColumnFamily × Bytes × Bytes)
  | .putTx tx => [(.txByVersion, Key.txByVersion tx.version, json.tx.toVec tx)]
  | .putEvent event => [(.rawEventByVersionIdx,
      Key.rawEventByVersionIdx event.version event.eventIdx, json.event.toVec event)]
  | .putFill fill => [
      (.fillsByMarketTime, built (Key.fillsByMarketTime fill.marketId fill.timestampUs
        fill.version fill.fillId), json.fill.toVec fill),
      (.fillsByAccountTime, built (Key.fillsByAccountTime fill.account fill.timestampUs
        fill.marketId fill.fillId), json.fill.toVec fill),
      (.marketRecentActivity, built (Key.marketActivity fill.marketId fill.timestampUs "fill"
        fill.version fill.eventIdx), json.activity.toVec fill.activity)]
  | .putOrder order => [(.orderById, built (Key.orderById order.orderId),
      json.order.toVec order)]
  | .putPosition position => [(.positionsByAccountMarket,
      built (Key.positionsByAccountMarket position.account position.marketId
        position.subaccount), json.position.toVec position)]
  | .putBuilderAttribution row => [(.builderCodeFills,
      built (Key.builderCodeFills row.builderAddr row.timestampUs row.marketId row.fillId),
      json.builder.toVec row)]
  | .putActivity row => [(.marketRecentActivity,
      built (Key.marketActivity row.marketId row.timestampUs row.activityType row.version
        row.eventIdx), json.activity.toVec row)]
  | .putIngestCheckpoint checkpoint => [(.ingestCheckpoint,
      built (Key.ingestCheckpoint checkpoint.network checkpoint.packageAddress),
      json.checkpoint.toVec checkpoint)]

/-- The writes of a sequence of operations to one family, oldest first. -/
def familyWrites (json : SerdeJson) (family : ColumnFamily) (ops : List PutOp) :
    List (Bytes × Bytes) :=
  ops.flatMap (fun op => (writes json op).filterMap
    (fun write => if write.1 = family then some write.2 else none))

/-- Replace the value of one key. -/
def store (db : RocksDb) (write : ColumnFamily × Bytes × Bytes) : RocksDb :=
  { db with
    cf := Function.update db.cf write.1 ((db.cf write.1).insert write.2.1 write.2.2) }

@[simp] theorem putError_store (db : RocksDb) (write : ColumnFamily × Bytes × Bytes) :
    (db.store write).putError = db.putError := rfl

theorem cf_store (db : RocksDb) (write : ColumnFamily × Bytes × Bytes) (family : ColumnFamily) :
    (db.store write).cf family =
      if write.1 = family then (db.cf family).insert write.2.1 write.2.2 else db.cf family := by
  by_cases h : write.1 = family
  · subst h
    simp [store]
  · simp [store, h, Function.update_of_ne (Ne.symm h)]

/-- Execution goes on from where the first operation ended. -/
theorem exec_bind_of_ok {α β : Type} {m : RocksM α} {f : α → RocksM β} {db db' : RocksDb}
    {a : α} (h : exec m db = (.ok a, db')) : exec (m >>= f) db = exec (f a) db' := by
  unfold exec at *
  rw [ExceptT.run_bind, StateT.run_bind, h]
  rfl

/-- A write succeeds or fails as the database says; a failed write changes nothing. -/
theorem exec_putCf (db : RocksDb) (family : ColumnFamily) (key value : Bytes) :
    exec (putCf family key value) db =
      match db.putError family with
      | some message => (.error (rocksError message), db)
      | none => (.ok (), db.store (family, key, value)) := by
  have hget : exec (get : RocksM RocksDb) db = (.ok db, db) := rfl
  unfold putCf
  rw [exec_bind_of_ok hget]
  cases db.putError family <;> rfl

theorem exec_putJson {α : Type} {codec : Codec α} {family : ColumnFamily}
    {key : Except Fault Bytes} {value : α} {db : RocksDb} (hkey : key = .ok (built key))
    (hdb : db.putError = fun _ => none) :
    exec (putJson codec family key value) db =
      (.ok (), db.store (family, built key, codec.toVec value)) := by
  have hput := exec_putCf db family (built key) (codec.toVec value)
  rw [hdb] at hput
  rw [hkey]
  exact hput

/-! ### Admissible texts build keys -/

theorem built_of_ok {key : Except Fault Bytes} {k : Bytes} (h : key = .ok k) :
    built key = k := by
  rw [h, built]

theorem ok_built {key : Except Fault Bytes} {k : Bytes} (h : key = .ok k) :
    key = .ok (built key) := by
  rw [built_of_ok h, h]

theorem fill_keys_ok {fill : FillRow} (h : (PutOp.putFill fill).TextOk) :
    (∃ k, Key.fillsByMarketTime fill.marketId fill.timestampUs fill.version fill.fillId = .ok k) ∧
      (∃ k, Key.fillsByAccountTime fill.account fill.timestampUs fill.marketId fill.fillId =
        .ok k) := by
  have hm : Key.TextOk fill.marketId := h _ (by simp [PutOp.keyTexts])
  have ha : Key.TextOk fill.account := h _ (by simp [PutOp.keyTexts])
  have hf : Key.TextOk fill.fillId := h _ (by simp [PutOp.keyTexts])
  exact ⟨⟨_, (Key.fillsByMarketTime_eq_ok_iff ..).2 ⟨⟨hm, hf⟩, rfl⟩⟩,
    ⟨_, (Key.fillsByAccountTime_eq_ok_iff ..).2 ⟨⟨ha, hm, hf⟩, rfl⟩⟩⟩

theorem order_key_ok {order : OrderRow} (h : (PutOp.putOrder order).TextOk) :
    ∃ k, Key.orderById order.orderId = .ok k :=
  ⟨_, (Key.orderById_eq_ok_iff ..).2 ⟨h _ (by simp [PutOp.keyTexts]), rfl⟩⟩

theorem position_key_ok {position : PositionRow} (h : (PutOp.putPosition position).TextOk) :
    ∃ k, Key.positionsByAccountMarket position.account position.marketId position.subaccount =
      .ok k :=
  ⟨_, (Key.positionsByAccountMarket_eq_ok_iff ..).2
    ⟨⟨h _ (by simp [PutOp.keyTexts]), h _ (by simp [PutOp.keyTexts]),
      fun v hv => h v (by simp [PutOp.keyTexts, Option.mem_def.1 hv])⟩, rfl⟩⟩

theorem builder_key_ok {row : BuilderAttributionRow}
    (h : (PutOp.putBuilderAttribution row).TextOk) :
    ∃ k, Key.builderCodeFills row.builderAddr row.timestampUs row.marketId row.fillId = .ok k :=
  ⟨_, (Key.builderCodeFills_eq_ok_iff ..).2
    ⟨⟨h _ (by simp [PutOp.keyTexts]), h _ (by simp [PutOp.keyTexts]),
      h _ (by simp [PutOp.keyTexts])⟩, rfl⟩⟩

/-- The text `fill` that derived activity rows carry is admissible. -/
theorem activity_key_ok {op : PutOp} (h : op.TextOk) {row : ActivityRow}
    (hrow : op.activity? = some row) :
    ∃ k, Key.marketActivity row.marketId row.timestampUs row.activityType row.version
      row.eventIdx = .ok k := by
  have htexts : Key.TextOk row.marketId ∧ Key.TextOk row.activityType := by
    -- a fill puts an activity of its own, with a fixed type
    cases op with
    | putFill fill =>
      cases hrow
      exact ⟨h _ (by simp [PutOp.keyTexts, FillRow.activity]), (by decide : Key.TextOk "fill")⟩
    | putActivity row =>
      cases hrow
      exact ⟨h _ (by simp [PutOp.keyTexts]), h _ (by simp [PutOp.keyTexts])⟩
    | _ => cases hrow
  exact ⟨_, (Key.marketActivity_eq_ok_iff ..).2 ⟨htexts, rfl⟩⟩

theorem checkpoint_key_ok {checkpoint : IngestCheckpoint}
    (h : (PutOp.putIngestCheckpoint checkpoint).TextOk) :
    ∃ k, Key.ingestCheckpoint checkpoint.network checkpoint.packageAddress = .ok k :=
  ⟨_, (Key.ingestCheckpoint_eq_ok_iff ..).2 ⟨h _ (by simp [PutOp.keyTexts]), rfl⟩⟩

/-! ### One operation, and a run -/

/-- An admissible operation succeeds and stores its rows. -/
theorem exec_put (json : SerdeJson) {op : PutOp} (hop : op.TextOk) {db : RocksDb}
    (hdb : db.putError = fun _ => none) :
    exec (put json op) db = (.ok (), (writes json op).foldl store db) := by
  cases op with
  | putTx tx => exact exec_putJson rfl hdb
  | putEvent event => exact exec_putJson rfl hdb
  | putFill fill =>
    obtain ⟨⟨_, hmarket⟩, ⟨_, haccount⟩⟩ := fill_keys_ok hop
    obtain ⟨_, hactivity⟩ := activity_key_ok hop rfl
    -- the first two writes leave the error table of the database as it was
    have hdb₁ : ∀ w, (db.store w).putError = fun _ => none := fun _ => hdb
    have hdb₂ : ∀ w w', ((db.store w).store w').putError = fun _ => none := fun _ _ => hdb
    show exec (putFill json fill) db = _
    unfold putFill
    rw [exec_bind_of_ok (exec_putJson (ok_built hmarket) hdb),
      exec_bind_of_ok (exec_putJson (ok_built haccount) (hdb₁ _))]
    exact exec_putJson (ok_built hactivity) (hdb₂ _ _)
  | putOrder order =>
    obtain ⟨_, hkey⟩ := order_key_ok hop
    exact exec_putJson (ok_built hkey) hdb
  | putPosition position =>
    obtain ⟨_, hkey⟩ := position_key_ok hop
    exact exec_putJson (ok_built hkey) hdb
  | putBuilderAttribution row =>
    obtain ⟨_, hkey⟩ := builder_key_ok hop
    exact exec_putJson (ok_built hkey) hdb
  | putActivity row =>
    obtain ⟨_, hkey⟩ := activity_key_ok hop rfl
    exact exec_putJson (ok_built hkey) hdb
  | putIngestCheckpoint checkpoint =>
    obtain ⟨_, hkey⟩ := checkpoint_key_ok hop
    exact exec_putJson (ok_built hkey) hdb

theorem putError_foldl_store (l : List (ColumnFamily × Bytes × Bytes)) (db : RocksDb) :
    (l.foldl store db).putError = db.putError := by
  induction l generalizing db with
  | nil => rfl
  | cons write l ih => rw [List.foldl_cons, ih, putError_store]

/-- A run of admissible operations succeeds and makes the writes of its operations. -/
theorem exec_run (json : SerdeJson) {ops : List PutOp} (hops : ∀ op ∈ ops, op.TextOk)
    {db : RocksDb} (hdb : db.putError = fun _ => none) :
    exec (run json ops) db = (.ok (), (ops.flatMap (writes json)).foldl store db) := by
  induction ops generalizing db with
  | nil => rfl
  | cons op ops ih =>
    have hop : op.TextOk := hops op List.mem_cons_self
    have hrest : ∀ op ∈ ops, op.TextOk := fun op hmem => hops op (List.mem_cons_of_mem _ hmem)
    -- storing leaves the errors of the families as they are
    have hdb' : ((writes json op).foldl store db).putError = fun _ => none := by
      rw [putError_foldl_store, hdb]
    show exec (put json op >>= fun _ => run json ops) db = _
    rw [exec_bind_of_ok (exec_put json hop hdb), ih hrest hdb', List.flatMap_cons,
      List.foldl_append]

/-! ### The contents of a family -/

theorem cf_foldl_store (l : List (ColumnFamily × Bytes × Bytes)) (db : RocksDb)
    (family : ColumnFamily) :
    (l.foldl store db).cf family =
      (l.filterMap (fun write => if write.1 = family then some write.2 else none)).foldl
        (fun m p => m.insert p.1 p.2) (db.cf family) := by
  induction l generalizing db with
  | nil => rfl
  | cons write l ih =>
    rw [List.foldl_cons, ih, cf_store]
    by_cases h : write.1 = family <;> simp [h]

/-- The database after a run from empty. -/
def afterRun (json : SerdeJson) (ops : List PutOp) : RocksDb :=
  (ops.flatMap (writes json)).foldl store empty

theorem exec_run_empty (json : SerdeJson) {ops : List PutOp} (hops : ∀ op ∈ ops, op.TextOk) :
    exec (run json ops) empty = (.ok (), afterRun json ops) :=
  exec_run json hops rfl

/-- After a run from empty, a family holds the last writes of the run to it. -/
theorem cf_afterRun (json : SerdeJson) (ops : List PutOp) (family : ColumnFamily) :
    (afterRun json ops).cf family = SortedMap.ofList (familyWrites json family ops) := by
  unfold afterRun familyWrites
  rw [cf_foldl_store, List.filterMap_flatMap]
  rfl

end RocksDb

end HotIndex
