import HotIndex.Storage.Refinement

/-!
# The Two Fill Indexes of RocksDB

`put_fill` files a fill by market and by account, under keys that identify it
differently: the market key carries the version and no account, the account key carries
the account and no version. An index keeps the last fill put under each of its own
identities, so the two hold the same rows exactly when every fill is last under both of
its identities or under neither (`fillIndexes_agree_iff`).
-/

namespace HotIndex

open Lib

/-! ## What an index keeps -/

/-- `row` is what was put last among the rows with its identity. -/
def LastPut {α κ : Type} [DecidableEq α] [DecidableEq κ] (identity : α → κ) (rows : List α)
    (row : α) : Prop :=
  rows.reverse.find? (fun other => identity other = identity row) = some row

instance {α κ : Type} [DecidableEq α] [DecidableEq κ] (identity : α → κ) (rows : List α)
    (row : α) : Decidable (LastPut identity rows row) :=
  inferInstanceAs (Decidable (_ = _))

theorem LastPut.mem {α κ : Type} [DecidableEq α] [DecidableEq κ] {identity : α → κ}
    {rows : List α} {row : α} (h : LastPut identity rows row) : row ∈ rows :=
  List.mem_reverse.1 (List.mem_of_find?_eq_some h)

/-- After `row` was put for the last time, another row with its identity was put. -/
def Superseded {α κ : Type} (identity : α → κ) (rows : List α) (row : α) : Prop :=
  ∃ before after, rows = before ++ row :: after ∧ row ∉ after ∧
    ∃ other ∈ after, identity other = identity row

theorem lastPut_iff_not_superseded {α κ : Type} [DecidableEq α] [DecidableEq κ]
    {identity : α → κ} {rows : List α} {row : α} (hrow : row ∈ rows) :
    LastPut identity rows row ↔ ¬ Superseded identity rows row := by
  -- split the sequence at the last put of the row
  obtain ⟨later, earlier, hrev, hnot⟩ := List.eq_append_cons_of_mem (List.mem_reverse.2 hrow)
  have hrows : rows = earlier.reverse ++ row :: later.reverse := by
    rw [← List.reverse_reverse rows, hrev]
    simp
  have hsplit : Superseded identity rows row ↔
      ∃ other ∈ later, identity other = identity row := by
    constructor
    · rintro ⟨before, after, hsplit, hafter, other, hother, hid⟩
      -- there is only one last put of the row, so both splits are the same
      have heq : row :: before.reverse = row :: earlier ∧ after.reverse = later := by
        have hrev' : after.reverse ++ row :: before.reverse = later ++ row :: earlier := by
          rw [← hrev, hsplit]
          simp
        obtain ⟨h₁, h₂⟩ := Lib.append_sep_inj (by simpa using hafter) hnot hrev'
        exact ⟨by rw [h₂], h₁⟩
      exact ⟨other, heq.2 ▸ List.mem_reverse.2 hother, hid⟩
    · rintro ⟨other, hother, hid⟩
      exact ⟨_, _, hrows, by simpa using hnot, other, List.mem_reverse.2 hother, hid⟩
  rw [hsplit, LastPut, hrev, List.find?_append]
  cases hfind : later.find? (fun other => identity other = identity row) with
  | none =>
    have hnone : ¬ ∃ other ∈ later, identity other = identity row := by
      simpa using hfind
    simp [hnone]
  | some other =>
    have hmem : other ∈ later := List.mem_of_find?_eq_some hfind
    have hid : identity other = identity row := by simpa using List.find?_some hfind
    have hne : other ≠ row := fun he => hnot (he ▸ hmem)
    have hsome : ∃ other ∈ later, identity other = identity row := ⟨other, hmem, hid⟩
    simp [hne, hsome]

/-- The rows that the values of a column family decode to. -/
def RocksDb.storedRows {α : Type} (db : RocksDb) (codec : Codec α) (family : ColumnFamily) :
    Set α :=
  {row | ∃ p ∈ (db.cf family).entries, codec.decode p.2 = .ok row}

/-- An index whose keys express an identity stores the rows put last under it. -/
theorem RocksDb.mem_storedRows_iff {α κ : Type} [DecidableEq α] [DecidableEq κ] {db : RocksDb}
    {codec : Codec α} {family : ColumnFamily} {rows : List α} {keyOf : α → Bytes}
    {identity : α → κ}
    (hcf : db.cf family =
      SortedMap.ofList (rows.map (fun row => (keyOf row, codec.toVec row))))
    (hkey : ∀ a ∈ rows, ∀ b ∈ rows, keyOf a = keyOf b ↔ identity a = identity b)
    (hjson : ∀ row ∈ rows, codec.RoundTrips row) (row : α) :
    row ∈ db.storedRows codec family ↔ LastPut identity rows row := by
  -- an entry is the last row filed under its key
  have hentry : ∀ p, p ∈ (db.cf family).entries ↔
      (rows.reverse.find? (fun other => keyOf other = p.1)).map codec.toVec = some p.2 := by
    intro p
    rw [hcf, SortedMap.mem_ofList, SortedMap.lastWrite, ← List.map_reverse, List.find?_map,
      Option.map_map]
    -- the two sides differ in the instance that decides equality of keys
    simp only [Function.comp_def]
    congr!
  -- the last row under a key is the last row of an identity
  have hfind : ∀ a ∈ rows, rows.reverse.find? (fun other => keyOf other = keyOf a) =
      rows.reverse.find? (fun other => identity other = identity a) := by
    intro a ha
    refine List.find?_congr (fun b hb => ?_)
    simp only [hkey b (List.mem_reverse.1 hb) a ha]
  constructor
  · rintro ⟨p, hp, hrow⟩
    obtain ⟨other, hfound, hvalue⟩ := Option.map_eq_some_iff.1 ((hentry p).1 hp)
    have hmem : other ∈ rows := List.mem_reverse.1 (List.mem_of_find?_eq_some hfound)
    have hkeyOf : keyOf other = p.1 := by simpa using List.find?_some hfound
    rw [← hvalue, Codec.decode_toVec (hjson other hmem)] at hrow
    rw [← hkeyOf, hfind other hmem] at hfound
    cases hrow
    exact hfound
  · intro hlast
    have hmem := hlast.mem
    refine ⟨(keyOf row, codec.toVec row), (hentry _).2 ?_, Codec.decode_toVec (hjson row hmem)⟩
    rw [hfind row hmem, hlast]
    rfl

/-! ## Visibility through scans -/

/-- An unlimited scan returns the rows stored under its prefix. -/
theorem RocksDb.mem_scanPrefix {α : Type} {db : RocksDb} {codec : Codec α}
    {family : ColumnFamily} (keyPrefix : Bytes)
    (hdecode : ∀ p ∈ (db.cf family).entries, ∃ row, codec.decode p.2 = .ok row) :
    ∃ rows, RocksDb.scanPrefix db codec family (.ok keyPrefix) .max = .ok rows ∧
      ∀ row, row ∈ rows ↔
        ∃ p ∈ (db.cf family).entries, keyPrefix <+: p.1 ∧ codec.decode p.2 = .ok row := by
  rw [RocksDb.scanPrefix_ok]
  show ∃ rows, ((db.cf family).entries.filter _).mapM _ = Except.ok rows ∧ _
  -- by induction on the entries; the scan decodes those under the prefix
  generalize (db.cf family).entries = l at hdecode
  induction l with
  | nil => exact ⟨[], rfl, by simp⟩
  | cons p l ih =>
    obtain ⟨rows, hrows, hmem⟩ := ih (fun q hq => hdecode q (List.mem_cons_of_mem _ hq))
    obtain ⟨row, hrow⟩ := hdecode p List.mem_cons_self
    by_cases hp : keyPrefix <+: p.1
    · refine ⟨row :: rows, ?_, fun other => ?_⟩
      · rw [List.filter_cons_of_pos (by simpa using hp), List.mapM_cons, hrow, hrows]
        rfl
      · simp [hmem, hp, hrow, eq_comm]
    · refine ⟨rows, ?_, fun other => ?_⟩
      · rw [List.filter_cons_of_neg (by simpa using hp), hrows]
      · simp [hmem, hp]

/-- The rows that the scans of a family return, under one prefix or another. -/
def RocksDb.visibleRows {α : Type} (db : RocksDb) (codec : Codec α) (family : ColumnFamily)
    (prefixKey : String → Except Fault Bytes) : Set α :=
  {row | ∃ text rows, RocksDb.scanPrefix db codec family (prefixKey text) .max = .ok rows ∧
    row ∈ rows}

/-- Where every key has the prefix of some text, the scans together return what is stored. -/
theorem RocksDb.visibleRows_eq {α : Type} {db : RocksDb} {codec : Codec α}
    {family : ColumnFamily} {prefixKey : String → Except Fault Bytes}
    (hdecode : ∀ p ∈ (db.cf family).entries, ∃ row, codec.decode p.2 = .ok row)
    (hbegins : ∀ p ∈ (db.cf family).entries, ∃ text k, prefixKey text = .ok k ∧ k <+: p.1) :
    db.visibleRows codec family prefixKey = db.storedRows codec family := by
  ext row
  constructor
  · -- a scan returns stored rows only
    rintro ⟨text, rows, hscan, hrow⟩
    cases hk : prefixKey text with
    | error fault =>
      rw [hk] at hscan
      cases hscan
    | ok k =>
      obtain ⟨rows', hscan', hmem⟩ := RocksDb.mem_scanPrefix k hdecode
      rw [hk, hscan'] at hscan
      cases hscan
      obtain ⟨p, hp, -, hdecoded⟩ := (hmem row).1 hrow
      exact ⟨p, hp, hdecoded⟩
  · -- every stored key begins with the prefix of some text
    rintro ⟨p, hp, hdecoded⟩
    obtain ⟨text, k, hk, hpk⟩ := hbegins p hp
    obtain ⟨rows, hscan, hmem⟩ := RocksDb.mem_scanPrefix k hdecode
    exact ⟨text, rows, by rw [hk, hscan], (hmem row).2 ⟨p, hp, hpk, hdecoded⟩⟩

/-! ## The two identities of a fill -/

/-- What the key in `cf_fills_by_market_time` identifies a fill by. -/
def FillRow.marketIdentity (fill : FillRow) : String × UInt64 × UInt64 × String :=
  (fill.marketId, fill.timestampUs, fill.version, fill.fillId)

/-- What the key in `cf_fills_by_account_time` identifies a fill by. -/
def FillRow.accountIdentity (fill : FillRow) : String × UInt64 × String × String :=
  (fill.account, fill.timestampUs, fill.marketId, fill.fillId)

def FillRow.marketKey (fill : FillRow) : Except Fault Bytes :=
  Key.fillsByMarketTime fill.marketId fill.timestampUs fill.version fill.fillId

def FillRow.accountKey (fill : FillRow) : Except Fault Bytes :=
  Key.fillsByAccountTime fill.account fill.timestampUs fill.marketId fill.fillId

section Fills

open RocksDb (built built_of_ok afterRun cf_afterRun)

variable {json : SerdeJson} {fills : List FillRow}

theorem filterMap_fillEntry_eq (ops : List PutOp) :
    ops.filterMap MemoryEngine.fillEntry =
      (ops.filterMap PutOp.fill?).map (fun fill => ((⟨fill.fillId⟩ : Text), fill)) := by
  rw [List.map_filterMap]
  rfl

theorem RocksDb.afterRun_fillsByMarketTime (json : SerdeJson) (ops : List PutOp) :
    (afterRun json ops).cf .fillsByMarketTime = SortedMap.ofList ((ops.filterMap PutOp.fill?).map
      (fun fill => (built fill.marketKey, json.fill.toVec fill))) := by
  rw [cf_afterRun, RocksDb.familyWrites_fillsByMarketTime, filterMap_fillEntry_eq, List.map_map]
  rfl

theorem RocksDb.afterRun_fillsByAccountTime (json : SerdeJson) (ops : List PutOp) :
    (afterRun json ops).cf .fillsByAccountTime = SortedMap.ofList ((ops.filterMap PutOp.fill?).map
      (fun fill => (built fill.accountKey, json.fill.toVec fill))) := by
  rw [cf_afterRun, RocksDb.familyWrites_fillsByAccountTime, filterMap_fillEntry_eq, List.map_map]
  rfl

/-- The fills of a run that puts nothing else. -/
theorem fills_putFills (fills : List FillRow) :
    (fills.map PutOp.putFill).filterMap PutOp.fill? = fills := by
  rw [List.filterMap_map]
  exact List.filterMap_some

theorem built_marketKey_eq_iff {a b : FillRow} (ha : (PutOp.putFill a).TextOk)
    (hb : (PutOp.putFill b).TextOk) :
    built a.marketKey = built b.marketKey ↔ a.marketIdentity = b.marketIdentity := by
  unfold FillRow.marketKey
  rw [RocksDb.built_eq_iff (RocksDb.fill_keys_ok ha).1 (RocksDb.fill_keys_ok hb).1
    Key.fillsByMarketTime_inj]
  simp [FillRow.marketIdentity]

theorem built_accountKey_eq_iff {a b : FillRow} (ha : (PutOp.putFill a).TextOk)
    (hb : (PutOp.putFill b).TextOk) :
    built a.accountKey = built b.accountKey ↔ a.accountIdentity = b.accountIdentity := by
  unfold FillRow.accountKey
  rw [RocksDb.built_eq_iff (RocksDb.fill_keys_ok ha).2 (RocksDb.fill_keys_ok hb).2
    Key.fillsByAccountTime_inj]
  simp [FillRow.accountIdentity]

/-- Every market key has the prefix that the scan of its market starts from. -/
theorem marketPrefix_of_key {fill : FillRow} (h : (PutOp.putFill fill).TextOk) :
    ∃ p, Key.fillsByMarketPrefix fill.marketId = .ok p ∧ p <+: built fill.marketKey := by
  obtain ⟨k, hk⟩ := (RocksDb.fill_keys_ok h).1
  have hm : Key.TextOk fill.marketId := ((Key.fillsByMarketTime_eq_ok_iff ..).1 hk).1.1
  have hbegins := Key.fillsByMarketPrefix_eq_ok hm
  refine ⟨_, hbegins, ?_⟩
  unfold FillRow.marketKey
  rw [built_of_ok hk]
  exact (Key.fillsByMarketTime_prefix_iff hk hbegins).2 rfl

/-- Every account key has the prefix that the scan of its account starts from. -/
theorem accountPrefix_of_key {fill : FillRow} (h : (PutOp.putFill fill).TextOk) :
    ∃ p, Key.fillsByAccountPrefix fill.account = .ok p ∧ p <+: built fill.accountKey := by
  obtain ⟨k, hk⟩ := (RocksDb.fill_keys_ok h).2
  have ha : Key.TextOk fill.account := ((Key.fillsByAccountTime_eq_ok_iff ..).1 hk).1.1
  have hbegins := Key.fillsByAccountPrefix_eq_ok ha
  refine ⟨_, hbegins, ?_⟩
  unfold FillRow.accountKey
  rw [built_of_ok hk]
  exact (Key.fillsByAccountTime_prefix_iff hk hbegins).2 rfl

/-! ## Consistency -/

/-- A fill index stores the fills put last under its identity, and its scans show them. -/
private theorem index_spec {db : RocksDb} {family : ColumnFamily} {κ : Type} [DecidableEq κ]
    {keyOf : FillRow → Bytes} {identity : FillRow → κ} {textOf : FillRow → String}
    {prefixKey : String → Except Fault Bytes}
    (hcf : db.cf family = SortedMap.ofList (fills.map (fun f => (keyOf f, json.fill.toVec f))))
    (hkey : ∀ a ∈ fills, ∀ b ∈ fills, keyOf a = keyOf b ↔ identity a = identity b)
    (hbegins : ∀ f ∈ fills, ∃ p, prefixKey (textOf f) = .ok p ∧ p <+: keyOf f)
    (hjson : ∀ fill ∈ fills, json.fill.RoundTrips fill) :
    db.storedRows json.fill family = {fill | LastPut identity fills fill} ∧
      db.visibleRows json.fill family prefixKey = {fill | LastPut identity fills fill} := by
  -- nothing is stored in the index but fills
  have hentry : ∀ p ∈ (db.cf family).entries, ∃ f ∈ fills,
      p = (keyOf f, json.fill.toVec f) := by
    intro p hp
    rw [hcf] at hp
    obtain ⟨f, hf, rfl⟩ := List.mem_map.1 (SortedMap.mem_of_mem_ofList hp)
    exact ⟨f, hf, rfl⟩
  have hstored : db.storedRows json.fill family = {fill | LastPut identity fills fill} :=
    Set.ext (RocksDb.mem_storedRows_iff hcf hkey hjson)
  refine ⟨hstored, hstored ▸ RocksDb.visibleRows_eq ?_ ?_⟩
  · intro p hp
    obtain ⟨f, hf, rfl⟩ := hentry p hp
    exact ⟨f, Codec.decode_toVec (hjson f hf)⟩
  · intro p hp
    obtain ⟨f, hf, rfl⟩ := hentry p hp
    obtain ⟨k, hk⟩ := hbegins f hf
    exact ⟨textOf f, k, hk⟩

theorem marketIndex_spec (hText : ∀ fill ∈ fills, (PutOp.putFill fill).TextOk)
    (hjson : ∀ fill ∈ fills, json.fill.RoundTrips fill) :
    (afterRun json (fills.map .putFill)).storedRows json.fill .fillsByMarketTime =
        {fill | LastPut FillRow.marketIdentity fills fill} ∧
      (afterRun json (fills.map .putFill)).visibleRows json.fill .fillsByMarketTime
        Key.fillsByMarketPrefix = {fill | LastPut FillRow.marketIdentity fills fill} :=
  index_spec (by rw [RocksDb.afterRun_fillsByMarketTime, fills_putFills])
    (fun a ha b hb => built_marketKey_eq_iff (hText a ha) (hText b hb))
    (fun f hf => marketPrefix_of_key (hText f hf)) hjson

theorem accountIndex_spec (hText : ∀ fill ∈ fills, (PutOp.putFill fill).TextOk)
    (hjson : ∀ fill ∈ fills, json.fill.RoundTrips fill) :
    (afterRun json (fills.map .putFill)).storedRows json.fill .fillsByAccountTime =
        {fill | LastPut FillRow.accountIdentity fills fill} ∧
      (afterRun json (fills.map .putFill)).visibleRows json.fill .fillsByAccountTime
        Key.fillsByAccountPrefix = {fill | LastPut FillRow.accountIdentity fills fill} :=
  index_spec (by rw [RocksDb.afterRun_fillsByAccountTime, fills_putFills])
    (fun a ha b hb => built_accountKey_eq_iff (hText a ha) (hText b hb))
    (fun f hf => accountPrefix_of_key (hText f hf)) hjson

/-- **Index consistency.** After a run of `put_fill`, the two indexes store the same fills,
and the two scans show the same fills, exactly when every fill is superseded under both of
its identities or under neither. -/
theorem fillIndexes_agree_iff (hText : ∀ fill ∈ fills, (PutOp.putFill fill).TextOk)
    (hjson : ∀ fill ∈ fills, json.fill.RoundTrips fill) :
    ∃ db, RocksDb.exec (RocksDb.run json (fills.map .putFill)) .empty = (.ok (), db) ∧
      ((db.storedRows json.fill .fillsByMarketTime =
            db.storedRows json.fill .fillsByAccountTime ∧
          ∀ fill,
            (∃ marketId rows, db.scanMarketFills json marketId .max = .ok rows ∧ fill ∈ rows) ↔
            (∃ account rows, db.scanAccountFills json account .max = .ok rows ∧ fill ∈ rows)) ↔
        ∀ fill ∈ fills, Superseded FillRow.marketIdentity fills fill ↔
          Superseded FillRow.accountIdentity fills fill) := by
  have hops : ∀ op ∈ fills.map PutOp.putFill, op.TextOk := by
    intro op hop
    obtain ⟨fill, hfill, rfl⟩ := List.mem_map.1 hop
    exact hText fill hfill
  refine ⟨_, RocksDb.exec_run_empty json hops, ?_⟩
  obtain ⟨hmStored, hmVisible⟩ := marketIndex_spec hText hjson
  obtain ⟨haStored, haVisible⟩ := accountIndex_spec hText hjson
  have hvisible : (∀ fill,
      fill ∈ (afterRun json (fills.map .putFill)).visibleRows json.fill .fillsByMarketTime
        Key.fillsByMarketPrefix ↔
      fill ∈ (afterRun json (fills.map .putFill)).visibleRows json.fill .fillsByAccountTime
        Key.fillsByAccountPrefix) ↔
      ({fill | LastPut FillRow.marketIdentity fills fill} : Set FillRow) =
        {fill | LastPut FillRow.accountIdentity fills fill} := by
    rw [hmVisible, haVisible, Set.ext_iff]
  -- stored and visible rows are the same sets, so one comparison is left
  refine (and_congr (by rw [hmStored, haStored]) hvisible).trans ?_
  rw [and_self, Set.ext_iff]
  constructor
  · intro h fill hfill
    have := h fill
    simp only [Set.mem_ofPred_eq, lastPut_iff_not_superseded hfill, not_iff_not] at this
    exact this
  · intro h fill
    by_cases hfill : fill ∈ fills
    · simp only [Set.mem_ofPred_eq, lastPut_iff_not_superseded hfill, h fill hfill]
    -- a fill that was not put is in neither index
    · exact ⟨fun hlast => absurd hlast.mem hfill, fun hlast => absurd hlast.mem hfill⟩

/-- The two sides of one trade: two accounts, one market, transaction and fill id. -/
def tradeSides : List FillRow :=
  let side (account : String) (eventIdx : UInt32) : FillRow :=
    { version := 7, eventIdx := eventIdx, fillId := "t1", marketId := "BTC", account := account,
      subaccount := none, orderId := none, side := none, price := "1", size := "2",
      notional := none, builderAddr := none, builderFeeBps := none, timestampUs := 5,
      rawEventType := "TradeEvent" }
  [side "0xa" 0, side "0xb" 1]

theorem fillIndexes_agree_iff_tradeSides :
    ∃ db, RocksDb.exec (RocksDb.run (.ofOps (tradeSides.map .putFill))
        (tradeSides.map .putFill)) .empty = (.ok (), db) ∧
      ((db.storedRows (Codec.ofRows FillRow.json tradeSides) .fillsByMarketTime =
            db.storedRows (Codec.ofRows FillRow.json tradeSides) .fillsByAccountTime ∧
          ∀ fill,
            (∃ marketId rows, db.scanMarketFills (.ofOps (tradeSides.map .putFill)) marketId
              .max = .ok rows ∧ fill ∈ rows) ↔
            (∃ account rows, db.scanAccountFills (.ofOps (tradeSides.map .putFill)) account
              .max = .ok rows ∧ fill ∈ rows)) ↔
        ∀ fill ∈ tradeSides, Superseded FillRow.marketIdentity tradeSides fill ↔
          Superseded FillRow.accountIdentity tradeSides fill) :=
  @fillIndexes_agree_iff (.ofOps (tradeSides.map .putFill)) tradeSides (by decide +kernel)
    (by decide +kernel)

/-- The second side replaces the first in the market index and stands beside it in the
account index. -/
theorem fillIndexes_disagree_tradeSides :
    (∀ fill ∈ tradeSides, (PutOp.putFill fill).TextOk) ∧
      ∃ db fill, RocksDb.exec (RocksDb.run (.ofOps (tradeSides.map .putFill))
          (tradeSides.map .putFill)) .empty = (.ok (), db) ∧
        fill ∈ tradeSides ∧
        fill ∈ db.storedRows (Codec.ofRows FillRow.json tradeSides) .fillsByAccountTime ∧
        fill ∉ db.storedRows (Codec.ofRows FillRow.json tradeSides) .fillsByMarketTime := by
  have hText : ∀ fill ∈ tradeSides, (PutOp.putFill fill).TextOk := by decide +kernel
  have hops : ∀ op ∈ tradeSides.map PutOp.putFill, op.TextOk := by decide +kernel
  have hjson : ∀ fill ∈ tradeSides,
      (SerdeJson.ofOps (tradeSides.map .putFill)).fill.RoundTrips fill := by decide +kernel
  refine ⟨hText, _, tradeSides.head (by decide), RocksDb.exec_run_empty _ hops, by decide, ?_, ?_⟩
  · -- the two sides have different accounts, so that both account keys stay
    exact (accountIndex_spec hText hjson).1 ▸
      (by decide : LastPut FillRow.accountIdentity tradeSides _)
  · -- but one market key, which the later side overwrites
    intro h
    have h := (marketIndex_spec hText hjson).1 ▸ h
    exact absurd h (by decide : ¬ LastPut FillRow.marketIdentity tradeSides _)

end Fills

end HotIndex
