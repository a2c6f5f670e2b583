import HotIndex.Dataset.NormalizeRange
import HotIndex.Dataset.Replay
import HotIndex.Ingest.ChainOrder
import HotIndex.Ingest.TakenEvents
import HotIndex.Storage.Refinement
import HotIndex.Storage.RowJson

/-!
# The Latest Observed Rows

`put_order` and `put_position` overwrite blindly, so an engine ends with the row that came
last. The last row is the latest one of the chain because the rows of a normalized dataset
stand in chain order: the decoded versions ascend, the events of a transaction are
numbered, and replay keeps the order of the artifacts (`latest_observed`).
-/

namespace HotIndex

open Lib

/-! ## One transaction -/

section Parse

variable {json : JsonText} {options : ParserOptions}

/-- The events of a transaction from a position on: their rows come behind the others, in
order, at the version of the transaction and not before the position. -/
theorem parseProtobufEventsFrom_ok {tx : Transaction} {events : List ProtoEvent} {idx : Nat}
    {before after : ParserOutput} (hidx : idx + events.length ≤ UInt32.size)
    (h : parseProtobufEventsFrom json options tx idx before events = .ok after) :
    ∃ rows : ParserOutput, after = before ++ rows ∧ rows.ChainOrder ∧
      rows.Within (fun place => (ofLex place).1 = tx.version ∧ idx ≤ (ofLex place).2.toNat) := by
  induction events generalizing idx before with
  | nil =>
    cases h
    exact ⟨{}, (ParserOutput.append_empty _).symm, .empty, .empty _⟩
  | cons event rest ih =>
    rw [List.length_cons] at hidx
    -- below 2^32 events the clamp of the index is never met
    have hidxNat : (Transaction.clampU32 idx).toNat = idx := by
      unfold Transaction.clampU32
      rw [if_pos (by omega)]
      exact UInt32.toNat_ofNat_of_lt' (by omega)
    obtain ⟨data, -, h⟩ := bind_eq_ok_iff.1 h
    obtain ⟨output, hfirst, hrest⟩ := bind_eq_ok_iff.1 h
    obtain ⟨row, rfl, hrow⟩ := parseDecibelEventFromParts_ok hfirst
    -- the induction is on the events: the rest comes at later positions of the same version
    obtain ⟨rows, rfl, hrows, hwithin⟩ := ih (by omega) hrest
    refine ⟨row ++ rows, ParserOutput.append_assoc .., ?_, ?_⟩
    · refine hrow.chainOrder.append hrows hrow.within hwithin ?_
      rintro p q rfl ⟨hversion, hlate⟩
      refine (Prod.Lex.lt_iff).2 (.inr ⟨hversion.symm, ?_⟩)
      rw [UInt32.lt_iff_toNat_lt]
      show (Transaction.clampU32 idx).toNat < _
      omega
    · refine ParserOutput.Within.append (hrow.within.imp ?_) (hwithin.imp ?_)
      · rintro p rfl
        exact ⟨rfl, hidxNat.ge⟩
      · rintro p ⟨hversion, hlate⟩
        exact ⟨hversion, by omega⟩

/-! ## All transactions -/

/-- The collected rows belong to the given transactions and stand in chain order, provided
that the transactions do. -/
def ParserOutput.Chronological (txs : List Transaction) (output : ParserOutput) : Prop :=
  (txs.map Transaction.version).Pairwise (· < ·) →
    output.ChainOrder ∧ output.Within (fun place => ∃ tx ∈ txs, (ofLex place).1 = tx.version)

/-- The step: the rows of a further transaction. -/
theorem ParserOutput.Chronological.concat {txs : List Transaction} {tx : Transaction}
    {before after : ParserOutput} (hbefore : before.Chronological txs)
    (hevents : tx.events.length ≤ UInt32.size)
    (h : parseProtobufDecibelEvents json options tx before = .ok after) :
    after.Chronological (txs ++ [tx]) := by
  intro hascending
  rw [List.map_append, List.pairwise_append] at hascending
  obtain ⟨hchain, hwithin⟩ := hbefore hascending.1
  obtain ⟨rows, rfl, hrows, hversion⟩ := parseProtobufEventsFrom_ok (by omega) h
  refine ⟨hchain.append hrows hwithin hversion ?_, ?_⟩
  -- an earlier transaction has a smaller version, whatever its event index
  · rintro p q ⟨earlier, hearlier, hp⟩ ⟨hq, -⟩
    refine (Prod.Lex.lt_iff).2 (.inl ?_)
    rw [hp, hq]
    exact hascending.2.2 _ (List.mem_map_of_mem hearlier) _ (by simp)
  · refine ParserOutput.Within.append (hwithin.imp ?_) (hversion.imp ?_)
    · rintro p ⟨earlier, hearlier, hp⟩
      exact ⟨earlier, List.mem_append_left _ hearlier, hp⟩
    · rintro p ⟨hp, -⟩
      exact ⟨tx, by simp, hp⟩

theorem decodeTransaction_chronological {chunk : ChunkFile} {st st' : DecodeState × ChunkState}
    {txs : List Transaction} {tx : Transaction} (hst : st.1.parserOutput.Chronological txs)
    (hevents : tx.events.length ≤ UInt32.size)
    (h : decodeTransaction json options chunk st tx = .ok st') :
    st'.1.parserOutput.Chronological (txs ++ [tx]) := by
  obtain ⟨⟨⟩, -, h⟩ := bind_eq_ok_iff.1 h
  obtain ⟨count, -, h⟩ := bind_eq_ok_iff.1 h
  obtain ⟨seen, -, h⟩ := bind_eq_ok_iff.1 h
  obtain ⟨output, houtput, h⟩ := bind_eq_ok_iff.1 h
  cases h
  -- the transaction row that is added is neither an event nor an order nor a position
  intro hascending
  obtain ⟨hchain, hwithin⟩ := hst.concat hevents houtput hascending
  exact ⟨⟨hchain.events, hchain.orders, hchain.positions⟩,
    ⟨hwithin.events, hwithin.orders, hwithin.positions⟩⟩

theorem decodeChunks_chronological {rawInputs : List ChunkFile} {st : DecodeState}
    (hevents : ∀ tx ∈ rawInputs.flatMap ChunkFile.transactions,
      tx.events.length ≤ UInt32.size)
    (h : decodeChunks json options rawInputs = .ok st) :
    st.parserOutput.Chronological (rawInputs.flatMap ChunkFile.transactions) := by
  refine foldlM_induction (P := fun done s => s.parserOutput.Chronological
    (done.flatMap ChunkFile.transactions)) h (fun _ => ⟨.empty, .empty _⟩) ?_
  intro done chunk s s' hchunk hs hstep
  obtain ⟨decoded, hloop, hstep⟩ := bind_eq_ok_iff.1 hstep
  obtain ⟨⟨⟩, -, hstep⟩ := bind_eq_ok_iff.1 hstep
  obtain ⟨⟨⟩, -, hstep⟩ := bind_eq_ok_iff.1 hstep
  cases hstep
  -- the inner loop, behind the transactions of the earlier chunks
  have hdecoded := foldlM_induction (P := fun txs t => t.1.parserOutput.Chronological
    (done.flatMap ChunkFile.transactions ++ txs)) hloop (by simpa using hs)
    (fun txs tx t t' htx ht hnext => by
      have := decodeTransaction_chronological ht
        (hevents tx (List.mem_flatMap.2 ⟨chunk, hchunk, htx⟩)) hnext
      rwa [List.append_assoc] at this)
  simpa using hdecoded

/-- **Chain order.** Events, orders and positions of a normalized dataset stand in the order
of the chain. -/
theorem normalizeProtobuf_chainOrder {input : RawPath}
    {hashes : Except HotIndexError (SortedMap Text String)} {dataset : NormalizedDataset}
    (h : normalizeProtobuf json options input hashes = .ok dataset)
    (hevents : ∀ rawInputs, resolveProtobufRawInputs input = .ok rawInputs →
      ∀ tx ∈ rawInputs.flatMap ChunkFile.transactions, tx.events.length ≤ UInt32.size) :
    dataset.rows.ChainOrder ∧ (dataset.rows.txs.map TxRow.version).Pairwise (· < ·) ∧
      dataset.manifest.rawTransactionCount = UInt64.ofNat dataset.rows.txs.length := by
  obtain ⟨rawInputs, st, files, hresolve, hvalid, hst, -, rfl⟩ := normalizeProtobuf_ok h
  obtain ⟨htracks, -, hlines⟩ := decodeChunks_ok hst
  obtain ⟨start, hstart⟩ := consecutive_rawInputs hresolve hvalid hst
  -- the versions of all chunks follow one another
  have hascending : ((rawInputs.flatMap ChunkFile.transactions).map
      Transaction.version).Pairwise (· < ·) := by
    have hversions := hstart.pairwise_lt
    have hmap : rawInputs.flatMap ChunkFile.versions =
        ((rawInputs.flatMap ChunkFile.transactions).map Transaction.version).map
          UInt64.toNat := by
      rw [List.map_map, List.map_flatMap]
      rfl
    rw [hmap, List.pairwise_map] at hversions
    exact hversions.imp UInt64.lt_iff_toNat_lt.2
  obtain ⟨hchain, -⟩ := decodeChunks_chronological (hevents rawInputs hresolve) hst hascending
  refine ⟨⟨hchain.events, hchain.orders, hchain.positions⟩, ?_, htracks.count⟩
  -- each transaction has one row
  show (st.txLines.map TxRow.version).Pairwise (· < ·)
  rw [hlines, List.map_map]
  exact hascending

end Parse

/-! ## Replay -/

/-- The order row with the greatest place among the rows of its id. -/
structure ParserOutput.LatestOrder (rows : ParserOutput) (orderId : String) (order : OrderRow) :
    Prop where
  mem : order ∈ rows.orders
  orderId_eq : order.orderId = orderId
  greatest : ∀ other ∈ rows.orders, other.orderId = orderId → other.place ≤ order.place

/-- The position row with the greatest place among the rows of its account, market and
subaccount. -/
structure ParserOutput.LatestPosition (rows : ParserOutput) (account : String)
    (position : PositionRow) : Prop where
  mem : position ∈ rows.positions
  account_eq : position.account = account
  greatest : ∀ other ∈ rows.positions, other.account = account →
    other.marketId = position.marketId → other.subaccount = position.subaccount →
    other.place ≤ position.place

namespace NormalizedDataset

variable {dataset : NormalizedDataset}

theorem txCount_replay (h : (dataset.rows.txs.map TxRow.version).Pairwise (· < ·)) :
    dataset.replayIntoMemory.stats.txCount = UInt64.ofNat dataset.rows.txs.length := by
  unfold replayIntoMemory MemoryEngine.stats
  rw [MemoryEngine.txByVersion_run, txEntries_replayOps]
  simp only
  rw [(SortedMap.size_ofList_eq_length_iff _).2, List.length_map]
  rw [List.map_map]
  exact h.imp LT.lt.ne

theorem eventCount_replay (h : dataset.rows.ChainOrder) :
    dataset.replayIntoMemory.stats.eventCount = dataset.manifest.decibelEventCount := by
  apply eventCount_replay_of_nodup
  rw [List.Nodup, List.pairwise_map]
  exact h.events.imp LT.lt.ne

/-- The greatest order row under an id is the one that is looked up. -/
theorem getOrder_replay (h : dataset.rows.ChainOrder) (orderId : String) (order : OrderRow) :
    dataset.replayIntoMemory.getOrder orderId = some order ↔
      dataset.rows.LatestOrder orderId order := by
  -- later rows have greater places, so the last write under an id is the greatest
  have hascending : (dataset.rows.orders.map
      (fun order => ((⟨order.orderId⟩ : Text), order))).Pairwise
        (fun p q => p.2.place < q.2.place) := by
    rw [List.pairwise_map]
    exact h.orders
  unfold replayIntoMemory MemoryEngine.getOrder
  rw [MemoryEngine.ordersById_run, orderEntries_replayOps, SortedMap.get?_ofList,
    SortedMap.lastWrite_eq_some_iff_greatest OrderRow.place hascending]
  simp only [List.mem_map, Prod.mk.injEq, Text.mk.injEq, forall_exists_index, and_imp,
    forall_apply_eq_imp_iff₂]
  constructor
  · rintro ⟨⟨row, hrow, hId, rfl⟩, hgreatest⟩
    exact ⟨hrow, hId, hgreatest⟩
  · rintro ⟨hrow, hId, hgreatest⟩
    exact ⟨⟨order, hrow, hId, rfl⟩, hgreatest⟩

/-- The stored positions are the greatest rows under their keys. -/
theorem mem_positions_replay (h : dataset.rows.ChainOrder) (p : PositionKey × PositionRow) :
    p ∈ dataset.replayIntoMemory.positionsByAccountMarket.entries ↔
      p.1 = p.2.key ∧ p.2 ∈ dataset.rows.positions ∧
        ∀ other ∈ dataset.rows.positions, other.key = p.2.key → other.place ≤ p.2.place := by
  obtain ⟨key, position⟩ := p
  have hascending : (dataset.rows.positions.map
      (fun position => (position.key, position))).Pairwise
        (fun p q => p.2.place < q.2.place) := by
    rw [List.pairwise_map]
    exact h.positions
  unfold replayIntoMemory
  -- the last write of a key is the one with the greatest place
  rw [MemoryEngine.positionsByAccountMarket_run, positionEntries_replayOps,
    SortedMap.mem_ofList, SortedMap.lastWrite_eq_some_iff_greatest PositionRow.place hascending]
  simp only [List.mem_map, Prod.mk.injEq, forall_exists_index, and_imp,
    forall_apply_eq_imp_iff₂]
  constructor
  · rintro ⟨⟨row, hrow, rfl, rfl⟩, hgreatest⟩
    exact ⟨rfl, hrow, hgreatest⟩
  · rintro ⟨rfl, hrow, hgreatest⟩
    exact ⟨⟨position, hrow, rfl, rfl⟩, hgreatest⟩

/-- An account's positions are the greatest rows of its markets and subaccounts. -/
theorem mem_getPositionsByAccount_replay (h : dataset.rows.ChainOrder) (account : String)
    (position : PositionRow) :
    position ∈ dataset.replayIntoMemory.getPositionsByAccount account ↔
      dataset.rows.LatestPosition account position := by
  unfold MemoryEngine.getPositionsByAccount
  simp only
  rw [(sortOn_perm _ _).mem_iff, List.mem_filter, beq_iff_eq, SortedMap.values, List.mem_map]
  simp only [mem_positions_replay h]
  constructor
  · rintro ⟨⟨p, ⟨-, hrow, hgreatest⟩, rfl⟩, rfl⟩
    -- rows of one account, market and subaccount have one key
    refine ⟨hrow, rfl, fun other hother ha hm hs => hgreatest other hother ?_⟩
    simp only [PositionRow.key, ha, hm, hs]
  · rintro ⟨hrow, rfl, hgreatest⟩
    refine ⟨⟨(position.key, position), ⟨rfl, hrow, fun other hother he => ?_⟩, rfl⟩, rfl⟩
    simp only [PositionRow.key, PositionKey.mk.injEq] at he
    exact hgreatest other hother he.1 he.2.1 he.2.2

/-- Each market and subaccount of an account is answered once. -/
theorem nodup_getPositionsByAccount_replay (h : dataset.rows.ChainOrder) (account : String) :
    ((dataset.replayIntoMemory.getPositionsByAccount account).map
      (fun position => (position.marketId, position.subaccount))).Nodup := by
  set m := dataset.replayIntoMemory.positionsByAccountMarket with hm
  have hdistinct : (m.values.filter (fun position => position.account == account)).Pairwise
      (fun a b => (a.marketId, a.subaccount) ≠ (b.marketId, b.subaccount)) := by
    unfold SortedMap.values
    rw [List.filter_map, List.pairwise_map]
    refine (m.sorted.filter _).imp_of_mem (fun {p q} hp hq hlt he => ?_)
    obtain ⟨hp, hpa⟩ := List.mem_filter.1 hp
    obtain ⟨hq, hqa⟩ := List.mem_filter.1 hq
    -- two entries of one account with one market and subaccount would have one key
    refine hlt.ne ?_
    rw [((mem_positions_replay h p).1 hp).1, ((mem_positions_replay h q).1 hq).1]
    simp only [Prod.mk.injEq] at he
    simp only [PositionRow.key, beq_iff_eq.1 hpa, beq_iff_eq.1 hqa, he]
  unfold MemoryEngine.getPositionsByAccount
  rw [List.Nodup, List.pairwise_map]
  exact ((sortOn_perm _ _).pairwise_iff (fun hne => hne.symm)).2 hdistinct

end NormalizedDataset

section Latest

variable {json : JsonText} {options : ParserOptions} {input : RawPath}
  {hashes : Except HotIndexError (SortedMap Text String)} {dataset : NormalizedDataset}
  {serde : SerdeJson}

/-- **Latest-observed semantics.** A normalized dataset has its events in strict chain order,
so a replay keeps every transaction and every event; and either engine answers an order id
with the latest row of that order, and an account with the latest row of each of its
markets and subaccounts, each once. -/
theorem latest_observed (h : normalizeProtobuf json options input hashes = .ok dataset)
    (hevents : ∀ rawInputs, resolveProtobufRawInputs input = .ok rawInputs →
      ∀ tx ∈ rawInputs.flatMap ChunkFile.transactions, tx.events.length < UInt32.size)
    (hText : ∀ op ∈ dataset.replayOps, op.TextOk)
    (hjson : ∀ op ∈ dataset.replayOps, serde.RoundTrips op) :
    dataset.rows.events.Pairwise (fun a b => a.place < b.place) ∧
      ∃ memory db, dataset.replayIntoMemory = memory ∧
        RocksDb.exec (RocksDb.run serde dataset.replayOps) .empty = (.ok (), db) ∧
        memory.stats.txCount = dataset.manifest.rawTransactionCount ∧
        memory.stats.eventCount = dataset.manifest.decibelEventCount ∧
        (∀ orderId order, memory.getOrder orderId = some order ↔
          dataset.rows.LatestOrder orderId order) ∧
        (∀ account position, position ∈ memory.getPositionsByAccount account ↔
          dataset.rows.LatestPosition account position) ∧
        (∀ account, ((memory.getPositionsByAccount account).map
          (fun position => (position.marketId, position.subaccount))).Nodup) ∧
        (∀ orderId, Key.TextOk orderId →
          db.getOrder serde orderId = .ok (memory.getOrder orderId)) ∧
        (∀ account, Key.TextOk account →
          db.getPositionsByAccount serde account =
            .ok (memory.getPositionsByAccount account)) := by
  obtain ⟨hchain, htxs, hcount⟩ := normalizeProtobuf_chainOrder h
    (fun rawInputs hresolve tx htx => (hevents rawInputs hresolve tx htx).le)
  -- the memory engine shows the latest rows, and RocksDB agrees with it
  refine ⟨hchain.events, _, _, rfl, RocksDb.exec_run_empty serde hText, ?_, ?_, ?_, ?_, ?_, ?_, ?_⟩
  · rw [hcount]
    exact NormalizedDataset.txCount_replay htxs
  · exact NormalizedDataset.eventCount_replay hchain
  · exact NormalizedDataset.getOrder_replay hchain
  · exact NormalizedDataset.mem_getPositionsByAccount_replay hchain
  · exact NormalizedDataset.nodup_getPositionsByAccount_replay hchain
  · exact fun _ => getOrder_agrees hText hjson
  · exact fun _ => getPositionsByAccount_agrees hText hjson

/-- The data of an order event, and of a position event of the same account. -/
def orderData (status : String) : JsonValue := .object [
  ("account", .string "0xa"), ("market", .string "BTC"), ("order_id", .string "o1"),
  ("status", .string status)]

def positionData (size : String) : JsonValue := .object [
  ("account", .string "0xa"), ("market", .string "BTC"), ("size", .string size)]

/-- An order that is placed at version 7 and cancelled at version 8, with the position of its
account updated twice in between. -/
def orderArchive : RawPath :=
  let event (typeStr : String) (data : JsonValue) : ProtoEvent :=
    { typeStr := typeStr, data := data.text }
  let tx (version : UInt64) (events : List ProtoEvent) : Transaction :=
    { version := version, infoHash := none, timestamp := none, type := 0, epoch := 1,
      blockHeight := 1, txnData := some (.user events) }
  .directory "raw" [{ isFile := true, chunk := {
    display := "raw/transactions_7_8.pb.zst"
    fileName := some "transactions_7_8.pb.zst"
    transactions := [
      tx 7 [event "OrderEvent" (orderData "open"), event "PositionUpdated" (positionData "1"),
        event "PositionUpdated" (positionData "2")],
      tx 8 [event "OrderEvent" (orderData "cancelled")]]
    failure := none } }]

/-- The texts of the events in `orderArchive`. -/
def orderJson : JsonText :=
  .ofTexts ([orderData "open", positionData "1", positionData "2", orderData "cancelled"].map
    (fun value => (value.text, value)))

/-- What is decoded depends on the options by the events they take. -/
theorem ParserOptions.SameEvents.decodeChunks_eq {json : JsonText}
    {options options' : ParserOptions} (h : options.SameEvents options') :
    decodeChunks json options = decodeChunks json options' := by
  have hevents : parseProtobufEventsFrom json options = parseProtobufEventsFrom json options' := by
    funext transaction idx output events
    induction events generalizing idx output with
    | nil => rfl
    | cons event rest ih =>
      unfold parseProtobufEventsFrom
      rw [h.parseDecibelEventFromParts_eq]
      simp only [ih]
  -- of the options, decoding reads the network and the dataset besides
  have hdecode : decodeTransaction json options = decodeTransaction json options' := by
    funext chunk st transaction
    unfold decodeTransaction parseProtobufDecibelEvents txRowFromTransaction
    rw [hevents, h.network, h.datasetId]
  funext rawInputs
  unfold decodeChunks
  congr 1
  funext st chunk
  unfold decodeChunk
  rw [hdecode]

theorem latest_observed_orderArchive :
    ∃ dataset, normalizeProtobuf orderJson sampleOptions orderArchive (.ok .empty) =
        .ok dataset ∧
      dataset.rows.events.Pairwise (fun a b => a.place < b.place) ∧
      ∃ memory db, dataset.replayIntoMemory = memory ∧
        RocksDb.exec (RocksDb.run (.ofOps dataset.replayOps) dataset.replayOps) .empty =
          (.ok (), db) ∧
        memory.stats.txCount = dataset.manifest.rawTransactionCount ∧
        memory.stats.eventCount = dataset.manifest.decibelEventCount ∧
        (∀ orderId order, memory.getOrder orderId = some order ↔
          dataset.rows.LatestOrder orderId order) ∧
        (∀ account position, position ∈ memory.getPositionsByAccount account ↔
          dataset.rows.LatestPosition account position) ∧
        (∀ account, ((memory.getPositionsByAccount account).map
          (fun position => (position.marketId, position.subaccount))).Nodup) ∧
        (∀ orderId, Key.TextOk orderId →
          db.getOrder (.ofOps dataset.replayOps) orderId = .ok (memory.getOrder orderId)) ∧
        (∀ account, Key.TextOk account →
          db.getPositionsByAccount (.ofOps dataset.replayOps) account =
            .ok (memory.getPositionsByAccount account)) := by
  have hok : (normalizeProtobuf orderJson sampleOptions orderArchive
      (.ok .empty)).toOption.any (fun dataset => decide
        ((∀ op ∈ dataset.replayOps, op.TextOk) ∧ DistinctJson dataset.replayOps)) = true := by
    -- short addresses take the same events and can be decided on
    have hsame : sampleOptions.SameEvents sampleOptions.shortZeros :=
      ParserOptions.sameEvents_shortZeros rfl rfl
    unfold normalizeProtobuf normalizeProtobufTxOnly
    rw [hsame.decodeChunks_eq]
    decide +kernel
  cases h : normalizeProtobuf orderJson sampleOptions orderArchive (.ok .empty) with
  | error error =>
    rw [h] at hok
    cases hok
  | ok dataset =>
    rw [h] at hok
    obtain ⟨hText, hdistinct⟩ := of_decide_eq_true hok
    refine ⟨dataset, rfl, latest_observed h ?_ hText (SerdeJson.ofOps_roundTrips hdistinct)⟩
    intro rawInputs hresolve
    cases hresolve
    decide

end Latest

end HotIndex
