import HotIndex.Storage.FillIndexes
import HotIndex.Storage.RocksHistory
import HotIndex.Storage.ScanSelection

/-!
# Scans After Any History

Whatever the history of a RocksDB engine, failed operations included, each of its families
holds rows under their own keys (`mem_afterHistory`). So a scan lists the stored rows of its
text in the order that the keys give them, as far as its limit reaches.

No assumption is made that rows are put once: rows that share a key replace each other, and
the scan lists those that are stored.
-/

namespace HotIndex

open Lib

namespace RocksDb

/-! ## Families of rows under their keys -/

/-- The rows that the values of a family decode to, in key order. -/
def decodedRows {α : Type} (db : RocksDb) (codec : Codec α) (family : ColumnFamily) : List α :=
  (db.cf family).entries.filterMap (fun entry => (codec.decode entry.2).toOption)

/-- Every entry of the family is the encoding of a row under the key of that row. -/
def HoldsRows {α : Type} (db : RocksDb) (codec : Codec α) (family : ColumnFamily)
    (key : α → Except Fault Bytes) : Prop :=
  ∀ entry ∈ (db.cf family).entries,
    ∃ row, key row = .ok entry.1 ∧ codec.toVec row = entry.2 ∧ codec.RoundTrips row

namespace HoldsRows

variable {α κ : Type} [LinearOrder κ] {db : RocksDb} {codec : Codec α} {family : ColumnFamily}
  {key : α → Except Fault Bytes}

/-- The family is the list of its rows, each under its key. -/
theorem entries_eq (h : HoldsRows db codec family key) :
    (db.cf family).entries =
      (db.decodedRows codec family).map (fun row => (built (key row), codec.toVec row)) := by
  unfold decodedRows
  unfold HoldsRows at h
  generalize (db.cf family).entries = entries at h
  -- every entry decodes, and to the row whose key it has
  induction entries with
  | nil => rfl
  | cons entry entries ih =>
    rw [List.forall_mem_cons] at h
    rcases h.1 with ⟨row, hkey, hvalue, hround⟩
    have hdecode : codec.decode entry.2 = .ok row := hvalue ▸ Codec.decode_toVec hround
    have hentry : (built (key row), codec.toVec row) = entry := by
      rw [built_of_ok hkey, hvalue]
    rw [List.filterMap_cons, hdecode]
    show entry :: entries = (built (key row), codec.toVec row) :: _
    rw [hentry, ← ih h.2]

/-- Every row that is read was stored under its key, and reads back. -/
theorem of_mem (h : HoldsRows db codec family key) {row : α}
    (hrow : row ∈ db.decodedRows codec family) :
    (∃ k, key row = .ok k) ∧ codec.RoundTrips row := by
  rcases List.mem_filterMap.1 hrow with ⟨entry, hentry, hdecoded⟩
  rcases h entry hentry with ⟨stored, hkey, hvalue, hround⟩
  have hdecode : codec.decode entry.2 = .ok stored := hvalue ▸ Codec.decode_toVec hround
  rw [hdecode] at hdecoded
  cases hdecoded
  exact ⟨⟨_, hkey⟩, hround⟩

variable {textOf : α → String} {text : String} {keyPrefix : Bytes}

/-- A scan lists the stored rows of its text, as many as its limit lets it take. -/
theorem scanPrefix_eq (h : HoldsRows db codec family key)
    (hbegins : ∀ row k, key row = .ok k → (keyPrefix <+: k ↔ textOf row = text))
    (limit : Limit) :
    scanPrefix db codec family (.ok keyPrefix) limit =
      .ok ((scanRoom limit 0).truncate
        ((db.decodedRows codec family).filter (fun row => textOf row == text))) := by
  -- every key was built, so on the stored rows both conditions agree
  have hfilter : (db.decodedRows codec family).filter
      (fun row => decide (keyPrefix <+: built (key row))) =
      (db.decodedRows codec family).filter (fun row => textOf row == text) := by
    apply List.filter_congr
    intro row hrow
    rcases (h.of_mem hrow).1 with ⟨k, hk⟩
    rw [built_of_ok hk, Bool.eq_iff_iff, decide_eq_true_iff, beq_iff_eq]
    exact hbegins row k hk
  have hdecode : ∀ row ∈ (scanRoom limit 0).truncate
      ((db.decodedRows codec family).filter (fun row => textOf row == text)),
      codec.decode (codec.toVec row) = .ok (id row) := by
    intro row hrow
    have hmem := List.mem_of_mem_filter (Limit.mem_of_mem_truncate hrow)
    exact Codec.decode_toVec (h.of_mem hmem).2
  rw [scanPrefix_ok, h.entries_eq, List.filter_map, ← Limit.map_truncate, List.mapM_map]
  show List.mapM _ ((scanRoom limit 0).truncate ((db.decodedRows codec family).filter
    (fun row => decide (keyPrefix <+: built (key row))))) = _
  rw [hfilter]
  exact (mapM_eq_ok hdecode).trans (by rw [List.map_id])

/-- Where byte keys compare as a text and then `scanKey`, the rows of one text ascend by
`scanKey`. -/
theorem pairwise_scanKey (h : HoldsRows db codec family key) {scanKey : α → κ}
    (hlt : ∀ a b ka kb, key a = .ok ka → key b = .ok kb →
      (ka < kb ↔ toLex ((⟨textOf a⟩ : Text), scanKey a) < toLex (⟨textOf b⟩, scanKey b))) :
    ((db.decodedRows codec family).filter (fun row => textOf row == text)).Pairwise
      (fun a b => scanKey a < scanKey b) := by
  -- the entries ascend by their bytes
  have hsorted := (db.cf family).sorted
  rw [h.entries_eq, List.pairwise_map] at hsorted
  refine (hsorted.filter _).imp_of_mem (fun {a b} ha hb hab => ?_)
  rcases List.mem_filter.1 ha with ⟨ha, hta⟩
  rcases List.mem_filter.1 hb with ⟨hb, htb⟩
  rcases (h.of_mem ha).1 with ⟨ka, hka⟩
  rcases (h.of_mem hb).1 with ⟨kb, hkb⟩
  rw [built_of_ok hka, built_of_ok hkb, hlt a b ka kb hka hkb, beq_iff_eq.1 hta,
    beq_iff_eq.1 htb, Prod.Lex.toLex_lt_toLex] at hab
  simpa using hab

end HoldsRows

/-! ## The families of a history -/

section Histories

variable {json : SerdeJson} {history : History}

/-- The families that one kind of row is stored in hold only such rows. -/
theorem holdsRows_afterHistory {α : Type} {codec : Codec α} {family : ColumnFamily}
    {key : α → Except Fault Bytes} (put : α → PutOp)
    (hattempt : ∀ op, ∀ attempt ∈ attempts json op, attempt.family = family →
      ∃ row, op = put row ∧ attempt.key = key row ∧ attempt.value = codec.toVec row)
    (hround : ∀ row, json.RoundTrips (put row) → codec.RoundTrips row)
    (hjson : ∀ step ∈ history, json.RoundTrips step.2) :
    HoldsRows (afterHistory json history) codec family key := by
  intro entry hentry
  rcases mem_afterHistory hentry with ⟨step, hstep, attempt, hmem, hkey, hfamily, hvalue⟩
  rcases hattempt step.2 attempt hmem hfamily with ⟨row, hop, hrowKey, hrowValue⟩
  exact ⟨row, hrowKey ▸ hkey, hrowValue ▸ hvalue, hround row (hop ▸ hjson step hstep)⟩

/-- Which operations write to the families that are scanned, and what. -/
theorem attempt_inv {op : PutOp} {attempt : Attempt} (h : attempt ∈ attempts json op) :
    match attempt.family with
    | .fillsByMarketTime => ∃ fill, op = .putFill fill ∧ attempt.key = fill.marketKey ∧
        attempt.value = json.fill.toVec fill
    | .builderCodeFills => ∃ row, op = .putBuilderAttribution row ∧
        attempt.key = row.codeFillsKey ∧ attempt.value = json.builder.toVec row
    | .ingestCheckpoint => ∃ checkpoint, op = .putIngestCheckpoint checkpoint ∧
        attempt.key = Key.ingestCheckpoint checkpoint.network checkpoint.packageAddress ∧
        attempt.value = json.checkpoint.toVec checkpoint
    | _ => True := by
  cases op with
  | putFill fill =>
    -- the only operation with more than one write
    simp only [attempts, List.mem_cons, List.not_mem_nil, or_false] at h
    rcases h with rfl | rfl | rfl
    · exact ⟨fill, rfl, rfl, rfl⟩
    · trivial
    · trivial
  | putBuilderAttribution row =>
    rw [List.mem_singleton.1 h]
    exact ⟨row, rfl, rfl, rfl⟩
  | putIngestCheckpoint checkpoint =>
    rw [List.mem_singleton.1 h]
    exact ⟨checkpoint, rfl, rfl, rfl⟩
  | _ =>
    rw [List.mem_singleton.1 h]
    trivial

theorem holdsRows_fillsByMarketTime (hjson : ∀ step ∈ history, json.RoundTrips step.2) :
    HoldsRows (afterHistory json history) json.fill .fillsByMarketTime FillRow.marketKey := by
  apply holdsRows_afterHistory PutOp.putFill _ (fun _ h => h) hjson
  intro op attempt hmem hfamily
  have hwrites := attempt_inv hmem
  rw [hfamily] at hwrites
  exact hwrites

theorem holdsRows_builderCodeFills (hjson : ∀ step ∈ history, json.RoundTrips step.2) :
    HoldsRows (afterHistory json history) json.builder .builderCodeFills
      BuilderAttributionRow.codeFillsKey := by
  apply holdsRows_afterHistory PutOp.putBuilderAttribution _ (fun _ h => h) hjson
  intro op attempt hmem hfamily
  have hwrites := attempt_inv hmem
  rw [hfamily] at hwrites
  exact hwrites

theorem holdsRows_ingestCheckpoint (hjson : ∀ step ∈ history, json.RoundTrips step.2) :
    HoldsRows (afterHistory json history) json.checkpoint .ingestCheckpoint
      (fun checkpoint => Key.ingestCheckpoint checkpoint.network checkpoint.packageAddress) := by
  apply holdsRows_afterHistory PutOp.putIngestCheckpoint _ (fun _ h => h) hjson
  intro op attempt hmem hfamily
  have hwrites := attempt_inv hmem
  rw [hfamily] at hwrites
  exact hwrites

end Histories

end RocksDb

end HotIndex
