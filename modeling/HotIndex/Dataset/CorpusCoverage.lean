import HotIndex.Dataset.QueryCorpus
import HotIndex.Lib.ScanOrder
import Mathlib.Data.Finset.Sort
import Mathlib.Tactic

/-!
# What the Query Corpus Covers

`build_query_corpus` threads four sets of what it has seen through its loops. Each set is the
list of distinct keys met so far, and the corpus has the records of those keys
(`CorpusState.Collects`), whatever the order of the rows. Behind the loops, one record asks for
the hundred smallest versions. The files by kind are a partition of the corpus, since no record
is of any other kind (`buildQueryCorpus_covers`).
-/

namespace HotIndex

open Lib

/-! ## Records -/

def versionRecord (version : UInt64) : QueryCorpusRecord :=
  { queryKind := .getTxByVersion, txVersion := some version }

def marketRecord (marketId : String) : QueryCorpusRecord :=
  { queryKind := .marketFillScan, marketId := some marketId, limit := some 100 }

def accountRecord (account : String) : QueryCorpusRecord :=
  { queryKind := .accountFillScan, account := some account, limit := some 100 }

def builderScanRecord (builderAddr : String) : QueryCorpusRecord :=
  { queryKind := .builderCodeFillScan, builderAddr := some builderAddr, limit := some 100 }

def builderVolumeRecord (builderAddr : String) : QueryCorpusRecord :=
  { queryKind := .builderCodeVolume, builderAddr := some builderAddr }

/-- The record of the hundred smallest of some versions, if there is one. -/
def smallestVersions (versions : List UInt64) : List QueryCorpusRecord :=
  if versions = [] then []
  else [{ queryKind := .multiGetTxVersions
          txVersions := (versions.toFinset.sort (· ≤ ·)).take 100 }]

/-- The versions that a corpus asks for: those of the events if there are no transactions. -/
def QueryCorpusRows.versions (rows : QueryCorpusRows) : List UInt64 :=
  if rows.txs = [] then rows.events.map (·.version) else rows.txs.map (·.version)

/-- One record for each distinct version, market and account and two for each distinct
builder, and the record of the smallest versions. -/
def QueryCorpusRows.coverage (rows : QueryCorpusRows) : List QueryCorpusRecord :=
  rows.versions.dedup.map versionRecord ++
    (rows.fills.map (·.marketId)).dedup.map marketRecord ++
    (rows.fills.map (·.account)).dedup.map accountRecord ++
    (rows.builderRows.map (·.builderAddr)).dedup.map builderScanRecord ++
    (rows.builderRows.map (·.builderAddr)).dedup.map builderVolumeRecord ++
    smallestVersions rows.versions

/-! ## The seen-sets -/

/-- The keys met so far, with a key that is not new. -/
theorem seen_of_mem {α : Type} [DecidableEq α] {seen keys : List α} {key : α}
    (hseen : seen = keys.reverse.dedup) (hmem : key ∈ seen) :
    seen = (keys ++ [key]).reverse.dedup := by
  rw [hseen, List.mem_dedup] at hmem
  rw [hseen, List.reverse_append, List.reverse_singleton, List.singleton_append,
    List.dedup_cons_of_mem hmem]

/-- The keys met so far, with a new key. -/
theorem seen_of_notMem {α : Type} [DecidableEq α] {seen keys : List α} {key : α}
    (hseen : seen = keys.reverse.dedup) (hmem : key ∉ seen) :
    key :: seen = (keys ++ [key]).reverse.dedup := by
  rw [hseen, List.mem_dedup] at hmem
  rw [hseen, List.reverse_append, List.reverse_singleton, List.singleton_append,
    List.dedup_cons_of_notMem hmem]

/-- One record for each key. -/
def recordsOf {α : Type} (record : α → QueryCorpusRecord) (keys : List α) :
    Multiset QueryCorpusRecord :=
  ↑(keys.map record)

theorem recordsOf_cons {α : Type} (record : α → QueryCorpusRecord) (key : α) (keys : List α) :
    recordsOf record (key :: keys) = {record key} + recordsOf record keys := by
  unfold recordsOf
  rw [List.map_cons, ← Multiset.cons_coe, Multiset.singleton_add]

/-- Distinct keys have the same records in any order. -/
theorem recordsOf_dedup_reverse {α : Type} [DecidableEq α] (record : α → QueryCorpusRecord)
    (keys : List α) : recordsOf record keys.reverse.dedup = recordsOf record keys.dedup :=
  Multiset.coe_eq_coe.2 ((List.reverse_perm keys).dedup.map record)

namespace CorpusState

/-- With these keys met so far, the sets hold the distinct ones, newest first, and the corpus has
their records. -/
structure Collects (st : CorpusState) (versions : List UInt64)
    (markets accounts builders : List String) : Prop where
  versions : st.seenVersions = versions.reverse.dedup
  markets : st.seenMarkets = markets.reverse.dedup
  accounts : st.seenAccounts = accounts.reverse.dedup
  builders : st.seenBuilders = builders.reverse.dedup
  corpus : (st.corpus : Multiset QueryCorpusRecord) =
    recordsOf versionRecord st.seenVersions + recordsOf marketRecord st.seenMarkets +
      recordsOf accountRecord st.seenAccounts + recordsOf builderScanRecord st.seenBuilders +
      recordsOf builderVolumeRecord st.seenBuilders

section Steps

variable {st : CorpusState} {versions : List UInt64} {markets accounts builders : List String}

theorem Collects.empty : ({} : CorpusState).Collects [] [] [] [] := ⟨rfl, rfl, rfl, rfl, rfl⟩

theorem Collects.pushVersion (h : st.Collects versions markets accounts builders)
    (version : UInt64) :
    (st.pushVersion version).Collects (versions ++ [version]) markets accounts builders := by
  unfold CorpusState.pushVersion
  -- only a version that is new adds a record
  by_cases hmem : version ∈ st.seenVersions
  · rw [if_pos (List.contains_iff_mem.2 hmem)]
    exact { h with versions := seen_of_mem h.versions hmem }
  · rw [if_neg (by simpa using hmem)]
    refine { h with versions := seen_of_notMem h.versions hmem, corpus := ?_ }
    rw [← Multiset.coe_add, h.corpus, recordsOf_cons]
    show _ + {versionRecord version} = _
    abel

theorem Collects.pushMarket (h : st.Collects versions markets accounts builders)
    (marketId : String) :
    (st.pushMarket marketId).Collects versions (markets ++ [marketId]) accounts builders := by
  unfold CorpusState.pushMarket
  -- only a market that is new adds a record
  by_cases hmem : marketId ∈ st.seenMarkets
  · rw [if_pos (List.contains_iff_mem.2 hmem)]
    exact { h with markets := seen_of_mem h.markets hmem }
  · rw [if_neg (by simpa using hmem)]
    refine { h with markets := seen_of_notMem h.markets hmem, corpus := ?_ }
    rw [← Multiset.coe_add, h.corpus, recordsOf_cons]
    show _ + {marketRecord marketId} = _
    abel

theorem Collects.pushAccount (h : st.Collects versions markets accounts builders)
    (account : String) :
    (st.pushAccount account).Collects versions markets (accounts ++ [account]) builders := by
  unfold CorpusState.pushAccount
  -- only an account that is new adds a record
  by_cases hmem : account ∈ st.seenAccounts
  · rw [if_pos (List.contains_iff_mem.2 hmem)]
    exact { h with accounts := seen_of_mem h.accounts hmem }
  · rw [if_neg (by simpa using hmem)]
    refine { h with accounts := seen_of_notMem h.accounts hmem, corpus := ?_ }
    rw [← Multiset.coe_add, h.corpus, recordsOf_cons]
    show _ + {accountRecord account} = _
    abel

theorem Collects.pushBuilder (h : st.Collects versions markets accounts builders)
    (builderAddr : String) :
    (st.pushBuilder builderAddr).Collects versions markets accounts
      (builders ++ [builderAddr]) := by
  unfold CorpusState.pushBuilder
  by_cases hmem : builderAddr ∈ st.seenBuilders
  · rw [if_pos (List.contains_iff_mem.2 hmem)]
    exact { h with builders := seen_of_mem h.builders hmem }
  · rw [if_neg (by simpa using hmem)]
    refine { h with builders := seen_of_notMem h.builders hmem, corpus := ?_ }
    -- a new builder has two records
    rw [← Multiset.coe_add, h.corpus, recordsOf_cons, recordsOf_cons]
    show _ + ({builderScanRecord builderAddr} + {builderVolumeRecord builderAddr} :
      Multiset QueryCorpusRecord) = _
    abel

end Steps

/-! ## The loops -/

theorem Collects.foldl_pushVersion {α : Type} {st : CorpusState} {versions : List UInt64}
    {markets accounts builders : List String}
    (h : st.Collects versions markets accounts builders) (version : α → UInt64) (l : List α) :
    (l.foldl (fun st a => st.pushVersion (version a)) st).Collects
      (versions ++ l.map version) markets accounts builders := by
  induction l generalizing st versions with
  | nil => simpa using h
  | cons a l ih =>
    have hrest := ih (h.pushVersion (version a))
    rwa [List.append_assoc] at hrest

theorem Collects.foldl_pushFill {st : CorpusState} {versions : List UInt64}
    {markets accounts builders : List String}
    (h : st.Collects versions markets accounts builders) (fills : List FillRow) :
    (fills.foldl (fun st fill => (st.pushMarket fill.marketId).pushAccount fill.account)
      st).Collects versions (markets ++ fills.map (·.marketId))
      (accounts ++ fills.map (·.account)) builders := by
  induction fills generalizing st markets accounts with
  | nil => simpa using h
  | cons fill fills ih =>
    have hrest := ih ((h.pushMarket fill.marketId).pushAccount fill.account)
    rwa [List.append_assoc, List.append_assoc] at hrest

theorem Collects.foldl_pushBuilder {st : CorpusState} {versions : List UInt64}
    {markets accounts builders : List String}
    (h : st.Collects versions markets accounts builders) (rows : List BuilderAttributionRow) :
    (rows.foldl (fun st row => st.pushBuilder row.builderAddr) st).Collects versions markets
      accounts (builders ++ rows.map (·.builderAddr)) := by
  induction rows generalizing st builders with
  | nil => simpa using h
  | cons row rows ih =>
    have hrest := ih (h.pushBuilder row.builderAddr)
    rwa [List.append_assoc] at hrest

/-- The hundred smallest of the versions seen are those of the versions met. -/
theorem Collects.pushVersions_eq {st : CorpusState} {versions : List UInt64}
    {markets accounts builders : List String}
    (h : st.Collects versions markets accounts builders) :
    st.pushVersions = st.corpus ++ smallestVersions versions := by
  -- the versions seen, each once, in ascending order
  have hsorted : sortOn id st.seenVersions = versions.toFinset.sort (· ≤ ·) := by
    have hperm : versions.reverse.dedup.Perm (versions.toFinset.sort (· ≤ ·)) := by
      refine (List.perm_ext_iff_of_nodup (List.nodup_dedup _) (Finset.sort_nodup _ _)).2 ?_
      intro version
      rw [Finset.mem_sort, List.mem_toFinset, List.mem_dedup, List.mem_reverse]
    rw [h.versions]
    exact sortOn_eq_of_perm hperm (Finset.sortedLT_sort versions.toFinset).pairwise
  unfold CorpusState.pushVersions smallestVersions
  rw [hsorted]
  -- without versions no record is pushed
  by_cases hnone : versions = []
  · subst hnone
    simp
  · have hlength : (versions.toFinset.sort (· ≤ ·)).take 100 ≠ [] := by
      rw [← List.length_pos_iff, List.length_take, Finset.length_sort]
      have hpos : 0 < versions.toFinset.card := by
        rw [Finset.card_pos, List.toFinset_nonempty_iff]
        exact hnone
      omega
    rw [if_neg hnone]
    simp only [List.isEmpty_iff]
    rw [if_neg hlength]

end CorpusState

/-- The records of a corpus are those of its coverage. -/
theorem buildQueryCorpus_perm (rows : QueryCorpusRows) :
    (buildQueryCorpus rows).Perm rows.coverage := by
  obtain ⟨st, hst, hcorpus⟩ : ∃ st : CorpusState,
      st.Collects rows.versions (rows.fills.map (·.marketId)) (rows.fills.map (·.account))
        (rows.builderRows.map (·.builderAddr)) ∧ buildQueryCorpus rows = st.pushVersions := by
    refine ⟨_, ?_, rfl⟩
    have htxs := CorpusState.Collects.empty.foldl_pushVersion (·.version) rows.txs
    -- the versions of the events are only met if there are no transactions
    have hversions : (if rows.txs.isEmpty then
        rows.events.foldl (fun st event => st.pushVersion event.version)
          (rows.txs.foldl (fun st tx => st.pushVersion tx.version) ({} : CorpusState))
        else rows.txs.foldl (fun st tx => st.pushVersion tx.version) {}).Collects
          rows.versions [] [] [] := by
      unfold QueryCorpusRows.versions
      by_cases hnone : rows.txs = []
      · rw [hnone] at htxs ⊢
        exact htxs.foldl_pushVersion (·.version) rows.events
      · rw [if_neg (by simpa using hnone), if_neg hnone]
        exact htxs
    exact (hversions.foldl_pushFill rows.fills).foldl_pushBuilder rows.builderRows
  rw [hcorpus, hst.pushVersions_eq]
  apply Multiset.coe_eq_coe.1
  unfold QueryCorpusRows.coverage
  simp only [← Multiset.coe_add]
  rw [hst.corpus, hst.versions, hst.markets, hst.accounts, hst.builders]
  simp only [recordsOf_dedup_reverse]
  rfl

/-! ## Records of each kind -/

/-- The records are distinct, and of these kinds. -/
structure OfKinds (kinds : List QueryKind) (records : List QueryCorpusRecord) : Prop where
  nodup : records.Nodup
  kinds : ∀ record ∈ records, record.queryKind ∈ kinds

/-- Records of a new kind are distinct from the records so far. -/
theorem OfKinds.append {kinds : List QueryKind} {kind : QueryKind}
    {records records' : List QueryCorpusRecord} (h : OfKinds kinds records)
    (h' : OfKinds [kind] records') (hnew : kind ∉ kinds) :
    OfKinds (kinds ++ [kind]) (records ++ records') where
  nodup := by
    refine List.nodup_append.2 ⟨h.nodup, h'.nodup, fun record hrecord record' hrecord' heq => ?_⟩
    -- a record in both lists would have the new kind among the old ones
    have hkind := h.kinds record hrecord
    rw [heq, List.mem_singleton.1 (h'.kinds record' hrecord')] at hkind
    exact hnew hkind
  kinds := by
    intro record hrecord
    rcases List.mem_append.1 hrecord with hrecord | hrecord
    · exact List.mem_append_left _ (h.kinds record hrecord)
    · exact List.mem_append_right _ (h'.kinds record hrecord)

/-- One record of a kind for each of some distinct keys. -/
theorem ofKinds_map {α : Type} [DecidableEq α] {record : α → QueryCorpusRecord} {kind : QueryKind}
    (keys : List α) (hinj : Function.Injective record)
    (hkind : ∀ key, (record key).queryKind = kind) : OfKinds [kind] (keys.dedup.map record) where
  nodup := (List.nodup_dedup keys).map hinj
  kinds := by
    intro record' hrecord
    obtain ⟨key, -, rfl⟩ := List.mem_map.1 hrecord
    rw [hkind, List.mem_singleton]

theorem ofKinds_coverage (rows : QueryCorpusRows) :
    OfKinds [.getTxByVersion, .marketFillScan, .accountFillScan, .builderCodeFillScan,
      .builderCodeVolume, .multiGetTxVersions] rows.coverage := by
  have hsmallest : OfKinds [.multiGetTxVersions] (smallestVersions rows.versions) := by
    unfold smallestVersions
    split_ifs
    · exact ⟨List.nodup_nil, by simp⟩
    · exact ⟨List.nodup_singleton _, by simp⟩
  have hversions := @ofKinds_map _ _ versionRecord .getTxByVersion rows.versions
    (fun a b h => by cases h; rfl) (fun _ => rfl)
  have hmarkets := @ofKinds_map _ _ marketRecord .marketFillScan (rows.fills.map (·.marketId))
    (fun a b h => by cases h; rfl) (fun _ => rfl)
  have haccounts := @ofKinds_map _ _ accountRecord .accountFillScan (rows.fills.map (·.account))
    (fun a b h => by cases h; rfl) (fun _ => rfl)
  have hscans := @ofKinds_map _ _ builderScanRecord .builderCodeFillScan
    (rows.builderRows.map (·.builderAddr)) (fun a b h => by cases h; rfl) (fun _ => rfl)
  have hvolumes := @ofKinds_map _ _ builderVolumeRecord .builderCodeVolume
    (rows.builderRows.map (·.builderAddr)) (fun a b h => by cases h; rfl) (fun _ => rfl)
  -- the parts are of different kinds
  exact ((((hversions.append hmarkets (by decide)).append haccounts (by decide)).append hscans
    (by decide)).append hvolumes (by decide)).append hsmallest (by decide)

/-! ## The files by kind -/

/-- Every record of a corpus is of one of the six kinds that have a file. -/
theorem queryKind_ne_mixedDashboard {rows : QueryCorpusRows} {record : QueryCorpusRecord}
    (h : record ∈ buildQueryCorpus rows) : record.queryKind ≠ .mixedDashboard := by
  intro hkind
  have hmem := (ofKinds_coverage rows).kinds record ((buildQueryCorpus_perm rows).mem_iff.1 h)
  rw [hkind] at hmem
  exact absurd hmem (by decide)

/-- Records of those six kinds are divided among the files. -/
theorem queryKindRows_perm {corpus : List QueryCorpusRecord}
    (h : ∀ record ∈ corpus, record.queryKind ≠ .mixedDashboard) :
    ((queryCorpusFiles corpus).tail.flatMap (·.2)).Perm corpus := by
  rw [List.perm_iff_count]
  intro record
  have hfile : ∀ kind, (queryKindRows corpus kind).count record =
      if record.queryKind = kind then corpus.count record else 0 := by
    intro kind
    unfold queryKindRows
    split_ifs with hkind
    · exact List.count_filter (by simpa using hkind)
    · rw [List.count_eq_zero]
      intro hmem
      exact hkind (by simpa using (List.mem_filter.1 hmem).2)
  simp only [queryCorpusFiles, List.tail_cons, List.flatMap_cons, List.flatMap_nil,
    List.append_nil, List.count_append, hfile]
  -- one of the six files counts the record
  cases hkind : record.queryKind with
  | mixedDashboard =>
    have habsent : record ∉ corpus := fun hmem => h record hmem hkind
    simp [List.count_eq_zero.2 habsent]
  | _ => simp

/-- **Coverage and partition.** The corpus consists of one record for each distinct version,
market and account, two for each distinct builder, and the record of the smallest versions. The
six files by kind hold each of its records once, each file in the order of the corpus. -/
theorem buildQueryCorpus_covers (rows : QueryCorpusRows) :
    (buildQueryCorpus rows).Perm rows.coverage ∧ rows.coverage.Nodup ∧
    ∃ kindFiles, queryCorpusFiles (buildQueryCorpus rows) =
        ("mixed_dashboard.ndjson", buildQueryCorpus rows) :: kindFiles ∧
      kindFiles.length = 6 ∧
      (∀ file ∈ kindFiles, ∃ kind, file.2 =
        (buildQueryCorpus rows).filter (fun record => record.queryKind = kind)) ∧
      (kindFiles.flatMap (·.2)).Perm (buildQueryCorpus rows) := by
  refine ⟨buildQueryCorpus_perm rows, (ofKinds_coverage rows).nodup, _, rfl, rfl, ?_,
    queryKindRows_perm fun record => queryKind_ne_mixedDashboard⟩
  -- each file keeps the records of one kind, in their order
  intro file hfile
  simp only [List.mem_cons, List.not_mem_nil, or_false] at hfile
  rcases hfile with rfl | rfl | rfl | rfl | rfl | rfl <;> exact ⟨_, rfl⟩

end HotIndex
