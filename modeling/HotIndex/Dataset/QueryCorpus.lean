import HotIndex.Core.Types
import HotIndex.Lib.SortedMap

/-!
# The Query Corpus

`build_query_corpus` and the files it is written to: one query record for each distinct
version, market, account and builder, and one record that asks for the first versions
together.
-/

namespace HotIndex

open Lib

inductive QueryKind where
  | getTxByVersion
  | multiGetTxVersions
  | marketFillScan
  | accountFillScan
  | builderCodeFillScan
  | builderCodeVolume
  | mixedDashboard
  deriving DecidableEq, Repr

structure QueryCorpusRecord where
  queryKind : QueryKind
  txVersion : Option UInt64 := none
  txVersions : List UInt64 := []
  marketId : Option String := none
  account : Option String := none
  builderAddr : Option String := none
  limit : Option Nat := none
  deriving DecidableEq, Repr

structure QueryCorpusRows where
  txs : List TxRow
  events : List NormalizedEvent
  fills : List FillRow
  builderRows : List BuilderAttributionRow

/-! ## Building -/

/-- The local variables of `build_query_corpus`. -/
structure CorpusState where
  corpus : List QueryCorpusRecord := []
  seenVersions : List UInt64 := []
  seenMarkets : List String := []
  seenAccounts : List String := []
  seenBuilders : List String := []

namespace CorpusState

def pushVersion (st : CorpusState) (version : UInt64) : CorpusState :=
  if st.seenVersions.contains version then st
  else { st with
    corpus := st.corpus ++ [{ queryKind := .getTxByVersion, txVersion := some version }]
    seenVersions := version :: st.seenVersions }

def pushMarket (st : CorpusState) (marketId : String) : CorpusState :=
  if st.seenMarkets.contains marketId then st
  else { st with
    corpus := st.corpus ++
      [{ queryKind := .marketFillScan, marketId := some marketId, limit := some 100 }]
    seenMarkets := marketId :: st.seenMarkets }

def pushAccount (st : CorpusState) (account : String) : CorpusState :=
  if st.seenAccounts.contains account then st
  else { st with
    corpus := st.corpus ++
      [{ queryKind := .accountFillScan, account := some account, limit := some 100 }]
    seenAccounts := account :: st.seenAccounts }

def pushBuilder (st : CorpusState) (builderAddr : String) : CorpusState :=
  if st.seenBuilders.contains builderAddr then st
  else { st with
    corpus := st.corpus ++
      [{ queryKind := .builderCodeFillScan, builderAddr := some builderAddr, limit := some 100 },
        { queryKind := .builderCodeVolume, builderAddr := some builderAddr }]
    seenBuilders := builderAddr :: st.seenBuilders }

/-- The record of the hundred smallest versions, if there is a version. -/
def pushVersions (st : CorpusState) : List QueryCorpusRecord :=
  let versions := (sortOn id st.seenVersions).take 100
  if versions.isEmpty then st.corpus
  else st.corpus ++ [{ queryKind := .multiGetTxVersions, txVersions := versions }]

end CorpusState

/-- `build_query_corpus`. The versions of events are only used if there are no transactions. -/
def buildQueryCorpus (rows : QueryCorpusRows) : List QueryCorpusRecord :=
  let st := rows.txs.foldl (fun st tx => st.pushVersion tx.version) ({} : CorpusState)
  -- a dataset of events alone is asked for the versions of its events
  let st := if rows.txs.isEmpty then
      rows.events.foldl (fun st event => st.pushVersion event.version) st
    else st
  let st := rows.fills.foldl (fun st fill =>
    (st.pushMarket fill.marketId).pushAccount fill.account) st
  let st := rows.builderRows.foldl (fun st row => st.pushBuilder row.builderAddr) st
  st.pushVersions

/-! ## Files -/

/-- The rows of `write_query_kind_file`. -/
def queryKindRows (corpus : List QueryCorpusRecord) (queryKind : QueryKind) :
    List QueryCorpusRecord :=
  corpus.filter (fun record => record.queryKind = queryKind)

/-- The files of `write_query_corpus_files`, in the order they are written. -/
def queryCorpusFiles (corpus : List QueryCorpusRecord) :
    List (String × List QueryCorpusRecord) :=
  [("mixed_dashboard.ndjson", corpus),
    ("point_tx_versions.ndjson", queryKindRows corpus .getTxByVersion),
    ("multi_get_tx_versions.ndjson", queryKindRows corpus .multiGetTxVersions),
    ("market_fill_scans.ndjson", queryKindRows corpus .marketFillScan),
    ("account_fill_scans.ndjson", queryKindRows corpus .accountFillScan),
    ("builder_code_scans.ndjson", queryKindRows corpus .builderCodeFillScan),
    ("builder_code_volumes.ndjson", queryKindRows corpus .builderCodeVolume)]

/-- `QUERY_CORPUS_ARTIFACTS` -/
def queryCorpusArtifacts : List String :=
  ["queries/mixed_dashboard.ndjson", "queries/point_tx_versions.ndjson",
    "queries/multi_get_tx_versions.ndjson", "queries/market_fill_scans.ndjson",
    "queries/account_fill_scans.ndjson", "queries/builder_code_scans.ndjson",
    "queries/builder_code_volumes.ndjson"]

/-- The files that are written into `queries` are the artifacts. -/
theorem queryCorpusFiles_artifacts (corpus : List QueryCorpusRecord) :
    (queryCorpusFiles corpus).map (fun file => "queries/" ++ file.1) = queryCorpusArtifacts := by
  simp only [queryCorpusFiles, List.map_cons, List.map_nil]
  decide

end HotIndex
