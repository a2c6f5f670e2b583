import HotIndex.Ingest.DecibelParser
import HotIndex.Lib.SortedMap

/-!
# Datasets

The manifest of a dataset, and a normalized dataset as the pair of the rows that a
normalizer wrote and the manifest it wrote for them.
-/

namespace HotIndex

open Lib

/-- `LOGICAL_SCHEMA_VERSION` -/
def logicalSchemaVersion : UInt32 := 2

/-- `DatasetManifest`, as far as replay and the benchmark read it. -/
structure DatasetManifest where
  datasetId : DatasetId
  schemaVersion : UInt32
  network : Network
  startVersion : UInt64
  endVersion : Option UInt64
  packageAddress : String
  orderbookAddress : String
  rawTransactionCount : UInt64
  decibelEventCount : UInt64
  fillCount : UInt64
  orderCount : UInt64
  positionCount : UInt64
  builderCodeRowCount : UInt64
  /-- Artifact key to hexadecimal digest -/
  hashes : SortedMap Text String

/-- The rows of a dataset under a manifest whose row counts are theirs. -/
structure NormalizedDataset where
  manifest : DatasetManifest
  rows : ParserOutput
  decibelEventCount_eq : manifest.decibelEventCount = UInt64.ofNat rows.events.length
  fillCount_eq : manifest.fillCount = UInt64.ofNat rows.fills.length

/-- `write_normalized_fixture_dataset`: the manifest takes its range from the transactions.
`hashes` are the digests of the raw input and of the normalized artifacts. -/
def fixtureDataset (options : ParserOptions) (rows : ParserOutput)
    (hashes : SortedMap Text String) : NormalizedDataset where
  manifest := {
    datasetId := options.datasetId
    schemaVersion := logicalSchemaVersion
    network := options.network
    startVersion := (rows.txs.map TxRow.version).min?.getD 0
    endVersion := (rows.txs.map TxRow.version).max?
    packageAddress := options.packageAddress
    orderbookAddress := options.orderbookAddress
    rawTransactionCount := rows.rawTransactionCount
    decibelEventCount := UInt64.ofNat rows.events.length
    fillCount := UInt64.ofNat rows.fills.length
    orderCount := UInt64.ofNat rows.orders.length
    positionCount := UInt64.ofNat rows.positions.length
    builderCodeRowCount := UInt64.ofNat rows.builderRows.length
    hashes := hashes }
  rows := rows
  decibelEventCount_eq := rfl
  fillCount_eq := rfl

end HotIndex
