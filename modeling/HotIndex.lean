import HotIndex.Lib.AtomicReplace
import HotIndex.Bench.ReadUnderIngest
import HotIndex.Bench.ServingBench
import HotIndex.Dataset.Materialize
import HotIndex.Dataset.CorpusRebuild
import HotIndex.Dataset.NormalizedReplay
import HotIndex.Dataset.StreamedReplay
import HotIndex.Dataset.ReplayableDataset
import HotIndex.Lib.UnixPath
import HotIndex.Dataset.FixtureIdentities
import HotIndex.Ingest.EventAccounts
import HotIndex.Lib.DecimalText
import HotIndex.Storage.VolumeWindow
import HotIndex.Storage.HistoryScans
import HotIndex.Storage.PutAtomicity
import HotIndex.Storage.RocksHistory
import HotIndex.Storage.ScanContract
import HotIndex.Storage.ChecksumFraming
import HotIndex.Dataset.RecordInference
import HotIndex.Dataset.ChunkFraming
import HotIndex.Storage.KeyEmbedding
import HotIndex.Bench.WarmUp
import HotIndex.Bench.Ingest
import HotIndex.Storage.ReplayConvergence
import HotIndex.Storage.VolumeAgreement
import HotIndex.Storage.ScanSelection
import HotIndex.Lib.ScanOrder
import HotIndex.Storage.BuilderVolume
import HotIndex.Dataset.DatasetCrash
import HotIndex.Dataset.DatasetDir
import HotIndex.Dataset.RecordCrash
import HotIndex.Dataset.RecordComplete
import HotIndex.Dataset.RecordRuns
import HotIndex.Dataset.RecordInvariant
import HotIndex.Dataset.RecordResume
import HotIndex.Dataset.RecordLedger
import HotIndex.Dataset.Recorder
import HotIndex.Dataset.RecordDir
import HotIndex.Dataset.LatestObserved
import HotIndex.Ingest.ChainOrder
import HotIndex.Dataset.NormalizeRange
import HotIndex.Dataset.Normalize
import HotIndex.Dataset.RawChunks
import HotIndex.Dataset.Transaction
import HotIndex.Lib.Consecutive
import HotIndex.Dataset.Replay
import HotIndex.Ingest.DecibelParser
import HotIndex.Ingest.Json
import HotIndex.Storage.Refinement
import HotIndex.Storage.RowJson
import HotIndex.Lib.Sha256
import HotIndex.Storage.FillIndexes
import HotIndex.Storage.ScanAgreement
import HotIndex.Storage.Hits
import HotIndex.Bench.ExecuteQuery
import HotIndex.Storage.RecentFirst
import HotIndex.Storage.DecimalSums
import HotIndex.Storage.DecimalDisplay
import HotIndex.Dataset.ArtifactPaths
import HotIndex.Storage.StoredKeys
import HotIndex.Dataset.LengthPrefix
import HotIndex.Core.CanonicalAddress
import HotIndex.Ingest.FieldAliases
import HotIndex.Dataset.ManifestKeys
import HotIndex.Bench.MeasureQueries
import HotIndex.Dataset.CorpusCoverage
import HotIndex.Dataset.RecordAccount
import HotIndex.Lib.Budget
import HotIndex.Dataset.ByteBudget
import HotIndex.Dataset.StreamRetries
import HotIndex.Bench.UniformCycle
import HotIndex.Core.EnvPlaceholders
import HotIndex.Dataset.RecordKeys
import HotIndex.Dataset.AtomicWrite
import HotIndex.Dataset.Synthetic
import HotIndex.Storage.VolumeAmounts
