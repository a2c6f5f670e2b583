import HotIndex.Storage.MemoryEngine
import HotIndex.Storage.RocksDbEngine

/-!
# The Trait

`trait StorageEngine` (`engine.rs`) as its callers see it: the answers that an engine in a
given state gives to every query, and its write operations in one monad. An engine that is
only used through the trait is known by these alone.
-/

namespace HotIndex

open Lib

/-- The read methods of `StorageEngine` in one state of an engine. -/
structure StorageReads where
  getTx : UInt64 → Except Fault (Option TxRow)
  multiGetTxs : List UInt64 → Except Fault (List (Option TxRow))
  getOrder : String → Except Fault (Option OrderRow)
  getPositionsByAccount : String → Except Fault (List PositionRow)
  scanMarketFills : String → Limit → Except Fault (List FillRow)
  scanAccountFills : String → Limit → Except Fault (List FillRow)
  scanBuilderCodeFills : String → Limit → Except Fault (List BuilderAttributionRow)
  getBuilderCodeVolume : String → TimeWindow → Except Fault (Option BuilderVolumeRow)
  scanMarketActivity : String → Limit → Except Fault (List ActivityRow)
  checksums : Except Fault (List CfChecksum)

/-- A write operation on an engine with state `σ`. -/
abbrev EngineM (σ : Type) := ExceptT Fault (StateM σ)

/-- `put_*` of `MemoryEngine`: it changes the state and returns `Ok`. -/
def MemoryEngine.putM (op : PutOp) : EngineM MemoryEngine Unit :=
  modify (fun inner => inner.put op)

section Reads

variable (json : SerdeJson) (sha256 : Bytes → Bytes)

/-- The queries of `MemoryEngine` return `Ok`, apart from the volume and the checksums. -/
def MemoryEngine.reads (inner : MemoryEngine) : StorageReads where
  getTx := fun version => .ok (inner.getTx version)
  multiGetTxs := fun versions => .ok (inner.multiGetTxs versions)
  getOrder := fun orderId => .ok (inner.getOrder orderId)
  getPositionsByAccount := fun account => .ok (inner.getPositionsByAccount account)
  scanMarketFills := fun marketId limit => .ok (inner.scanMarketFills marketId limit)
  scanAccountFills := fun account limit => .ok (inner.scanAccountFills account limit)
  scanBuilderCodeFills := fun builderAddr limit =>
    .ok (inner.scanBuilderCodeFills builderAddr limit)
  getBuilderCodeVolume := inner.getBuilderCodeVolume
  scanMarketActivity := fun marketId limit => .ok (inner.scanMarketActivity marketId limit)
  checksums := inner.checksums json sha256

def RocksDb.reads (db : RocksDb) : StorageReads where
  getTx := db.getTx json
  multiGetTxs := db.multiGetTxs json
  getOrder := db.getOrder json
  getPositionsByAccount := db.getPositionsByAccount json
  scanMarketFills := db.scanMarketFills json
  scanAccountFills := db.scanAccountFills json
  scanBuilderCodeFills := db.scanBuilderCodeFills json
  getBuilderCodeVolume := db.getBuilderCodeVolume json
  scanMarketActivity := db.scanMarketActivity json
  checksums := .ok (db.checksums sha256)

end Reads

end HotIndex
