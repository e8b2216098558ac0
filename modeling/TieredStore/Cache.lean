import TieredStore.Cache.RecencyCache
import TieredStore.Cache.Settings
import TieredStore.Cache.ShardedCache
import TieredStore.CapacityLedger
import TieredStore.Digest.SipHash

/-!
# Caches by their settings

The cache that settings describe, of whichever policy. Settings that contradict themselves are
refused before a cache exists, and only a cache that does exist is entered in the ledger.
-/

namespace TieredStore

/-- A cache of one of the policies. -/
inductive Cache
  /-- Least recently used, with or without a byte budget. -/
  | lru (cache : RecencyCache)
  /-- First in, first out, over shards. -/
  | fifo (cache : ShardedCache)

namespace Cache

/-- The empty cache that the settings describe. A cache that counts entries only takes no byte
budget; that is looked at before its capacity. -/
def ofSettings (settings : CacheSettings) : Except Failure Cache :=
  match settings.kind with
  | .counted =>
    if settings.byteBudget ≠ 0 then .error .budgetOnCountedCache
    else (RecencyCache.counted settings.capacity).map lru
  | .budgeted => (RecencyCache.budgeted settings.capacity settings.byteBudget).map lru
  | .sharded =>
    (ShardedCache.build Digest.SipHash.ofKey settings.capacity settings.shards).map fifo

/-- Builds the cache that the settings describe and, if there is one, enters its byte budget. -/
def build (settings : CacheSettings) (ledger : CapacityLedger) :
    Except Failure Cache × CapacityLedger :=
  match ofSettings settings with
  | .error failure => (.error failure, ledger)
  | .ok cache => (.ok cache, ledger.enter settings.byteBudget)

end Cache

instance : CacheEngine Cache where
  put
    | .lru c, key, value, size => (c.put key value size).map id .lru
    | .fifo c, key, value, size => (c.put key value size).map id .fifo
  get
    | .lru c, key => (c.get key).map id .lru
    | .fifo c, key => (c.get key).map id .fifo
  peek
    | .lru c, key => c.peek key
    | .fifo c, key => c.peek key
  has
    | .lru c, key => c.has key
    | .fifo c, key => c.has key
  remove
    | .lru c, key => .lru (c.remove key)
    | .fifo c, key => .fifo (c.remove key)
  clear
    | .lru c => .lru c.clear
    | .fifo c => .fifo c.clear
  keys
    | .lru c => c.keys
    | .fifo c => c.keys
  size
    | .lru c => c.size
    | .fifo c => c.size
  byteSize
    | .lru c => c.byteSize
    | .fifo c => c.byteSize
  capacity
    | .lru c => c.capacity
    | .fifo c => c.capacity

end TieredStore
