import TieredStore.Cache.ArrivalQueue
import TieredStore.Cache.Engine
import TieredStore.Failure

/-!
# The sharded first-in-first-out cache

The keys are spread over shards by a fixed function of the key, and each shard is an arrival queue
with an equal part of the capacity. A shard evicts in the order in which its own keys arrived;
reading changes nothing.
-/

namespace TieredStore

/-- A cache of independent arrival queues. -/
structure ShardedCache where
  /-- The number of entries asked for. -/
  capacity : Nat
  /-- The hash that places the keys. -/
  hash : Bytes → UInt64
  shards : List ArrivalQueue

namespace ShardedCache

/-- An empty cache. Each of the shards holds the whole part of `capacity / shards` entries, so
together they never hold more than `capacity`. -/
def build (hash : Bytes → UInt64) (capacity shards : Nat) : Except Failure ShardedCache :=
  if shards = 0 then
    .error (.invalidCacheSettings "number of shards must be greater than zero")
  else if capacity < shards then
    .error (.invalidCacheSettings ("capacity " ++ toString capacity ++
      " is lower than the number of shards " ++ toString shards))
  else .ok ⟨capacity, hash, List.replicate shards (.empty (capacity / shards))⟩

/-- The place of a key's shard. -/
def place (c : ShardedCache) (key : Bytes) : Nat :=
  (c.hash key).toNat % c.shards.length

/-- The shard of a key. -/
def shard? (c : ShardedCache) (key : Bytes) : Option ArrivalQueue :=
  c.shards[c.place key]?

/-- Writes a value into the shard of its key. -/
def put (c : ShardedCache) (key value : Bytes) (size : Nat) : Bool × ShardedCache :=
  match c.shard? key with
  | none => (false, c)
  | some shard =>
    let (evicted, shard) := shard.put key value size
    (evicted, { c with shards := c.shards.set (c.place key) shard })

/-- The value of a key. -/
def peek (c : ShardedCache) (key : Bytes) : Option Bytes :=
  (c.shard? key).bind (·.peek key)

/-- The value of a key; reading is not a use. -/
def get (c : ShardedCache) (key : Bytes) : Option Bytes × ShardedCache :=
  (c.peek key, c)

/-- Whether a key is held. -/
def has (c : ShardedCache) (key : Bytes) : Bool :=
  (c.shard? key).any (·.has key)

/-- Drops a key. -/
def remove (c : ShardedCache) (key : Bytes) : ShardedCache :=
  { c with shards := c.shards.modify (c.place key) (·.remove key) }

/-- Drops every key. -/
def clear (c : ShardedCache) : ShardedCache :=
  { c with shards := c.shards.map ArrivalQueue.clear }

/-- The keys of the first shard in the order of their arrival, then those of the next. -/
def keys (c : ShardedCache) : List Bytes :=
  c.shards.flatMap ArrivalQueue.keys

/-- How many keys are held. -/
def size (c : ShardedCache) : Nat :=
  c.shards.foldr (fun shard total => shard.size + total) 0

/-- Adds up what the shards have counted. -/
def counter (c : ShardedCache) : Counter :=
  c.shards.foldr (fun shard total => shard.byteSize.plus total) {}

/-- The sum of the sizes of the entries, as far as 64 bits tell it. -/
def byteSize (c : ShardedCache) : Nat := c.counter.read

end ShardedCache

instance : CacheEngine ShardedCache where
  put := ShardedCache.put
  get := ShardedCache.get
  peek := ShardedCache.peek
  has := ShardedCache.has
  remove := ShardedCache.remove
  clear := ShardedCache.clear
  keys := ShardedCache.keys
  size := ShardedCache.size
  byteSize := ShardedCache.byteSize
  capacity := ShardedCache.capacity

end TieredStore
