import TieredStore.Cache.Engine
import TieredStore.Cache.RecencyTable
import TieredStore.Failure

/-!
# The least-recently-used cache

Holds at most `capacity` entries and, if it has a byte budget, entries of at most that size
together. A write that exceeds a bound evicts the entries left alone for longest until the bounds
hold again; an entry larger than the whole budget evicts all others and then itself.
-/

namespace TieredStore

/-- A cache that drops what was left alone for longest. -/
structure RecencyCache where
  capacity : Nat
  /-- The most bytes held, if they are counted. -/
  budget : Option Nat
  table : RecencyTable

namespace RecencyCache

/-- The least byte budget that a cache can have. -/
def minimumBudget : Nat := 1024

/-- An empty cache bounded by its number of entries. -/
def counted (capacity : Nat) : Except Failure RecencyCache :=
  if capacity = 0 then
    .error (.invalidCacheSettings "LRU cache capacity must be greater than zero")
  else .ok ⟨capacity, none, .empty⟩

/-- An empty cache bounded by its number of entries and their bytes. The budget is looked at
first. -/
def budgeted (capacity budget : Nat) : Except Failure RecencyCache :=
  if budget < minimumBudget then .error (.budgetTooSmall budget minimumBudget)
  else (counted capacity).map ({ · with budget := some budget })

/-- Whether a table breaks one of the bounds. -/
def exceeds (c : RecencyCache) (t : RecencyTable) : Bool :=
  c.capacity < t.entries.size || c.budget.any (· < t.byteSize)

/-- Writes a value, then evicts while a bound is exceeded; every eviction shortens the order of
uses, so its length bounds their number. -/
def put (c : RecencyCache) (key value : Bytes) (size : Nat) : Bool × RecencyCache :=
  let written := c.table.insert key value size
  let (evicted, table) := written.shrink c.exceeds written.order.size
  (0 < evicted, { c with table })

/-- The value of a key, which becomes the one used last. -/
def get (c : RecencyCache) (key : Bytes) : Option Bytes × RecencyCache :=
  let (value, table) := c.table.touch key
  (value, { c with table })

/-- The value of a key; the order of uses stays. -/
def peek (c : RecencyCache) (key : Bytes) : Option Bytes :=
  c.table.entries[key]?.map RecencyEntry.value

/-- Whether a key is held. -/
def has (c : RecencyCache) (key : Bytes) : Bool :=
  c.table.entries.contains key

/-- Drops a key. -/
def remove (c : RecencyCache) (key : Bytes) : RecencyCache :=
  { c with table := c.table.remove key }

/-- Drops every key. -/
def clear (c : RecencyCache) : RecencyCache :=
  { c with table := c.table.clear }

/-- The keys, the one left alone for longest first. -/
def keys (c : RecencyCache) : List Bytes :=
  c.table.keys

/-- How many keys are held. -/
def size (c : RecencyCache) : Nat :=
  c.table.entries.size

/-- The sum of the sizes of the entries. -/
def byteSize (c : RecencyCache) : Nat :=
  c.table.byteSize

end RecencyCache

instance : CacheEngine RecencyCache where
  put := RecencyCache.put
  get := RecencyCache.get
  peek := RecencyCache.peek
  has := RecencyCache.has
  remove := RecencyCache.remove
  clear := RecencyCache.clear
  keys := RecencyCache.keys
  size := RecencyCache.size
  byteSize := RecencyCache.byteSize
  capacity := RecencyCache.capacity

end TieredStore
