import TieredStore.Cache.Engine

/-!
# A cache that overlooks entries

Between the two looks that a read takes at the cache, other operations may come in. `Overlooking`
stands for that: for a given number of reads it reports a miss without asking the cache behind it,
and otherwise it is that cache.
-/

namespace TieredStore

/-- A cache whose next `misses` reads find nothing. -/
structure Overlooking (κ : Type) where
  cache : κ
  /-- How many reads are still overlooked. -/
  misses : Nat := 0

namespace Overlooking

variable {κ : Type}

/-- The same cache overlooking a given number of reads. -/
def overlook (c : Overlooking κ) (misses : Nat) : Overlooking κ :=
  { c with misses }

instance [CacheEngine κ] : CacheEngine (Overlooking κ) where
  put c key value size :=
    (CacheEngine.put c.cache key value size).map id ({ c with cache := · })
  get c key :=
    match c.misses with
    | misses + 1 => (none, { c with misses })
    | 0 => (CacheEngine.get c.cache key).map id ({ c with cache := · })
  peek c := CacheEngine.peek c.cache
  has c := CacheEngine.has c.cache
  remove c key := { c with cache := CacheEngine.remove c.cache key }
  clear c := { c with cache := CacheEngine.clear c.cache }
  keys c := CacheEngine.keys c.cache
  size c := CacheEngine.size c.cache
  byteSize c := CacheEngine.byteSize c.cache
  capacity c := CacheEngine.capacity c.cache

end Overlooking

end TieredStore
