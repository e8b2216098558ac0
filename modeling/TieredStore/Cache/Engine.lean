import TieredStore.Bytes

/-!
# What every cache can do

A cache maps keys to values and may drop any of them to keep its bounds. `CacheEngine` lists the
operations that the tiers ask of one; each takes the cache before the call and gives the answer
with the cache after it.

A put value need not be held afterwards: a cache with a byte budget drops a value that is larger
than the whole budget.
-/

namespace TieredStore

/-- The operations of a cache of type `κ`. -/
class CacheEngine (κ : Type) where
  /-- Writes a value with its size and tells whether an entry was evicted for it. -/
  put : κ → Bytes → Bytes → Nat → Bool × κ
  /-- The value of a key. A cache that orders its entries by use counts this as one. -/
  get : κ → Bytes → Option Bytes × κ
  /-- The value of a key, which is not a use. -/
  peek : κ → Bytes → Option Bytes
  /-- Whether a key is held, which is not a use. -/
  has : κ → Bytes → Bool
  remove : κ → Bytes → κ
  clear : κ → κ
  /-- The keys held, those that go first at the front. -/
  keys : κ → List Bytes
  size : κ → Nat
  byteSize : κ → Nat
  /-- How many keys the cache was set up to hold. -/
  capacity : κ → Nat

end TieredStore
