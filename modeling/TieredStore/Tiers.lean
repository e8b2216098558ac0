import TieredStore.Backing.Store
import TieredStore.Cache.Engine

/-!
# A cache in front of a backing store

The two tiers are kept coherent: whatever the cache holds for a key is what the store holds. So a
write goes to both and is taken back from the cache when the store refuses it, a read that the
cache cannot answer brings the value in, and removing, closing and destroying empty the cache
before the store is asked.

A read has two sections, between which other operations may come in: `lookup` asks the cache, and
only if it misses does `fetch` ask again, and then the store. `get` is the two in a row.
-/

namespace TieredStore

/-- A cache and the backing store behind it. -/
structure Tiers (κ σ : Type) where
  cache : κ
  store : σ
  /-- Whether the stored data was destroyed through these tiers. -/
  destroyed : Bool := false

/-- What the cache of some tiers holds at one moment. -/
structure TierStats where
  entries : Nat
  /-- The bytes of the cached values. -/
  bytes : Nat
  /-- How many keys the cache was set up to hold. -/
  capacity : Nat
  deriving DecidableEq, Repr

namespace Tiers

variable {κ σ : Type} [CacheEngine κ] [BackingStore σ]

/-- Writes a value. When the store refuses it, the key leaves the cache. -/
def put (t : Tiers κ σ) (key value : Bytes) : Except Failure Unit × Tiers κ σ :=
  if t.destroyed then (.error .destroyed, t)
  else
    let cache := (CacheEngine.put t.cache key value value.length).2
    match BackingStore.put t.store key value with
    | (.ok (), store) => (.ok (), { t with cache, store })
    | (.error failure, store) =>
      (.error failure, { t with cache := CacheEngine.remove cache key, store })

/-- The first section of a read: what the cache holds for a key. -/
def lookup (t : Tiers κ σ) (key : Bytes) : Except Failure (Option Bytes) × Tiers κ σ :=
  if t.destroyed then (.error .destroyed, t)
  else
    let (value, cache) := CacheEngine.get t.cache key
    (.ok value, { t with cache })

/-- The second section of a read: the cache is asked once more, and only then the store, whose
value is brought into the cache. -/
def fetch (t : Tiers κ σ) (key : Bytes) : Except Failure Bytes × Tiers κ σ :=
  match t.lookup key with
  | (.error failure, t) => (.error failure, t)
  | (.ok (some value), t) => (.ok value, t)
  | (.ok none, t) =>
    match BackingStore.get t.store key with
    | (.error failure, store) => (.error failure, { t with store })
    | (.ok value, store) =>
      let cache := (CacheEngine.put t.cache key value value.length).2
      (.ok value, { t with cache, store })

/-- Reads a value. -/
def get (t : Tiers κ σ) (key : Bytes) : Except Failure Bytes × Tiers κ σ :=
  match t.lookup key with
  | (.error failure, t) => (.error failure, t)
  | (.ok (some value), t) => (.ok value, t)
  | (.ok none, t) => t.fetch key

/-- Reads the values of many keys in turn, leaving out those that cannot be read. -/
def getMany (t : Tiers κ σ) : List Bytes → List (Bytes × Bytes) × Tiers κ σ
  | [] => ([], t)
  | key :: rest =>
    match t.get key with
    | (.ok value, t) => (t.getMany rest).map ((key, value) :: ·) id
    | (.error _, t) => t.getMany rest

/-- Succeeds if something is stored under a key; the store is asked only when the cache does not
hold it. -/
def has (t : Tiers κ σ) (key : Bytes) : Except Failure Unit × Tiers κ σ :=
  if t.destroyed then (.error .destroyed, t)
  else if CacheEngine.has t.cache key then (.ok (), t)
  else (BackingStore.has t.store key).map id ({ t with store := · })

/-- Removes what is stored under a key. -/
def remove (t : Tiers κ σ) (key : Bytes) : Except Failure Unit × Tiers κ σ :=
  if t.destroyed then (.error .destroyed, t)
  else
    let cache := CacheEngine.remove t.cache key
    (BackingStore.remove t.store key).map id ({ t with cache, store := · })

/-- Empties the cache; the stored data stays. -/
def clearCache (t : Tiers κ σ) : Tiers κ σ :=
  { t with cache := CacheEngine.clear t.cache }

/-- Destroys the stored data for good. -/
def destroy (t : Tiers κ σ) : Except Failure Unit × Tiers κ σ :=
  if t.destroyed then (.error .destroyed, t)
  else
    let cache := CacheEngine.clear t.cache
    match BackingStore.destroy t.store with
    | (.ok (), store) => (.ok (), { t with cache, store, destroyed := true })
    | (.error failure, store) => (.error failure, { t with cache, store })

/-- Closes the store. Destroyed tiers can be closed too. -/
def close (t : Tiers κ σ) : Except Failure Unit × Tiers κ σ :=
  let cache := CacheEngine.clear t.cache
  (BackingStore.close t.store).map id ({ t with cache, store := · })

/-- Walks over the stored pairs as they are now, until the visitor answers `false`. The visitor
may use the tiers while it is walking. -/
def walk {τ : Type} (t : Tiers κ σ)
    (visit : Bytes × Bytes → Tiers κ σ × τ → Bool × Tiers κ σ × τ) (start : τ) : Tiers κ σ × τ :=
  if t.destroyed then (t, start)
  else
    let (pairs, store) := BackingStore.snapshot t.store
    visitWhile visit pairs ({ t with store }, start)

/-- The oldest epoch that is kept: none, as data is not kept by epoch. -/
def oldestEpoch (_ : Tiers κ σ) : Except Failure Nat :=
  .error .noOldestEpoch

/-- Writes a value in an epoch, which makes no difference. -/
def putInEpoch (t : Tiers κ σ) (key value : Bytes) (_epoch : Nat) :
    Except Failure Unit × Tiers κ σ :=
  t.put key value

/-- Reads a value from an epoch, which makes no difference. -/
def getFromEpoch (t : Tiers κ σ) (key : Bytes) (_epoch : Nat) : Except Failure Bytes × Tiers κ σ :=
  t.get key

/-- Reads many values from an epoch, which makes no difference. It never fails. -/
def getManyFromEpoch (t : Tiers κ σ) (keys : List Bytes) (_epoch : Nat) :
    Except Failure (List (Bytes × Bytes)) × Tiers κ σ :=
  (t.getMany keys).map .ok id

/-- Reads a value from the first epoch that has it, which is the only one. -/
def searchFirst (t : Tiers κ σ) (key : Bytes) : Except Failure Bytes × Tiers κ σ :=
  t.get key

/-- Removes what is stored under a key in the current epoch, which is the only one. -/
def removeFromCurrentEpoch (t : Tiers κ σ) (key : Bytes) : Except Failure Unit × Tiers κ σ :=
  t.remove key

/-- Whether a key is cached; asking is not a use. -/
def isCached (t : Tiers κ σ) (key : Bytes) : Bool :=
  CacheEngine.has t.cache key

/-- The cached keys, those that go first at the front. -/
def cachedKeys (t : Tiers κ σ) : List Bytes :=
  CacheEngine.keys t.cache

/-- What the cache holds now. -/
def stats (t : Tiers κ σ) : TierStats :=
  ⟨CacheEngine.size t.cache, CacheEngine.byteSize t.cache, CacheEngine.capacity t.cache⟩

/-- The tiers in one line. -/
def describe (t : Tiers κ σ) : String :=
  "StorageUnit \x7b cached_entries: " ++ toString t.stats.entries ++
    ", max_cached_entries: " ++ toString t.stats.capacity ++
    ", destroyed: " ++ toString t.destroyed ++ " \x7d"

end Tiers

end TieredStore
