import Std.Data.TreeMap
import TieredStore.Backing.Store

/-!
# The store in memory

A map of pairs. A closed store refuses everything but another close or its destruction, and a walk
over it sees nothing; the pairs are still counted.

The order in which a walk goes through the pairs is not the store's to choose. It is an
`Enumeration`, which a store comes with; theorems may count on every pair being there, and on no
more. Unless it matters, it is the order of the keys.
-/

namespace TieredStore

/-- An order in which a table goes through its pairs, whichever they are. -/
structure Enumeration where
  /-- The pairs of a table, given in the order of the keys, as the table goes through them. -/
  arrange : List (Bytes × Bytes) → List (Bytes × Bytes)
  perm : ∀ pairs, (arrange pairs).Perm pairs

/-- The order of the keys. -/
def Enumeration.byKey : Enumeration := ⟨id, List.Perm.refl⟩

/-- A store that lasts as long as the program. -/
structure MemoryStore where
  pairs : Std.TreeMap Bytes Bytes := ∅
  /-- Whether the store was closed or destroyed. -/
  closed : Bool := false
  /-- How a walk goes through the pairs. -/
  order : Enumeration := .byKey

namespace MemoryStore

/-- The open store without pairs. -/
def empty : MemoryStore := {}

/-- How many pairs are stored. -/
def size (s : MemoryStore) : Nat := s.pairs.size

/-- Stores a value under a key. -/
def put (s : MemoryStore) (key value : Bytes) : Except Failure Unit × MemoryStore :=
  if s.closed then (.error .storeClosed, s)
  else (.ok (), { s with pairs := s.pairs.insert key value })

/-- The value under a key. -/
def get (s : MemoryStore) (key : Bytes) : Except Failure Bytes :=
  if s.closed then .error .storeClosed
  else match s.pairs[key]? with
    | some value => .ok value
    | none => .error (.keyNotFound key)

/-- Succeeds if something is stored under a key. -/
def has (s : MemoryStore) (key : Bytes) : Except Failure Unit :=
  if s.closed then .error .storeClosed
  else if s.pairs.contains key then .ok ()
  else .error (.keyNotFound key)

/-- Removes what is stored under a key; an absent key is no failure. -/
def remove (s : MemoryStore) (key : Bytes) : Except Failure Unit × MemoryStore :=
  if s.closed then (.error .storeClosed, s)
  else (.ok (), { s with pairs := s.pairs.erase key })

/-- All pairs, as they are enumerated; none once the store is closed. -/
def snapshot (s : MemoryStore) : List (Bytes × Bytes) :=
  if s.closed then [] else s.order.arrange s.pairs.toList

/-- Ends the use of the store. -/
def close (s : MemoryStore) : MemoryStore :=
  { s with closed := true }

/-- Ends the use of the store and drops its pairs. -/
def destroy (s : MemoryStore) : MemoryStore :=
  { s with pairs := ∅, closed := true }

end MemoryStore

instance : BackingStore MemoryStore where
  put := MemoryStore.put
  get s key := (s.get key, s)
  has s key := (s.has key, s)
  remove := MemoryStore.remove
  snapshot s := (s.snapshot, s)
  close s := (.ok (), s.close)
  destroy s := (.ok (), s.destroy)

end TieredStore
