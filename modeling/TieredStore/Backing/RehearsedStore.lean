import TieredStore.Backing.MemoryStore

/-!
# A store for rehearsing failures

A store in memory whose calls are counted and recorded, and any of which can be made to fail by a
schedule. A call that fails leaves the pairs as they were. The tiers in front of such a store show
what they do when the store lets them down, and how often they ask it.
-/

namespace TieredStore

/-- The calls that a backing store takes. -/
inductive StoreCall
  | put
  | get
  | has
  | remove
  | snapshot
  | close
  | destroy
  deriving DecidableEq, Repr

/-- A store in memory with a schedule of failures and a record of calls. -/
structure RehearsedStore where
  memory : MemoryStore := {}
  /-- The failure of a call, given how many calls came before it. -/
  schedule : Nat → StoreCall → Option Failure := fun _ _ => none
  calls : List StoreCall := []

namespace RehearsedStore

/-- The store with one more call recorded. -/
def record (s : RehearsedStore) (call : StoreCall) : RehearsedStore :=
  { s with calls := s.calls ++ [call] }

/-- Makes a call: it is recorded, and either fails as scheduled or is passed on. -/
def perform {α : Type} (s : RehearsedStore) (call : StoreCall)
    (passOn : MemoryStore → Except Failure α × MemoryStore) : Except Failure α × RehearsedStore :=
  match s.schedule s.calls.length call with
  | some failure => (.error failure, s.record call)
  | none => (passOn s.memory).map id ({ s.record call with memory := · })

/-- The same store, one kind of call failing from now on, or no longer. -/
def failing (s : RehearsedStore) (call : StoreCall) (failure : Option Failure) : RehearsedStore :=
  { s with schedule := fun count other => if other = call then failure else s.schedule count other }

end RehearsedStore

instance : BackingStore RehearsedStore where
  put s key value := s.perform .put (·.put key value)
  get s key := s.perform .get fun memory => (memory.get key, memory)
  has s key := s.perform .has fun memory => (memory.has key, memory)
  remove s key := s.perform .remove (·.remove key)
  snapshot s := (s.memory.snapshot, s.record .snapshot)
  close s := s.perform .close fun memory => (.ok (), memory.close)
  destroy s := s.perform .destroy fun memory => (.ok (), memory.destroy)

end TieredStore
