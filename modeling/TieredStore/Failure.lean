import TieredStore.Bytes

/-!
# Failures

Every way in which an operation of the library can fail, as a cause with its data. The wording of
a cause is `Failure.message` and nothing else; `Failure.isConfiguration` tells the causes that lie
in the settings, which no retry can mend, from those that arise while running.
-/

namespace TieredStore

/-- Why an operation failed. -/
inductive Failure
  /-- No cache policy has this name. -/
  | unknownCacheKind (name : String)
  /-- No kind of backing store has this name, or none of that kind can be opened. -/
  | unknownStoreKind (name : String)
  /-- No digest algorithm has this name. -/
  | unknownDigest (name : String)
  /-- A byte budget was given to a cache that counts entries only. -/
  | budgetOnCountedCache
  /-- The byte budget of a cache is below the least one. -/
  | budgetTooSmall (provided minimum : Nat)
  | invalidCacheSettings (reason : String)
  /-- A batch of the backing store would not fit into the cache. -/
  | batchOverCapacity (batch capacity : Nat)
  | keyNotFound (key : Bytes)
  | storeClosed
  | destroyed
  /-- No epoch is kept, so there is no oldest one. -/
  | noOldestEpoch
  /-- The key has no bytes. -/
  | emptyKey
  /-- The backing store could not read or write. -/
  | io (cause : String)
  /-- The engine of the backing store failed. -/
  | backend (cause : String)
  deriving DecidableEq, Repr

namespace Failure

/-- The wording of a failure; a missing key is shown in hexadecimal. -/
def message : Failure → String
  | unknownCacheKind name => "not supported cache type: " ++ name
  | unknownStoreKind name => "not supported db type: " ++ name
  | unknownDigest name => "hash type not supported: " ++ name
  | budgetOnCountedCache => "LRU cache does not support size in bytes"
  | budgetTooSmall provided minimum =>
    "invalid size for LRU cache: provided " ++ toString provided ++ ", minimum " ++
      toString minimum
  | invalidCacheSettings reason => "invalid cache config: " ++ reason
  | batchOverCapacity batch capacity =>
    "cache size is lower than batch size: batch " ++ toString batch ++ ", capacity " ++
      toString capacity
  | keyNotFound key => "key not found: " ++ Bytes.hex key
  | storeClosed => "database is closed"
  | destroyed => "storage unit was destroyed"
  | noOldestEpoch => "oldest epoch not available"
  | emptyKey => "empty key"
  | io cause => "persister I/O error: " ++ cause
  | backend cause => "persister backend error: " ++ cause

/-- Whether the cause lies in the settings: trying again with the same settings fails again. -/
def isConfiguration : Failure → Bool
  | unknownCacheKind _ | unknownStoreKind _ | unknownDigest _ | budgetOnCountedCache
  | budgetTooSmall .. | invalidCacheSettings _ | batchOverCapacity .. => true
  | keyNotFound _ | storeClosed | destroyed | noOldestEpoch | emptyKey | io _ | backend _ => false

end Failure

end TieredStore
