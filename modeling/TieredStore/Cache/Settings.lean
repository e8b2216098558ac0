import TieredStore.Failure
import TieredStore.Text.Quoted

/-!
# Cache settings

The policy of a cache and its bounds, as settings give them. Nothing here is checked against
anything else; a cache built from the settings does that.
-/

namespace TieredStore

/-- The policy of a cache. -/
inductive CacheKind
  /-- Least recently used, bounded by the number of entries. -/
  | counted
  /-- Least recently used, bounded by the number of entries and their bytes. -/
  | budgeted
  /-- First in, first out, over shards. -/
  | sharded
  deriving DecidableEq, Repr

namespace CacheKind

/-- The policy's name. -/
def name : CacheKind → String
  | counted => "LRU"
  | budgeted => "SizeLRU"
  | sharded => "FIFOSharded"

/-- All policies. -/
def all : List CacheKind := [counted, budgeted, sharded]

/-- The policy of a name, which is taken to the letter. -/
def ofName (name : String) : Except Failure CacheKind :=
  match all.find? fun kind => kind.name == name with
  | some kind => .ok kind
  | none => .error (.unknownCacheKind name)

instance : Inhabited CacheKind := ⟨counted⟩

end CacheKind

/-- What a cache is built from. -/
structure CacheSettings where
  name : String := ""
  kind : CacheKind := default
  /-- The most bytes held; zero where bytes are not counted. -/
  byteBudget : Nat := 0
  /-- The most bytes held for one sender, for caches that tell senders apart. -/
  byteBudgetPerSender : Nat := 0
  capacity : Nat := 1000
  /-- The most entries held for one sender, for caches that tell senders apart. -/
  capacityPerSender : Nat := 0
  shards : Nat := 1
  deriving DecidableEq, Repr

/-- The settings in one line, the name in quotes. -/
def CacheSettings.describe (s : CacheSettings) : String :=
  "\x7bname: " ++ Text.quote s.name ++
    ", type: " ++ s.kind.name ++
    ", size_in_bytes: " ++ toString s.byteBudget ++
    ", size_in_bytes_per_sender: " ++ toString s.byteBudgetPerSender ++
    ", capacity: " ++ toString s.capacity ++
    ", size_per_sender: " ++ toString s.capacityPerSender ++
    ", shards: " ++ toString s.shards ++ "\x7d"

end TieredStore
