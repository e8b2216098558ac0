import Std.Data.TreeMap
import TieredStore.Bytes
import TieredStore.Counter

/-!
# Entries ordered by arrival

An arrival queue keeps its entries under their keys and, beside them, the list of arrivals: a
sequence number and a key for each time that an absent key came in. Removing an entry leaves its
arrival in the list, where it is *stale*: no entry has that key and that number any more. Stale
arrivals are passed over, and dropped once the list is longer than twice the capacity. What the
entries count for is added up in 64 bits.
-/

namespace TieredStore

/-- An entry of an arrival queue. -/
structure ArrivalEntry where
  value : Bytes
  /-- What the entry counts for in the queue's byte size. -/
  size : Nat
  /-- The number of the arrival that brought the key in. -/
  seq : Nat
  deriving DecidableEq, Repr

/-- Entries by key, and the order in which the keys arrived. -/
structure ArrivalQueue where
  capacity : Nat
  entries : Std.TreeMap Bytes ArrivalEntry := ∅
  /-- The arrivals, the oldest first, stale ones among them. -/
  order : List (Nat × Bytes) := []
  nextSeq : Nat := 0
  /-- Adds up the sizes of the entries. -/
  byteSize : Counter := {}

namespace ArrivalQueue

/-- An empty queue. -/
def empty (capacity : Nat) : ArrivalQueue := { capacity }

/-- Whether an arrival is the one that brought in the present entry of its key. -/
def isLive (entries : Std.TreeMap Bytes ArrivalEntry) (arrival : Nat × Bytes) : Bool :=
  entries[arrival.2]?.any fun entry => entry.seq == arrival.1

/-- The entries without the one of the oldest live arrival, the arrivals after it, and the size
that was freed; nothing if no arrival is live. -/
def splitOldest (entries : Std.TreeMap Bytes ArrivalEntry) :
    List (Nat × Bytes) → Option (Std.TreeMap Bytes ArrivalEntry × List (Nat × Bytes) × Nat)
  | [] => none
  | arrival :: rest =>
    match entries[arrival.2]? with
    | some entry =>
      if entry.seq == arrival.1 then some (entries.erase arrival.2, rest, entry.size)
      else splitOldest entries rest
    | none => splitOldest entries rest

/-- The queue without its oldest entry. Without a live arrival the stale ones go and the answer is
`false`. -/
def dropOldest (q : ArrivalQueue) : Bool × ArrivalQueue :=
  match splitOldest q.entries q.order with
  | none => (false, { q with order := [] })
  | some (entries, order, freed) =>
    (true, { q with entries, order, byteSize := q.byteSize.sub freed })

/-- Evicts while the queue holds more than its capacity, at most `fuel` times, and tells whether
an entry went. -/
def shrink : Nat → ArrivalQueue → Bool × ArrivalQueue
  | 0, q => (false, q)
  | fuel + 1, q =>
    if q.capacity < q.entries.size then
      match q.dropOldest with
      | (false, rest) => (false, rest)
      | (true, rest) => (true, (shrink fuel rest).2)
    else (false, q)

/-- Writes a value. A key that is present keeps its place; an absent one arrives at the back, and
the oldest entries go while there are too many. Tells whether an entry went. -/
def put (q : ArrivalQueue) (key value : Bytes) (size : Nat) : Bool × ArrivalQueue :=
  match q.entries[key]? with
  | some entry =>
    (false,
      { q with
        entries := q.entries.insert key { entry with value, size }
        byteSize := (q.byteSize.sub entry.size).add size })
  | none =>
    let arrived : ArrivalQueue :=
      { q with
        entries := q.entries.insert key ⟨value, size, q.nextSeq⟩
        order := q.order ++ [(q.nextSeq, key)]
        nextSeq := q.nextSeq + 1
        byteSize := q.byteSize.add size }
    arrived.shrink arrived.entries.size

/-- The queue without its stale arrivals. -/
def dropStale (q : ArrivalQueue) : ArrivalQueue :=
  { q with order := q.order.filter (isLive q.entries) }

/-- How many arrivals a removal leaves in the list: twice the capacity, in 64 bits. -/
def threshold (q : ArrivalQueue) : Nat := 2 * q.capacity % UInt64.size

/-- The queue without a key. Its arrival stays behind until the list has grown past the
threshold. -/
def remove (q : ArrivalQueue) (key : Bytes) : ArrivalQueue :=
  match q.entries[key]? with
  | none => q
  | some entry =>
    let rest : ArrivalQueue :=
      { q with entries := q.entries.erase key, byteSize := q.byteSize.sub entry.size }
    if q.threshold < q.order.length then rest.dropStale else rest

/-- The queue without entries; numbers go on. -/
def clear (q : ArrivalQueue) : ArrivalQueue :=
  { capacity := q.capacity, nextSeq := q.nextSeq }

/-- The value of a key. -/
def peek (q : ArrivalQueue) (key : Bytes) : Option Bytes :=
  q.entries[key]?.map ArrivalEntry.value

/-- Whether a key is held. -/
def has (q : ArrivalQueue) (key : Bytes) : Bool :=
  q.entries.contains key

/-- The keys, the one that arrived first at the front. -/
def keys (q : ArrivalQueue) : List Bytes :=
  (q.order.filter (isLive q.entries)).map Prod.snd

/-- How many keys are held. -/
def size (q : ArrivalQueue) : Nat :=
  q.entries.size

end ArrivalQueue

end TieredStore
