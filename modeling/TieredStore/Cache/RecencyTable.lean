import Std.Data.TreeMap
import TieredStore.Bytes

/-!
# Entries ordered by their last use

A recency table keeps its entries under their keys and, beside them, the keys under the *tick* of
their last use. Every use takes a fresh tick, so the order of the ticks is the order of the last
uses, and the key under the least tick is the one that was left alone for longest.

The two maps are inverse to each other, and `byteSize` is the sum of the sizes of the entries. The
sum is kept exactly: what becomes of sizes that come to more than 64 bits hold is left out here.
-/

namespace TieredStore

/-- An entry of a recency table. -/
structure RecencyEntry where
  value : Bytes
  /-- What the entry counts for in the table's byte size. -/
  size : Nat
  /-- When the entry was used last. -/
  tick : Nat
  deriving DecidableEq, Repr

/-- Entries by key, and keys by last use. -/
structure RecencyTable where
  entries : Std.TreeMap Bytes RecencyEntry := ∅
  /-- The key under the tick of its last use. -/
  order : Std.TreeMap Nat Bytes := ∅
  nextTick : Nat := 0
  /-- The sum of the sizes of the entries. -/
  byteSize : Nat := 0

namespace RecencyTable

/-- The table without entries. -/
def empty : RecencyTable := {}

/-- An order with the key under one tick moved to another; as it is, if no key is under the tick. -/
def moveTick (order : Std.TreeMap Nat Bytes) (tick next : Nat) : Std.TreeMap Nat Bytes :=
  match order[tick]? with
  | none => order
  | some key => (order.erase tick).insert next key

/-- The value of a key, which becomes the one used last. A tick is taken even when the key is
absent. -/
def touch (t : RecencyTable) (key : Bytes) : Option Bytes × RecencyTable :=
  match t.entries[key]? with
  | none => (none, { t with nextTick := t.nextTick + 1 })
  | some entry =>
    (some entry.value,
      { t with
        entries := t.entries.insert key { entry with tick := t.nextTick }
        order := moveTick t.order entry.tick t.nextTick
        nextTick := t.nextTick + 1 })

/-- The table without a key. -/
def remove (t : RecencyTable) (key : Bytes) : RecencyTable :=
  match t.entries[key]? with
  | none => t
  | some entry =>
    { t with
      entries := t.entries.erase key
      order := t.order.erase entry.tick
      byteSize := t.byteSize - entry.size }

/-- The table with a key written; it becomes the one used last. -/
def insert (t : RecencyTable) (key value : Bytes) (size : Nat) : RecencyTable :=
  let rest := t.remove key
  { entries := rest.entries.insert key ⟨value, size, t.nextTick⟩
    order := rest.order.insert t.nextTick key
    nextTick := t.nextTick + 1
    byteSize := rest.byteSize + size }

/-- The key left alone for longest, under its tick. -/
def oldest? (t : RecencyTable) : Option (Nat × Bytes) := do
  let tick ← t.order.minKey?
  let key ← t.order[tick]?
  some (tick, key)

/-- The table without the key left alone for longest, if there is one. -/
def dropOldest (t : RecencyTable) : Option RecencyTable :=
  t.oldest?.map fun (tick, key) =>
    let size := (t.entries[key]?.map RecencyEntry.size).getD 0
    { t with
      entries := t.entries.erase key
      order := t.order.erase tick
      byteSize := t.byteSize - size }

/-- The table without entries; ticks go on. -/
def clear (t : RecencyTable) : RecencyTable :=
  { nextTick := t.nextTick }

/-- The keys, the one left alone for longest first. -/
def keys (t : RecencyTable) : List Bytes :=
  t.order.toList.map Prod.snd

/-- Evicts the oldest key again and again while a bound is exceeded, at most `fuel` times, and
tells how many keys went. -/
def shrink (exceeds : RecencyTable → Bool) : Nat → RecencyTable → Nat × RecencyTable
  | 0, t => (0, t)
  | fuel + 1, t =>
    if exceeds t then
      match t.dropOldest with
      | none => (0, t)
      | some rest =>
        let (evicted, final) := shrink exceeds fuel rest
        (evicted + 1, final)
    else (0, t)

end RecencyTable

end TieredStore
