import TieredStore.Proofs.Cache.Calls
import TieredStore.Proofs.Cache.Shards

/-!
# A cache of one shard

With one shard every key has the same place, so a sharded cache is its only queue, and that is an
arrival list.

**The law** (`ShardedCache.answers_of_arrivalList`): a sharded cache of one shard gives the answers
of the list of its capacity to every sequence of calls. The arrivals that removed entries leave
behind, and the moment at which they are dropped, are never seen: a key that comes in again enters
at the end, whatever was left of it in the queue. The byte size is the one answer for which the
sizes have to stay within the 64 bits in which they are counted (`ArrivalList.Countable`).
-/

namespace TieredStore.ShardedCache

variable {c : ShardedCache} {l : ArrivalList}

/-- A cache of one shard, its queue settled, that reads as a list. -/
structure Reads (c : ShardedCache) (l : ArrivalList) : Prop where
  single : ∃ q : ArrivalQueue, c.shards = [q] ∧ q.Settled ∧ q.view = l
  capacity : c.capacity = l.capacity

/-! ## The only shard -/

section Single

variable {q : ArrivalQueue}

/-- Whatever the hash, there is one place only. -/
theorem place_of_single (h : c.shards = [q]) (key : Bytes) : c.place key = 0 := by
  rw [place, h]
  exact Nat.mod_one _

theorem shard?_of_single (h : c.shards = [q]) (key : Bytes) : c.shard? key = some q := by
  rw [shard?, place_of_single h, h]
  rfl

/-- So every change is a change to the only shard. -/
theorem shards_update_of_single (h : c.shards = [q]) (key : Bytes)
    (change : ArrivalQueue → ArrivalQueue) : (c.update key change).shards = [change q] := by
  rw [update, place_of_single h, h]
  rfl

theorem keys_of_single (h : c.shards = [q]) : c.keys = q.keys := by
  rw [keys, h, List.flatMap_singleton]

theorem size_of_single (h : c.shards = [q]) : c.size = q.size := by
  rw [size, h]
  rfl

/-- Adding up over one shard is no addition; it cannot wrap. -/
theorem counter_of_single (h : c.shards = [q]) : c.counter = q.byteSize := by
  rw [counter, h]
  exact q.byteSize.plus_zero

theorem byteSize_of_single (h : c.shards = [q]) : c.byteSize = q.byteSize.read := by
  rw [byteSize, counter_of_single h]

end Single

/-! ## The calls -/

/-- A write evicts from the cache just when it evicts from the list. -/
theorem Reads.put (h : c.Reads l) (key value : Bytes) (size : Nat) :
    (c.put key value size).1 = (l.put key value size).1 ∧
      (c.put key value size).2.Reads (l.put key value size).2 := by
  obtain ⟨⟨q, hq, hsettled, rfl⟩, hcapacity⟩ := h
  obtain ⟨hevicted, hsettled', hview⟩ := hsettled.put key value size
  rw [put_eq, shard?_of_single hq]
  refine ⟨hevicted, ⟨_, shards_update_of_single hq key _, hsettled', hview⟩, ?_⟩
  exact hcapacity.trans (q.view.capacity_put key value size).symm

/-- The arrival that stays behind is not seen. -/
theorem Reads.remove (h : c.Reads l) (key : Bytes) :
    (c.remove key).Reads { l with entries := l.entries.without key } := by
  obtain ⟨⟨q, hq, hsettled, rfl⟩, hcapacity⟩ := h
  obtain ⟨hsettled', hview⟩ := hsettled.remove key
  exact ⟨⟨_, shards_update_of_single hq key _, hsettled', hview⟩, hcapacity⟩

/-- The numbers of the arrivals go on, which is not seen either. -/
theorem Reads.clear (h : c.Reads l) : c.clear.Reads { l with entries := [] } := by
  obtain ⟨⟨q, hq, _, rfl⟩, hcapacity⟩ := h
  refine ⟨⟨q.clear, ?_, q.settled_clear, rfl⟩, hcapacity⟩
  rw [ShardedCache.clear, hq]
  rfl

/-- Values are looked up in the list. -/
theorem Reads.peek_eq (h : c.Reads l) (key : Bytes) : c.peek key = l.entries.value key := by
  obtain ⟨⟨q, hq, hsettled, rfl⟩, _⟩ := h
  rw [peek, shard?_of_single hq]
  exact hsettled.valid.peek_eq key

theorem Reads.has_eq (h : c.Reads l) (key : Bytes) : c.has key = (l.entries.find key).isSome := by
  obtain ⟨⟨q, hq, hsettled, rfl⟩, _⟩ := h
  rw [has, shard?_of_single hq]
  exact hsettled.valid.has_eq key

theorem Reads.keys_eq (h : c.Reads l) : c.keys = l.entries.keys := by
  obtain ⟨⟨q, hq, hsettled, rfl⟩, _⟩ := h
  rw [keys_of_single hq]
  exact hsettled.valid.keys_listing.symm

theorem Reads.size_eq (h : c.Reads l) : c.size = l.entries.length := by
  obtain ⟨⟨q, hq, hsettled, rfl⟩, _⟩ := h
  rw [size_of_single hq]
  exact hsettled.valid.size_entries

/-- The one answer that is not the list's once the counter has wrapped. -/
theorem Reads.byteSize_eq (h : c.Reads l) (exact : c.counter.wrapped = false) :
    c.byteSize = l.entries.bytes := by
  obtain ⟨⟨q, hq, hsettled, rfl⟩, _⟩ := h
  rw [counter_of_single hq] at exact
  rw [byteSize_of_single hq]
  exact hsettled.valid.bytes.read_eq exact

/-- The list keeps its keys distinct, since the queue does. -/
theorem Reads.nodup (h : c.Reads l) : l.entries.keys.Nodup := by
  obtain ⟨⟨q, _, hsettled, rfl⟩, _⟩ := h
  exact hsettled.valid.nodup

/-- The list holds no more entries than its capacity, since the queue is settled. -/
theorem Reads.room (h : c.Reads l) : l.entries.length ≤ l.capacity := by
  obtain ⟨⟨q, _, hsettled, rfl⟩, _⟩ := h
  exact hsettled.room

/-- A call to a cache of one shard is the call to its list. Only the byte size is answered alike on
the condition that the counter has not wrapped. -/
theorem Reads.perform (h : c.Reads l) (call : CacheCall) :
    (call ≠ .byteSize ∨ c.counter.wrapped = false →
        (CacheEngine.perform c call).1 = (CacheEngine.perform l call).1) ∧
      (CacheEngine.perform c call).2.Reads (CacheEngine.perform l call).2 := by
  cases call with
  | put key value size =>
    obtain ⟨hevicted, hreads⟩ := h.put key value size
    exact ⟨fun _ => congrArg CacheAnswer.evicted hevicted, hreads⟩
  | get key => exact ⟨fun _ => congrArg CacheAnswer.value (h.peek_eq key), h⟩
  | peek key => exact ⟨fun _ => congrArg CacheAnswer.value (h.peek_eq key), h⟩
  | has key => exact ⟨fun _ => congrArg CacheAnswer.held (h.has_eq key), h⟩
  | remove key => exact ⟨fun _ => rfl, h.remove key⟩
  | clear => exact ⟨fun _ => rfl, h.clear⟩
  | keys => exact ⟨fun _ => congrArg CacheAnswer.keys h.keys_eq, h⟩
  | size => exact ⟨fun _ => congrArg CacheAnswer.count h.size_eq, h⟩
  | byteSize =>
    refine ⟨fun hasked => congrArg CacheAnswer.count (h.byteSize_eq ?_), h⟩
    exact hasked.resolve_left fun hother => hother rfl
  | capacity => exact ⟨fun _ => congrArg CacheAnswer.count h.capacity, h⟩

/-- A call whose sizes can be counted does not wrap the counter. -/
theorem Reads.exact_perform (h : c.Reads l) (exact : c.counter.wrapped = false) {call : CacheCall}
    (fits : l.peak call < UInt64.size) :
    (CacheEngine.perform c call).2.counter.wrapped = false := by
  obtain ⟨⟨q, hq, hsettled, rfl⟩, _⟩ := h
  have hexact := exact
  rw [counter_of_single hq] at hexact
  cases call with
  | put key value size =>
    show (c.put key value size).2.counter.wrapped = false
    rw [put_eq, counter_of_single (shards_update_of_single hq key _)]
    exact hsettled.valid.wrapped_put hexact fits value
  | remove key =>
    show (c.remove key).counter.wrapped = false
    rw [remove_eq, counter_of_single (shards_update_of_single hq key _), q.wrapped_remove]
    exact hexact
  | clear =>
    show c.clear.counter.wrapped = false
    rw [counter, ShardedCache.clear, hq]
    rfl
  | _ => exact exact

/-- Every sequence of calls is answered alike but for the byte size. -/
theorem Reads.performAll (h : c.Reads l) (calls : List CacheCall) :
    answersTo (· ≠ .byteSize) calls (CacheEngine.performAll c calls).1 =
        answersTo (· ≠ .byteSize) calls (CacheEngine.performAll l calls).1 ∧
      (CacheEngine.performAll c calls).2.Reads (CacheEngine.performAll l calls).2 := by
  refine CacheEngine.performAll_agreeOn (fun c l h call => ?_) calls c l h
  obtain ⟨hanswer, hreads⟩ := h.perform call
  exact ⟨fun hasked => hanswer (.inl (of_decide_eq_true hasked)), hreads⟩

/-- Where the sizes can be counted, the byte size is answered alike too. -/
theorem Reads.answers_eq (calls : List CacheCall) :
    ∀ {c : ShardedCache} {l : ArrivalList}, c.Reads l → c.counter.wrapped = false →
      l.Countable calls →
        (CacheEngine.performAll c calls).1 = (CacheEngine.performAll l calls).1 := by
  induction calls with
  | nil => exact fun _ _ _ => rfl
  | cons call rest ih =>
    intro c l h exact countable
    obtain ⟨hanswer, hreads⟩ := h.perform call
    have hexact := h.exact_perform exact countable.1
    rw [CacheEngine.performAll_cons, CacheEngine.performAll_cons, hanswer (.inr exact),
      ih hreads hexact countable.2]

/-- A new cache of one shard reads as the empty list of the whole capacity, and has counted nothing.
-/
theorem reads_of_build {hash : Bytes → UInt64} {capacity : Nat}
    (built : build hash capacity 1 = .ok c) :
    0 < capacity ∧ c.Reads ⟨capacity, []⟩ ∧ c.counter.wrapped = false := by
  obtain ⟨_, hpositive, rfl⟩ := build_eq_ok built
  rw [Nat.div_one]
  exact ⟨hpositive, ⟨⟨_, rfl, ArrivalQueue.settled_empty capacity, rfl⟩, rfl⟩, rfl⟩

end TieredStore.ShardedCache
