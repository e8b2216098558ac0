import TieredStore.Cache.ShardedCache
import TieredStore.Proofs.Cache.ArrivalList
import TieredStore.Proofs.Cache.LawfulEngine

/-!
# Shards

A key has its place in one shard of a sharded cache, and a call with that key reaches no other
shard: it is an `update` of that one (`shard?_update`). In a valid cache every shard is settled and
holds only keys of its own place, so the laws of the cache are those of its queues.
-/

namespace TieredStore

namespace ArrivalQueue

variable {q : ArrivalQueue}

/-- The live arrivals of a queue are of the keys that have an entry. -/
theorem Valid.mem_keys (h : q.Valid) (key : Bytes) : key ∈ q.keys ↔ (q.peek key).isSome := by
  rw [← h.keys_listing, h.peek_eq, Listing.mem_keys_iff]

/-- A write to a queue brings nothing in but its own value; older ones may go. -/
theorem Settled.peek_put (h : q.Settled) {key value : Bytes} {size : Nat} {k v : Bytes}
    (hv : (q.put key value size).2.peek k = some v) :
    k = key ∧ v = value ∨ k ≠ key ∧ q.peek k = some v := by
  obtain ⟨_, hsettled, hview⟩ := h.put key value size
  have hwritten : ∀ e ∈ (q.put key value size).2.listing,
      e = ⟨key, value, size⟩ ∨ e ∈ q.listing ∧ e.key ≠ key := by
    intro e he
    refine q.view.of_mem_put ?_
    rw [← hview]
    exact he
  rw [hsettled.valid.peek_eq] at hv
  rw [h.valid.peek_eq]
  exact Listing.value_of_written h.valid.nodup hsettled.valid.nodup hwritten hv

/-- A removal from a queue takes one key away and no other. -/
theorem Settled.peek_remove (h : q.Settled) (key k : Bytes) :
    (q.remove key).peek k = if key = k then none else q.peek k := by
  obtain ⟨hvalid, hlisting⟩ := h.valid.remove key
  rw [hvalid.peek_eq, hlisting, h.valid.peek_eq]
  exact Listing.value_without h.valid.nodup key k

end ArrivalQueue

namespace ShardedCache

/-- The shard of a key is there unless there are no shards. -/
theorem exists_shard {c : ShardedCache} (nonempty : c.shards ≠ []) (key : Bytes) :
    ∃ q, c.shard? key = some q := by
  have hplace : c.place key < c.shards.length :=
    Nat.mod_lt _ (List.length_pos_iff.mpr nonempty)
  exact ⟨_, List.getElem?_eq_getElem hplace⟩

/-- The cache with the shard of a key changed. -/
def update (c : ShardedCache) (key : Bytes) (change : ArrivalQueue → ArrivalQueue) : ShardedCache :=
  { c with shards := c.shards.modify (c.place key) change }

/-- A write changes the shard of its key, if there is one, and tells what that shard tells. -/
theorem put_eq (c : ShardedCache) (key value : Bytes) (size : Nat) :
    c.put key value size =
      ((c.shard? key).any fun q => (q.put key value size).1,
        c.update key fun q => (q.put key value size).2) := by
  cases hq : c.shard? key with
  | none =>
    have hout : c.shards.length ≤ c.place key := List.getElem?_eq_none_iff.mp hq
    rw [update, List.modify_eq_self hout]
    simp only [put, hq]
    rfl
  | some q =>
    have hset : c.shards.set (c.place key) (q.put key value size).2 =
        c.shards.modify (c.place key) fun q => (q.put key value size).2 := by
      refine List.ext_getElem? fun i => ?_
      rw [List.getElem?_modify, List.getElem?_set']
      by_cases hi : c.place key = i
      · rw [if_pos hi, ← hi, show c.shards[c.place key]? = some q from hq]
        simp only [Functor.map, if_true, Option.map_some, Function.const]
      · simp only [if_neg hi, id_map']
    simp only [put, hq, hset]
    rfl

theorem remove_eq (c : ShardedCache) (key : Bytes) :
    c.remove key = c.update key fun q => q.remove key := rfl

/-- Changing a shard moves no key: the places depend on how many shards there are. -/
theorem place_update (c : ShardedCache) (key : Bytes) (change : ArrivalQueue → ArrivalQueue)
    (k : Bytes) : (c.update key change).place k = c.place k := by
  rw [place, update, List.length_modify]
  rfl

/-- The shards at other places are as they were. -/
theorem getElem?_update (c : ShardedCache) (key : Bytes) (change : ArrivalQueue → ArrivalQueue)
    (i : Nat) :
    (c.update key change).shards[i]? =
      if c.place key = i then c.shards[i]?.map change else c.shards[i]? := by
  rw [update, List.getElem?_modify]
  split
  · rfl
  · exact id_map' _

/-- A change to the shard of a key is seen at the keys of that shard only. -/
theorem shard?_update (c : ShardedCache) (key : Bytes) (change : ArrivalQueue → ArrivalQueue)
    (k : Bytes) :
    (c.update key change).shard? k =
      if c.place key = c.place k then (c.shard? k).map change else c.shard? k := by
  rw [shard?, place_update, getElem?_update]
  rfl

/-- No call changes the number of shards. -/
theorem length_shards_perform (c : ShardedCache) (call : CacheCall) :
    (CacheEngine.perform c call).2.shards.length = c.shards.length := by
  cases call with
  | put key value size =>
    show (c.put key value size).2.shards.length = _
    rw [put_eq, update, List.length_modify]
  | remove key => exact List.length_modify ..
  | clear => exact List.length_map _
  | _ => rfl

/-- The hash is fixed when the cache is built. -/
theorem hash_perform (c : ShardedCache) (call : CacheCall) :
    (CacheEngine.perform c call).2.hash = c.hash := by
  cases call with
  | put key value size =>
    show (c.put key value size).2.hash = _
    rw [put_eq]
    rfl
  | _ => rfl

/-- The shards are settled, and hold only keys of their own places. -/
structure Valid (c : ShardedCache) : Prop where
  settled : ∀ (i : Nat) (q : ArrivalQueue), c.shards[i]? = some q → q.Settled
  placed : ∀ (i : Nat) (q : ArrivalQueue), c.shards[i]? = some q → ∀ key ∈ q.keys, c.place key = i

variable {c : ShardedCache}

/-- A change that settles the shard of a key and brings no other key in keeps the cache valid. -/
theorem Valid.update (h : c.Valid) (key : Bytes) {change : ArrivalQueue → ArrivalQueue}
    (step : ∀ q : ArrivalQueue, q.Settled → (change q).Settled ∧
      ∀ k ∈ (change q).keys, k = key ∨ k ∈ q.keys) : (c.update key change).Valid := by
  have shards : ∀ (i : Nat) (q : ArrivalQueue), (c.update key change).shards[i]? = some q →
      q.Settled ∧ ∀ k ∈ q.keys, c.place k = i := by
    intro i q hq
    rw [getElem?_update] at hq
    by_cases hi : c.place key = i
    · rw [if_pos hi] at hq
      obtain ⟨old, hold, rfl⟩ := Option.map_eq_some_iff.mp hq
      obtain ⟨hsettled, hkeys⟩ := step old (h.settled i old hold)
      refine ⟨hsettled, fun k hk => ?_⟩
      rcases hkeys k hk with rfl | hk
      · exact hi
      · exact h.placed i old hold k hk
    · rw [if_neg hi] at hq
      exact ⟨h.settled i q hq, h.placed i q hq⟩
  refine ⟨fun i q hq => (shards i q hq).1, fun i q hq k hk => ?_⟩
  rw [place_update]
  exact (shards i q hq).2 k hk

/-- A write keeps the shards settled and leaves every key in its place. -/
theorem Valid.put (h : c.Valid) (key value : Bytes) (size : Nat) :
    (c.put key value size).2.Valid := by
  rw [put_eq]
  refine h.update key fun q hq => ?_
  have hsettled := (hq.put key value size).2.1
  refine ⟨hsettled, fun k hk => ?_⟩
  obtain ⟨v, hv⟩ := Option.isSome_iff_exists.mp ((hsettled.valid.mem_keys k).mp hk)
  rcases hq.peek_put hv with ⟨rfl, _⟩ | ⟨_, hold⟩
  · exact .inl rfl
  · exact .inr ((hq.valid.mem_keys k).mpr (hold ▸ rfl))

/-- So does a removal. -/
theorem Valid.remove (h : c.Valid) (key : Bytes) : (c.remove key).Valid := by
  refine h.update key fun q hq => ⟨(hq.remove key).1, fun k hk => .inr ?_⟩
  rw [(hq.remove key).1.valid.mem_keys, hq.peek_remove] at hk
  rw [hq.valid.mem_keys]
  split at hk
  · cases hk
  · exact hk

/-- The shards of an emptied cache are emptied queues. -/
theorem of_shard_clear {i : Nat} {q : ArrivalQueue} (h : c.clear.shards[i]? = some q) :
    ∃ old : ArrivalQueue, q = old.clear := by
  rw [clear, List.getElem?_map] at h
  obtain ⟨old, _, rfl⟩ := Option.map_eq_some_iff.mp h
  exact ⟨old, rfl⟩

theorem valid_clear (c : ShardedCache) : c.clear.Valid := by
  constructor
  · intro i q hq
    obtain ⟨old, rfl⟩ := of_shard_clear hq
    exact old.settled_clear
  · intro i q hq key hkey
    obtain ⟨old, rfl⟩ := of_shard_clear hq
    exact absurd hkey List.not_mem_nil

theorem peek_clear (c : ShardedCache) (key : Bytes) : c.clear.peek key = none := by
  rw [peek]
  cases hq : c.clear.shard? key with
  | none => rfl
  | some q =>
    obtain ⟨old, rfl⟩ := of_shard_clear hq
    rfl

/-- What a key looks up lies in the shard of its place. -/
theorem Valid.mem_keys (h : c.Valid) (key : Bytes) : key ∈ c.keys ↔ (c.peek key).isSome := by
  rw [keys, List.mem_flatMap, peek]
  constructor
  · rintro ⟨q, hq, hkey⟩
    obtain ⟨i, hi⟩ := List.getElem?_of_mem hq
    rw [shard?, h.placed i q hi key hkey, hi]
    exact ((h.settled i q hi).valid.mem_keys key).mp hkey
  · intro hpeek
    cases hq : c.shard? key with
    | none => rw [hq] at hpeek; cases hpeek
    | some q =>
      rw [hq] at hpeek
      exact ⟨q, List.mem_of_getElem? hq, ((h.settled _ q hq).valid.mem_keys key).mpr hpeek⟩

/-- To be held is to have a value; the shard of the key answers both. -/
theorem Valid.has_eq (h : c.Valid) (key : Bytes) : c.has key = (c.peek key).isSome := by
  rw [has, peek]
  cases hq : c.shard? key with
  | none => rfl
  | some q =>
    have hvalid := (h.settled _ q hq).valid
    rw [Option.any_some, Option.bind_some, hvalid.has_eq, hvalid.peek_eq, Listing.isSome_value]

/-- A write brings nothing in but its own value, in its own shard as in the others. -/
theorem Valid.peek_put (h : c.Valid) {key value : Bytes} {size : Nat} {k v : Bytes}
    (hv : (c.put key value size).2.peek k = some v) :
    k = key ∧ v = value ∨ k ≠ key ∧ c.peek k = some v := by
  rw [put_eq, peek, shard?_update] at hv
  rw [peek]
  by_cases hplace : c.place key = c.place k
  · rw [if_pos hplace] at hv
    cases hq : c.shard? k with
    | none => rw [hq] at hv; cases hv
    | some q =>
      rw [hq] at hv
      exact (h.settled _ q hq).peek_put hv
  · rw [if_neg hplace] at hv
    exact .inr ⟨fun hk => hplace (hk ▸ rfl), hv⟩

/-- A removal takes one key away. The other keys of its shard stay, as do all of the other shards.
-/
theorem Valid.peek_remove (h : c.Valid) (key k : Bytes) :
    (c.remove key).peek k = if key = k then none else c.peek k := by
  rw [remove_eq, peek, shard?_update, peek]
  by_cases hplace : c.place key = c.place k
  · rw [if_pos hplace]
    cases hq : c.shard? k with
    | none => exact (ite_self none).symm
    | some q => exact (h.settled _ q hq).peek_remove key k
  · rw [if_neg hplace, if_neg fun hk : key = k => hplace (hk ▸ rfl)]

instance : LawfulEngine ShardedCache where
  Valid := Valid
  mem_keys h := h.mem_keys
  has_eq h := h.has_eq
  get_fst _ _ := rfl
  valid_get h _ := h
  peek_get _ _ _ := rfl
  valid_put h := h.put
  peek_put h := h.peek_put
  valid_remove h := h.remove
  peek_remove h := h.peek_remove
  valid_clear {c} _ := c.valid_clear
  peek_clear {c} _ := c.peek_clear

/-- A new cache has shards, each with an equal part of the capacity, which is one at least. -/
theorem build_eq_ok {hash : Bytes → UInt64} {capacity shards : Nat}
    (built : build hash capacity shards = .ok c) :
    0 < shards ∧ shards ≤ capacity ∧
      c = ⟨capacity, hash, List.replicate shards (.empty (capacity / shards))⟩ := by
  unfold build at built
  split at built
  · cases built
  · next hshards =>
    split at built
    · cases built
    · next hroom =>
      exact ⟨Nat.pos_of_ne_zero hshards, Nat.le_of_not_lt hroom, (Except.ok.inj built).symm⟩

/-- A new cache is valid, and it is empty. -/
theorem fresh_of_build {hash : Bytes → UInt64} {capacity shards : Nat}
    (built : build hash capacity shards = .ok c) : c.Valid ∧ ∀ key, c.peek key = none := by
  have hshards : ∀ (i : Nat) (q : ArrivalQueue), c.shards[i]? = some q →
      q = .empty (capacity / shards) := by
    rw [(build_eq_ok built).2.2]
    exact fun i q hq => List.eq_of_mem_replicate (List.mem_of_getElem? hq)
  refine ⟨⟨fun i q hq => ?_, fun i q hq key hkey => ?_⟩, fun key => ?_⟩
  · rw [hshards i q hq]
    exact ArrivalQueue.settled_empty _
  · rw [hshards i q hq] at hkey
    exact absurd hkey List.not_mem_nil
  · rw [peek]
    cases hq : c.shard? key with
    | none => rfl
    | some q =>
      rw [hshards _ q hq]
      rfl

end ShardedCache

end TieredStore
