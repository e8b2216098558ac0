import TieredStore.Proofs.Cache.BySettings
import TieredStore.Proofs.Tiers.AlikeStores
import TieredStore.Proofs.Tiers.Coherence

/-!
# The cache is not seen

`PlainStore` is a storer without a cache: a map of pairs, and whether it was closed or destroyed.
Destruction stands in the way of reading and writing before closing does. Coherent tiers over a
store in memory give the answers of the plain store with that memory, because a value that the
cache answers with is the one in the map, and a cache that could answer is neither closed nor
destroyed.

**The law** (`Tiers.events_of_plainStore`): over a new cache of any settings, every client sees the
events it would see over the plain store, and the memory ends as that store's map. So no client
can tell two caches apart. What is seen over a memory is seen over every store that answers as it
does (`Tiers.events_of_alike`).
-/

namespace TieredStore

/-- A storer without a cache. -/
structure PlainStore where
  pairs : Std.TreeMap Bytes Bytes := ∅
  closed : Bool := false
  destroyed : Bool := false
  /-- How a walk goes through the pairs. -/
  order : Enumeration := .byKey

namespace PlainStore

/-- What stands in the way of reading and writing. -/
def barrier (p : PlainStore) : Option Failure :=
  if p.destroyed then some .destroyed
  else if p.closed then some .storeClosed
  else none

/-- The value under a key. -/
def read (p : PlainStore) (key : Bytes) : Except Failure Bytes :=
  match p.barrier with
  | some failure => .error failure
  | none =>
    match p.pairs[key]? with
    | some value => .ok value
    | none => .error (.keyNotFound key)

/-- The pairs under keys, in the order of the keys. -/
def readMany (p : PlainStore) (keys : List Bytes) : List (Bytes × Bytes) :=
  if p.barrier.isSome then []
  else keys.filterMap fun key => p.pairs[key]?.map fun value => (key, value)

/-- Changes the pairs. -/
def change (p : PlainStore) (pairs : Std.TreeMap Bytes Bytes) : Except Failure Unit × PlainStore :=
  match p.barrier with
  | some failure => (.error failure, p)
  | none => (.ok (), { p with pairs })

/-- Destroys the data. -/
def destroy (p : PlainStore) : Except Failure Unit × PlainStore :=
  if p.destroyed then (.error .destroyed, p)
  else (.ok (), { p with pairs := ∅, closed := true, destroyed := true })

instance : Storer PlainStore where
  answer p
    | .put key value => (p.change (p.pairs.insert key value)).map .done id
    | .putInEpoch key value _ => (p.change (p.pairs.insert key value)).map .done id
    | .get key => (.value (p.read key), p)
    | .getFromEpoch key _ => (.value (p.read key), p)
    | .searchFirst key => (.value (p.read key), p)
    | .getManyFromEpoch keys _ => (.pairs (.ok (p.readMany keys)), p)
    | .has key => (.done ((p.read key).map fun _ => ()), p)
    | .remove key => (p.change (p.pairs.erase key)).map .done id
    | .removeFromCurrentEpoch key => (p.change (p.pairs.erase key)).map .done id
    | .clearCache => (.nothing, p)
    | .oldestEpoch => (.epoch (.error .noOldestEpoch), p)
    | .close => (.done (.ok ()), { p with closed := true })
    | .destroy => p.destroy.map .done id
  walk p visit start :=
    if p.barrier.isSome then (p, start)
    else visitWhile visit (p.order.arrange p.pairs.toList) (p, start)

variable {p : PlainStore}

/-- Destroyed is what is told first, whether or not the store is closed as well. -/
theorem barrier_destroyed (gone : p.destroyed = true) : p.barrier = some .destroyed := by
  rw [barrier, if_pos gone]

/-- A closed store is told by the store, so only where the tiers let the call through. -/
theorem barrier_closed (alive : p.destroyed = false) (closed : p.closed = true) :
    p.barrier = some .storeClosed := by
  rw [barrier, if_neg (Bool.eq_false_iff.mp alive), if_pos closed]

theorem barrier_none (alive : p.destroyed = false) (inUse : p.closed = false) :
    p.barrier = none := by
  rw [barrier, if_neg (Bool.eq_false_iff.mp alive), if_neg (Bool.eq_false_iff.mp inUse)]

/-- What is read of the first key comes before what is read of the others. -/
theorem readMany_cons (p : PlainStore) (key : Bytes) (rest : List Bytes) :
    p.readMany (key :: rest) =
      match p.read key with
      | .ok value => (key, value) :: p.readMany rest
      | .error _ => p.readMany rest := by
  rw [readMany, readMany, read]
  cases p.barrier with
  | some failure => rfl
  | none =>
    rw [List.filterMap_cons]
    cases p.pairs[key]? <;> rfl

end PlainStore

/-- A store in memory has what it can read. -/
theorem MemoryStore.has_eq_get (s : MemoryStore) (key : Bytes) :
    s.has key = (s.get key).map fun _ => () := by
  rw [has, get]
  split
  · rfl
  · rw [Std.TreeMap.contains_eq_isSome_getElem?]
    cases s.pairs[key]? <;> rfl

namespace Tiers

variable {κ : Type} [CacheEngine κ] [LawfulEngine κ]

/-- The tiers without their cache. -/
def plain (t : Tiers κ MemoryStore) : PlainStore :=
  ⟨t.store.pairs, t.store.closed, t.destroyed, t.store.order⟩

variable {t : Tiers κ MemoryStore}

omit [LawfulEngine κ] in
/-- A write to tiers over memory is a change of the pairs, whatever the cache does with the value.
-/
theorem plain_put (t : Tiers κ MemoryStore) (key value : Bytes) :
    (t.put key value).1 = (t.plain.change (t.plain.pairs.insert key value)).1 ∧
      (t.put key value).2.plain = (t.plain.change (t.plain.pairs.insert key value)).2 := by
  cases hgone : t.destroyed with
  | true =>
    rw [put_destroyed hgone, PlainStore.change, PlainStore.barrier_destroyed hgone]
    exact ⟨rfl, rfl⟩
  | false =>
    cases hclosed : t.store.closed with
    | true =>
      have hput : BackingStore.put t.store key value = (.error .storeClosed, t.store) :=
        if_pos hclosed
      rw [put_refused hgone (congrArg Prod.fst hput), PlainStore.change,
        PlainStore.barrier_closed hgone hclosed, hput]
      exact ⟨rfl, rfl⟩
    | false =>
      have hput : BackingStore.put t.store key value =
          (.ok (), { t.store with pairs := t.store.pairs.insert key value }) :=
        if_neg (Bool.eq_false_iff.mp hclosed)
      rw [put_stored hgone (congrArg Prod.fst hput), PlainStore.change,
        PlainStore.barrier_none hgone hclosed, hput]
      exact ⟨rfl, rfl⟩

omit [LawfulEngine κ] in
/-- So is a removal. -/
theorem plain_remove (t : Tiers κ MemoryStore) (key : Bytes) :
    (t.remove key).1 = (t.plain.change (t.plain.pairs.erase key)).1 ∧
      (t.remove key).2.plain = (t.plain.change (t.plain.pairs.erase key)).2 := by
  cases hgone : t.destroyed with
  | true =>
    rw [remove_destroyed hgone, PlainStore.change, PlainStore.barrier_destroyed hgone]
    exact ⟨rfl, rfl⟩
  | false =>
    rw [remove_eq hgone, PlainStore.change]
    cases hclosed : t.store.closed with
    | true =>
      have hremove : BackingStore.remove t.store key = (.error .storeClosed, t.store) :=
        if_pos hclosed
      rw [PlainStore.barrier_closed hgone hclosed, hremove]
      exact ⟨rfl, rfl⟩
    | false =>
      have hremove : BackingStore.remove t.store key =
          (.ok (), { t.store with pairs := t.store.pairs.erase key }) :=
        if_neg (Bool.eq_false_iff.mp hclosed)
      rw [PlainStore.barrier_none hgone hclosed, hremove]
      exact ⟨rfl, rfl⟩

/-- A value in the cache is the one that the plain store reads. -/
theorem Coherent.read_of_held (h : t.Coherent) {key value : Bytes}
    (held : CacheEngine.peek t.cache key = some value) : t.plain.read key = .ok value := by
  obtain ⟨hinUse, halive⟩ := h.alive held
  have hpairs : t.plain.pairs[key]? = some value := h.stored held
  rw [PlainStore.read, PlainStore.barrier_none halive hinUse, hpairs]

omit [CacheEngine κ] [LawfulEngine κ] in
/-- Tiers that were not destroyed read what their store does. -/
theorem read_of_alive (alive : t.destroyed = false) (key : Bytes) :
    t.plain.read key = t.store.get key := by
  rw [PlainStore.read, MemoryStore.get]
  cases hclosed : t.store.closed with
  | true => rw [PlainStore.barrier_closed alive hclosed]; rfl
  | false => rw [PlainStore.barrier_none alive hclosed]; rfl

/-- A read of coherent tiers is a read of the pairs: what the cache has is what is stored, and it
has nothing once the store is out of reach. -/
theorem Coherent.plain_get (h : t.Coherent) (key : Bytes) :
    (t.get key).1 = t.plain.read key ∧ (t.get key).2.plain = t.plain := by
  cases hgone : t.destroyed with
  | true =>
    rw [get_destroyed hgone, PlainStore.read, PlainStore.barrier_destroyed hgone]
    exact ⟨rfl, rfl⟩
  | false =>
    cases hpeek : CacheEngine.peek t.cache key with
    | some value =>
      rw [get_hit hgone h.valid hpeek, h.read_of_held hpeek]
      exact ⟨rfl, rfl⟩
    | none =>
      rw [read_of_alive hgone]
      cases hget : t.store.get key with
      | error failure =>
        rw [get_failed hgone h.valid hpeek hget]
        exact ⟨rfl, rfl⟩
      | ok value =>
        rw [get_found hgone h.valid hpeek hget]
        exact ⟨rfl, rfl⟩

/-- To be asked for a key is to be read without the value. -/
theorem Coherent.plain_has (h : t.Coherent) (key : Bytes) :
    (t.has key).1 = (t.plain.read key).map (fun _ => ()) ∧ (t.has key).2.plain = t.plain := by
  unfold Tiers.has
  split
  · next hgone =>
    rw [PlainStore.read, PlainStore.barrier_destroyed hgone]
    exact ⟨rfl, rfl⟩
  · next hgone =>
    split
    · next hheld =>
      rw [LawfulEngine.has_eq h.valid] at hheld
      obtain ⟨value, hpeek⟩ := Option.isSome_iff_exists.mp hheld
      rw [h.read_of_held hpeek]
      exact ⟨rfl, rfl⟩
    · rw [read_of_alive (Bool.eq_false_iff.mpr hgone), ← MemoryStore.has_eq_get]
      exact ⟨rfl, rfl⟩

/-- By induction on the keys, each read leaving the plain store as it was. -/
theorem Coherent.plain_getMany (keys : List Bytes) :
    ∀ t : Tiers κ MemoryStore, t.Coherent →
      (t.getMany keys).1 = t.plain.readMany keys ∧ (t.getMany keys).2.plain = t.plain := by
  induction keys with
  | nil =>
    intro t _
    rw [PlainStore.readMany, List.filterMap_nil, ite_self]
    exact ⟨rfl, rfl⟩
  | cons key rest ih =>
    intro t h
    obtain ⟨hread, hplain⟩ := h.plain_get key
    obtain ⟨hrest, hlast⟩ := ih (t.get key).2 (h.get key).1
    rw [hplain] at hrest hlast
    cases hget : t.get key with
    | mk outcome u =>
      rw [hget] at hread hrest hlast
      rw [Tiers.getMany, hget]
      rw [PlainStore.readMany_cons, ← hread]
      cases outcome with
      | error failure => exact ⟨hrest, hlast⟩
      | ok value => exact ⟨congrArg ((key, value) :: ·) hrest, hlast⟩

omit [LawfulEngine κ] in
/-- A destruction is that of the plain store; the cache is empty afterwards in any case. -/
theorem plain_destroy (t : Tiers κ MemoryStore) :
    t.destroy.1 = t.plain.destroy.1 ∧ t.destroy.2.plain = t.plain.destroy.2 := by
  cases hgone : t.destroyed with
  | true =>
    have hplain : t.plain.destroyed = true := hgone
    rw [destroy_destroyed hgone, PlainStore.destroy, if_pos hplain]
    exact ⟨rfl, rfl⟩
  | false =>
    have hplain : ¬t.plain.destroyed = true := Bool.eq_false_iff.mp hgone
    rw [destroy_done hgone rfl, PlainStore.destroy, if_neg hplain]
    exact ⟨rfl, rfl⟩

/-- Coherent tiers over a store in memory, and the plain store with the same memory. -/
def Stands (t : Tiers κ MemoryStore) (p : PlainStore) : Prop :=
  t.Coherent ∧ t.plain = p

section Stands

variable {p : PlainStore}

/-- Tiers that stand for a plain store answer a write as it does, and stand for it again. -/
theorem Stands.put (h : t.Stands p) (key value : Bytes) :
    (t.put key value).1 = (p.change (p.pairs.insert key value)).1 ∧
      (t.put key value).2.Stands (p.change (p.pairs.insert key value)).2 := by
  obtain ⟨h, rfl⟩ := h
  obtain ⟨hanswer, hplain⟩ := t.plain_put key value
  exact ⟨hanswer, (h.put key value).1, hplain⟩

theorem Stands.get (h : t.Stands p) (key : Bytes) :
    (t.get key).1 = p.read key ∧ (t.get key).2.Stands p := by
  obtain ⟨h, rfl⟩ := h
  obtain ⟨hanswer, hplain⟩ := h.plain_get key
  exact ⟨hanswer, (h.get key).1, hplain⟩

theorem Stands.has (h : t.Stands p) (key : Bytes) :
    (t.has key).1 = (p.read key).map (fun _ => ()) ∧ (t.has key).2.Stands p := by
  obtain ⟨h, rfl⟩ := h
  obtain ⟨hanswer, hplain⟩ := h.plain_has key
  exact ⟨hanswer, (h.has key).1, hplain⟩

theorem Stands.remove (h : t.Stands p) (key : Bytes) :
    (t.remove key).1 = (p.change (p.pairs.erase key)).1 ∧
      (t.remove key).2.Stands (p.change (p.pairs.erase key)).2 := by
  obtain ⟨h, rfl⟩ := h
  obtain ⟨hanswer, hplain⟩ := t.plain_remove key
  exact ⟨hanswer, (h.remove key).1, hplain⟩

/-- Each call is answered as the plain store answers it, and is followed by tiers that stand for it
again. -/
theorem Stands.answer (h : t.Stands p) (call : StorerCall) :
    (Storer.answer t call).1 = (Storer.answer p call).1 ∧
      (Storer.answer t call).2.Stands (Storer.answer p call).2 := by
  cases call with
  | put key value => exact (h.put key value).imp_left (congrArg StorerAnswer.done)
  | putInEpoch key value epoch => exact (h.put key value).imp_left (congrArg StorerAnswer.done)
  | get key => exact (h.get key).imp_left (congrArg StorerAnswer.value)
  | getFromEpoch key epoch => exact (h.get key).imp_left (congrArg StorerAnswer.value)
  | searchFirst key => exact (h.get key).imp_left (congrArg StorerAnswer.value)
  | getManyFromEpoch keys epoch =>
    obtain ⟨h, rfl⟩ := h
    obtain ⟨hanswer, hplain⟩ := Coherent.plain_getMany keys t h
    exact ⟨congrArg (fun found => StorerAnswer.pairs (.ok found)) hanswer,
      (Coherent.getMany keys t h).1, hplain⟩
  | has key => exact (h.has key).imp_left (congrArg StorerAnswer.done)
  | remove key => exact (h.remove key).imp_left (congrArg StorerAnswer.done)
  | removeFromCurrentEpoch key => exact (h.remove key).imp_left (congrArg StorerAnswer.done)
  | clearCache => exact ⟨rfl, h.1.clearCache, h.2⟩
  | oldestEpoch => exact ⟨rfl, h⟩
  | close =>
    obtain ⟨h, rfl⟩ := h
    exact ⟨rfl, h.close.1, rfl⟩
  | destroy =>
    obtain ⟨h, rfl⟩ := h
    obtain ⟨hanswer, hplain⟩ := t.plain_destroy
    exact ⟨congrArg StorerAnswer.done hanswer, h.destroy.1, hplain⟩

end Stands

/-- Tiers stand for their plain store through every call of a client. -/
theorem simulates_stands :
    Storer.Simulates (Stands : Tiers κ MemoryStore → PlainStore → Prop) where
  answer h call := h.answer call
  walk {t p} h visit visit' step events := by
    obtain ⟨h, rfl⟩ := h
    show Storer.Alike Stands (t.walk visit events)
      (if t.plain.barrier.isSome then (t.plain, events)
        else
          visitWhile visit' (t.plain.order.arrange t.plain.pairs.toList) (t.plain, events))
    have hstart : Storer.Alike Stands (t, events) (t.plain, events) := ⟨⟨h, rfl⟩, rfl⟩
    cases hgone : t.destroyed with
    | true =>
      rw [walk_destroyed hgone, PlainStore.barrier_destroyed hgone]
      exact hstart
    | false =>
      cases hclosed : t.store.closed with
      | true =>
        rw [walk_eq hgone]
        have hpairs : (BackingStore.snapshot t.store).1 = [] := if_pos hclosed
        rw [hpairs, PlainStore.barrier_closed hgone hclosed]
        exact hstart
      | false =>
        rw [walk_inUse hgone hclosed, PlainStore.barrier_none hgone hclosed]
        exact visitWhile_agree step _ _ _ hstart

/-- Over a store that answers as a memory does, tiers that would be coherent over the memory are
seen as the plain store with it. -/
theorem events_of_alike {σ : Type} [BackingStore σ] {R : σ → MemoryStore → Prop}
    (simulates : BackingStore.Simulates R) {t : Tiers κ σ} {memory : MemoryStore}
    (related : R t.store memory)
    (coherent : Coherent (⟨t.cache, memory, t.destroyed⟩ : Tiers κ MemoryStore))
    (calls : List ClientCall) :
    (Client.performAll (t, []) calls).2 =
      (Client.performAll
        (({ pairs := memory.pairs, closed := memory.closed, destroyed := t.destroyed,
            order := memory.order } : PlainStore), []) calls).2 := by
  let u : Tiers κ MemoryStore := ⟨t.cache, memory, t.destroyed⟩
  have hover : Over R t u := .intro t.cache t.destroyed related
  have halike := (simulates_over simulates).performAll calls (t, []) (u, []) ⟨hover, rfl⟩
  have hplain := simulates_stands.performAll calls (u, []) (u.plain, []) ⟨⟨coherent, rfl⟩, rfl⟩
  exact halike.2.trans hplain.2

/-- A new cache over a store in memory stands for the plain store with that memory. -/
theorem stands_of_ofSettings {settings : CacheSettings} {cache : Cache}
    (built : Cache.ofSettings settings = .ok cache) (store : MemoryStore) :
    Stands ({ cache, store } : Tiers Cache MemoryStore)
      { pairs := store.pairs, closed := store.closed, order := store.order } := by
  obtain ⟨hvalid, hempty⟩ := Cache.fresh_of_ofSettings built
  exact ⟨coherent_of_empty hvalid hempty, rfl⟩

/-- **The cache is not seen.** Over a new cache of any settings and a store in memory, a client sees
the events that it sees over the plain store, and the store ends as that one does. So it sees the
same events over a cache of any other settings. -/
theorem events_of_plainStore {settings : CacheSettings} {cache : Cache}
    (built : Cache.ofSettings settings = .ok cache) (store : MemoryStore)
    (calls : List ClientCall) :
    let tiers : Tiers Cache MemoryStore := { cache, store }
    let plain : PlainStore :=
      { pairs := store.pairs, closed := store.closed, order := store.order }
    let run := Client.performAll (tiers, []) calls
    let plainRun := Client.performAll (plain, []) calls
    run.2 = plainRun.2 ∧
      run.1.store.pairs = plainRun.1.pairs ∧ run.1.store.closed = plainRun.1.closed ∧
        run.1.destroyed = plainRun.1.destroyed ∧
          ∀ {other : CacheSettings} {second : Cache}, Cache.ofSettings other = .ok second →
            (Client.performAll (({ cache := second, store } : Tiers Cache MemoryStore), [])
              calls).2 = run.2 := by
  intro tiers plain run plainRun
  have halike : ∀ {settings : CacheSettings} {cache : Cache},
      Cache.ofSettings settings = .ok cache →
        Storer.Alike Stands
          (Client.performAll (({ cache, store } : Tiers Cache MemoryStore), []) calls) plainRun :=
    fun built => simulates_stands.performAll calls _ _ ⟨stands_of_ofSettings built store, rfl⟩
  obtain ⟨⟨_, hplain⟩, hevents⟩ := halike built
  exact ⟨hevents, congrArg PlainStore.pairs hplain, congrArg PlainStore.closed hplain,
    congrArg PlainStore.destroyed hplain, fun built' => (halike built').2.trans hevents.symm⟩

/-- A cache with room for one entry, and one of two shards: a client reads many keys, removes keys
while it walks, and reads again after closing. -/
theorem events_of_plainStore_sharded :
    ∃ cache second, Cache.ofSettings { capacity := 1 } = .ok cache ∧
      Cache.ofSettings { kind := .sharded, capacity := 2, shards := 2 } = .ok second ∧
        let calls : List ClientCall :=
          [.call (.put [1] [10]), .call (.put [2] [20]),
            .call (.getManyFromEpoch [[2], [1], [3], [2]] 0),
            .walk (fun _ => [.call (.remove [2])]) (fun _ => true), .call .close,
            .call (.get [1])]
        (Client.performAll (({ cache, store := .empty } : Tiers Cache MemoryStore), []) calls).2 =
            [.answered (.put [1] [10]) (.done (.ok ())), .answered (.put [2] [20]) (.done (.ok ())),
              .answered (.getManyFromEpoch [[2], [1], [3], [2]] 0)
                (.pairs (.ok [([2], [20]), ([1], [10]), ([2], [20])])),
              .visited ([1], [10]), .answered (.remove [2]) (.done (.ok ())),
              .visited ([2], [20]), .answered (.remove [2]) (.done (.ok ())),
              .answered .close (.done (.ok ())),
              .answered (.get [1]) (.value (.error .storeClosed))] ∧
          (Client.performAll (({ cache := second, store := .empty } : Tiers Cache MemoryStore), [])
              calls).2 =
            (Client.performAll (({ cache, store := .empty } : Tiers Cache MemoryStore), []) calls).2 :=
  ⟨_, _, rfl, rfl, (@events_of_plainStore { capacity := 1 } _ rfl .empty _).1.trans rfl,
    (@events_of_plainStore { capacity := 1 } _ rfl .empty _).2.2.2.2
      (@rfl _ (Cache.ofSettings { kind := .sharded, capacity := 2, shards := 2 }))⟩

end Tiers

end TieredStore
