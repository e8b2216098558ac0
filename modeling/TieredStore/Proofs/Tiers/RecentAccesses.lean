import TieredStore.Proofs.Cache.RecentKeys
import TieredStore.Proofs.Tiers.PlainStore

/-!
# The cache holds what was accessed last

A key is accessed by a successful write and by a successful read of it, and a read of many keys
accesses those that it found, in turn. `accesses` are the keys accessed in a run, told from its
events alone: whether a read was answered by the cache or by the store is not seen there.
`Tiers.Shows` says that the cached keys are the `recent` ones among the accesses, and each call keeps
it that takes no key out of the cache.

A write that the memory refuses is no access, though it passes through the cache and could evict
something there. It evicts nothing, because memory refuses writes only when it is closed, and then
the cache is empty (`Tiers.Coherent.emptied`).

**The law** is `Tiers.cachedKeys_of_performAll`.
-/

namespace TieredStore

/-- The key of a call, if the call succeeded. -/
def succeeded {α : Type} (key : Bytes) : Except Failure α → List Bytes
  | .ok _ => [key]
  | .error _ => []

/-- The call takes keys out of the cache, or would if they were there. -/
def StorerCall.takesOut : StorerCall → Bool
  | remove _ | removeFromCurrentEpoch _ | clearCache | close | destroy => true
  | put .. | putInEpoch .. | get _ | getFromEpoch .. | searchFirst _ | getManyFromEpoch .. | has _
  | oldestEpoch => false

namespace ClientEvent

/-- The keys that were accessed. -/
def accessed : ClientEvent → List Bytes
  | answered (.put key _) (.done outcome) => succeeded key outcome
  | answered (.putInEpoch key _ _) (.done outcome) => succeeded key outcome
  | answered (.get key) (.value outcome) => succeeded key outcome
  | answered (.getFromEpoch key _) (.value outcome) => succeeded key outcome
  | answered (.searchFirst key) (.value outcome) => succeeded key outcome
  | answered (.getManyFromEpoch _ _) (.pairs (.ok found)) => found.map Prod.fst
  | _ => []

/-- The event is a call that takes keys out of the cache. -/
def takesOut : ClientEvent → Bool
  | answered call _ => call.takesOut
  | visited _ => false

end ClientEvent

/-- The keys accessed in a run, one for each access. -/
def accesses (events : List ClientEvent) : List Bytes := events.flatMap ClientEvent.accessed

theorem accesses_concat (events : List ClientEvent) (event : ClientEvent) :
    accesses (events ++ [event]) = accesses events ++ event.accessed := by
  rw [accesses, List.flatMap_append, List.flatMap_singleton]
  rfl

namespace Tiers

/-- The cached keys are those used last. -/
structure Shows (n : Nat) (t : Tiers RecencyCache MemoryStore) (uses : List Bytes) : Prop where
  coherent : t.Coherent
  counts : t.cache.Counts n
  keys : t.cachedKeys = recent n uses

variable {n : Nat} {t : Tiers RecencyCache MemoryStore} {uses : List Bytes}

/-- No further use. -/
theorem Shows.of_same (h : Shows n t uses) {u : Tiers RecencyCache MemoryStore}
    (coherent : u.Coherent) (same : u.cache = t.cache) : Shows n u uses where
  coherent := coherent
  counts := same ▸ h.counts
  keys := by
    rw [cachedKeys, same]
    exact h.keys

theorem Shows.room (h : Shows n t uses) : t.cachedKeys.length ≤ n := by
  rw [h.keys]
  exact length_lastOf_le n _

/-- A use on top of those before it. -/
theorem Shows.used_cachedKeys (h : Shows n t uses) (key : Bytes) :
    used n t.cachedKeys key = recent n (uses ++ [key]) := by
  rw [h.keys, recent_concat]

theorem Shows.mem_iff (h : Shows n t uses) (key : Bytes) :
    key ∈ t.cachedKeys ↔ (CacheEngine.peek t.cache key).isSome :=
  LawfulEngine.mem_keys h.coherent.valid key

/-- Once the store is closed nothing is cached. -/
theorem Coherent.cachedKeys_of_closed (h : t.Coherent) (closed : t.store.closed = true) :
    t.cachedKeys = [] :=
  LawfulEngine.keys_eq_nil h.valid (h.emptied (.inl closed))

/-- A write is a use if it is carried out. -/
theorem Shows.put (h : Shows n t uses) (key value : Bytes) :
    Shows n (t.put key value).2 (uses ++ succeeded key (t.put key value).1) := by
  have hcoherent := (h.coherent.put key value).1
  have hcounts := cache_put (I := RecencyCache.Counts n) (fun _ h call _ => h.perform call) h.counts
    key value
  refine ⟨hcoherent, hcounts, ?_⟩
  cases hgone : t.destroyed with
  | true =>
    rw [put_destroyed hgone, succeeded, List.append_nil]
    exact h.keys
  | false =>
    cases hclosed : t.store.closed with
    | true =>
      -- refused; nothing was cached before, and nothing is now
      have hrefused : BackingStore.put t.store key value = (.error .storeClosed, t.store) := by
        simp only [BackingStore.put, MemoryStore.put, hclosed, if_true]
      have hput := put_refused hgone (congrArg Prod.fst hrefused)
      rw [hput] at hcoherent ⊢
      rw [succeeded, List.append_nil, ← h.keys, h.coherent.cachedKeys_of_closed hclosed]
      apply hcoherent.cachedKeys_of_closed
      rw [hrefused]
      exact hclosed
    | false =>
      have hstored : (BackingStore.put t.store key value).1 = .ok () := by
        simp only [BackingStore.put, MemoryStore.put, hclosed, Bool.false_eq_true, if_false]
      rw [put_stored hgone hstored, succeeded, ← h.used_cachedKeys key]
      exact h.counts.keys_put key value value.length

/-- A read is a use if it finds its key, wherever it finds it. -/
theorem Shows.get (h : Shows n t uses) (key : Bytes) :
    Shows n (t.get key).2 (uses ++ succeeded key (t.get key).1) := by
  have hcounts := cache_get (I := RecencyCache.Counts n) (fun _ h call _ => h.perform call) h.counts
    key
  refine ⟨(h.coherent.get key).1, hcounts, ?_⟩
  cases hgone : t.destroyed with
  | true =>
    rw [get_destroyed hgone, succeeded, List.append_nil]
    exact h.keys
  | false =>
    have hmem := h.mem_iff key
    cases hpeek : CacheEngine.peek t.cache key with
    | some value =>
      rw [hpeek] at hmem
      rw [get_hit hgone h.coherent.valid hpeek, succeeded, ← h.used_cachedKeys key]
      exact h.counts.keys_get (hmem.mpr rfl) h.room
    | none =>
      rw [hpeek] at hmem
      have habsent : key ∉ t.cachedKeys := fun hkey => Bool.false_ne_true (hmem.mp hkey)
      -- the cache is asked twice in vain
      have hfirst := h.counts.perform (.get key)
      have hsecond : (asked t.cache key).Counts n := hfirst.perform (.get key)
      have hkeys : CacheEngine.keys (CacheEngine.get t.cache key).2 = t.cachedKeys :=
        h.counts.keys_get_absent habsent
      have hasked : CacheEngine.keys (asked t.cache key) = t.cachedKeys := by
        rw [← hkeys] at habsent
        exact (hfirst.keys_get_absent habsent).trans hkeys
      cases hstore : (BackingStore.get t.store key).1 with
      | error failure =>
        rw [get_failed hgone h.coherent.valid hpeek hstore, succeeded, List.append_nil]
        exact hasked.trans h.keys
      | ok value =>
        rw [get_found hgone h.coherent.valid hpeek hstore, succeeded, ← h.used_cachedKeys key,
          ← hasked]
        exact hsecond.keys_put key value value.length

/-- A read of many keys uses those that it finds, in turn. -/
theorem Shows.getMany (keys : List Bytes) :
    ∀ (t : Tiers RecencyCache MemoryStore) (uses : List Bytes), Shows n t uses →
      Shows n (t.getMany keys).2 (uses ++ (t.getMany keys).1.map Prod.fst) := by
  induction keys with
  | nil =>
    intro t uses h
    rw [Tiers.getMany, List.map_nil, List.append_nil]
    exact h
  | cons key rest ih =>
    intro t uses h
    have hget := h.get key
    rw [Tiers.getMany]
    cases heq : t.get key with
    | mk outcome u =>
      rw [heq] at hget
      have hrest := ih u _ hget
      cases outcome with
      | error failure =>
        rw [succeeded, List.append_nil] at hrest
        exact hrest
      | ok value =>
        rw [succeeded, List.append_assoc] at hrest
        exact hrest

/-- Every call that takes nothing out keeps the cached keys those used last. -/
theorem Shows.answer (h : Shows n t uses) {call : StorerCall} (keeps : call.takesOut = false) :
    Shows n (Storer.answer t call).2
      (uses ++ (ClientEvent.answered call (Storer.answer t call).1).accessed) := by
  have hsame : ∀ {u : Tiers RecencyCache MemoryStore}, u.Coherent → u.cache = t.cache →
      Shows n u (uses ++ []) := by
    intro u coherent same
    rw [List.append_nil]
    exact h.of_same coherent same
  cases call with
  | put key value => exact h.put key value
  | putInEpoch key value epoch => exact h.put key value
  | get key => exact h.get key
  | getFromEpoch key epoch => exact h.get key
  | searchFirst key => exact h.get key
  | getManyFromEpoch keys epoch => exact Shows.getMany keys t uses h
  | has key => exact hsame (h.coherent.has key).1 (cache_has t key)
  | oldestEpoch => exact hsame h.coherent rfl
  | remove | removeFromCurrentEpoch | clearCache | close | destroy => cases keeps

/-- As long as nothing was taken out, the cached keys are those accessed last. -/
def Follows (n : Nat) (run : Tiers RecencyCache MemoryStore × List ClientEvent) : Prop :=
  (∀ event ∈ run.2, event.takesOut = false) → Shows n run.1 (accesses run.2)

theorem follows_concat {events : List ClientEvent} (h : Follows n (t, events))
    {u : Tiers RecencyCache MemoryStore} {event : ClientEvent}
    (step : event.takesOut = false → ∀ uses, Shows n t uses → Shows n u (uses ++ event.accessed)) :
    Follows n (u, events ++ [event]) := by
  intro kept
  rw [accesses_concat]
  apply step
  · exact kept event (List.mem_append_right _ List.mem_cons_self)
  · exact h fun e he => kept e (List.mem_append_left _ he)

/-- The invariant is kept by every call of a client. -/
theorem keeps_follows (n : Nat) : Storer.Keeps (Follows n) where
  answer h _ := follows_concat h fun kept _ hshows => hshows.answer kept
  visited h _ := follows_concat h fun _ uses hshows => by
    rw [show ClientEvent.accessed _ = [] from rfl, List.append_nil]
    exact hshows
  walk {t events} h visit step := by
    show Follows n (t.walk visit events)
    cases hgone : t.destroyed with
    | true =>
      rw [walk_destroyed hgone]
      exact h
    | false =>
      rw [walk_eq hgone]
      refine visitWhile_keeps step _ _ fun kept => ?_
      have hshows := h kept
      exact hshows.of_same hshows.coherent.snapshot.1 rfl

/-- In the beginning nothing was used and nothing is cached. -/
theorem shows_of_counted {cache : RecencyCache} (built : RecencyCache.counted n = .ok cache)
    (store : MemoryStore) : Shows n { cache, store } [] := by
  have hcounts := RecencyCache.counts_of_counted built
  rw [RecencyCache.counted_eq_ok built] at hcounts ⊢
  exact ⟨coherent_of_empty hcounts.valid fun _ => rfl, hcounts, (recent_nil n).symm⟩

/-- **The cache holds what was accessed last.** Put a cache that counts entries only in front of any
memory, and let a client make any calls that take no key out. Then the cached keys are the keys of
the last accesses, as many distinct ones as the cache has room for, in the order of their last
accesses. Calls that ask whether a key is stored, walks and reads that find nothing are no accesses;
looking at the cache gives no new tiers, so it is none either. -/
theorem cachedKeys_of_performAll {capacity : Nat} {cache : RecencyCache}
    (built : RecencyCache.counted capacity = .ok cache) (store : MemoryStore)
    (calls : List ClientCall) :
    let start : Tiers RecencyCache MemoryStore := { cache, store }
    let run := Client.performAll (start, []) calls
    (∀ event ∈ run.2, event.takesOut = false) →
      run.1.cachedKeys = recent capacity (accesses run.2) := by
  intro start run kept
  have hstart : Follows capacity (start, []) := fun _ => shows_of_counted built store
  exact ((keeps_follows capacity).performAll calls _ hstart kept).keys

/-- With room for two keys: a read that the cache answers saves the first key from the next write,
and the key evicted instead comes back by a read from the store. -/
theorem cachedKeys_of_performAll_refilled :
    ∃ cache, RecencyCache.counted 2 = .ok cache ∧
      let start : Tiers RecencyCache MemoryStore := { cache, store := {} }
      let calls : List ClientCall := [.call (.put [1] [10]), .call (.put [2] [20]),
        .call (.get [1]), .call (.put [3] [30]), .call (.get [2]), .call (.get [9]),
        .call (.has [1])]
      let run := Client.performAll (start, []) calls
      accesses run.2 = [[1], [2], [1], [3], [2]] ∧ run.1.cachedKeys = [[3], [2]] := by
  refine ⟨_, rfl, ?_⟩
  intro start calls run
  have hkept : ∀ event ∈ run.2, event.takesOut = false := by
    simp only [run, calls, Client.performAll, Client.perform]
    simp [ClientEvent.takesOut, StorerCall.takesOut]
  -- a client sees the same events without the cache
  have hstart : start.Coherent := (@shows_of_counted 2 _ rfl {}).coherent
  have hplain := (simulates_stands.performAll calls (start, []) (start.plain, [])
    ⟨⟨hstart, rfl⟩, rfl⟩).2
  have haccesses : accesses run.2 = [[1], [2], [1], [3], [2]] :=
    (congrArg accesses hplain).trans (by decide +kernel)
  have hlaw := @cachedKeys_of_performAll 2 start.cache rfl {} calls hkept
  exact ⟨haccesses, hlaw.trans ((congrArg (recent 2) haccesses).trans (by decide))⟩

end Tiers

end TieredStore
