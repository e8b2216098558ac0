import TieredStore.Proofs.Backing.MemoryLike
import TieredStore.Proofs.Cache.LawfulEngine
import TieredStore.Tiers

/-!
# The tiers are coherent

`Tiers.Coherent` is what holds of a cache in front of a store between two calls: whatever the cache
has for a key is what the memory behind the store has, and the cache is empty once the store is
closed or the tiers are destroyed. Every call keeps it, whether the store carries the call out or
fails it: a call takes entries away from the cache, or brings one in that the memory has.

Beside it each lemma says what the call did to the memory. The read comes first as an equation in
each of its three ways (`get_destroyed`, `get_hit`, `get_miss`).
-/

namespace TieredStore.Tiers

variable {κ σ : Type} [CacheEngine κ] [LawfulEngine κ] [BackingStore σ]

/-! ## The ways of a call -/

section Ways

variable {t : Tiers κ σ} {key value : Bytes} {failure : Failure}

omit [LawfulEngine κ] in
/-- Destroyed tiers are not written to. -/
theorem put_destroyed (gone : t.destroyed = true) (key value : Bytes) :
    t.put key value = (.error .destroyed, t) := by
  rw [put, gone]
  rfl

omit [LawfulEngine κ] in
/-- A value is written to the cache before the store has taken it. -/
theorem put_stored (alive : t.destroyed = false)
    (stored : (BackingStore.put t.store key value).1 = .ok ()) :
    t.put key value =
      (.ok (),
        { t with
          cache := (CacheEngine.put t.cache key value value.length).2
          store := (BackingStore.put t.store key value).2 }) := by
  have hcall : BackingStore.put t.store key value =
      (.ok (), (BackingStore.put t.store key value).2) :=
    Prod.ext stored rfl
  rw [put, alive, if_neg Bool.false_ne_true, hcall]

omit [LawfulEngine κ] in
/-- A write that the store refuses is taken back from the cache. -/
theorem put_refused (alive : t.destroyed = false)
    (refused : (BackingStore.put t.store key value).1 = .error failure) :
    t.put key value =
      (.error failure,
        { t with
          cache := CacheEngine.remove (CacheEngine.put t.cache key value value.length).2 key
          store := (BackingStore.put t.store key value).2 }) := by
  have hcall : BackingStore.put t.store key value =
      (.error failure, (BackingStore.put t.store key value).2) :=
    Prod.ext refused rfl
  rw [put, alive, if_neg Bool.false_ne_true, hcall]

/-- A cache that was asked for a key twice in a row. -/
def asked (cache : κ) (key : Bytes) : κ :=
  (CacheEngine.get (CacheEngine.get cache key).2 key).2

omit [LawfulEngine κ] [BackingStore σ] in
theorem lookup_destroyed (gone : t.destroyed = true) (key : Bytes) :
    t.lookup key = (.error .destroyed, t) := by
  rw [lookup, if_pos gone]

omit [LawfulEngine κ] in
/-- Destroyed tiers are not read, though the value may be at hand. -/
theorem get_destroyed (gone : t.destroyed = true) (key : Bytes) :
    t.get key = (.error .destroyed, t) := by
  rw [get, lookup_destroyed gone]

omit [BackingStore σ] in
/-- The first section gives what the cache has, and tells the cache that it was asked. -/
theorem lookup_eq (alive : t.destroyed = false) (valid : LawfulEngine.Valid t.cache)
    (key : Bytes) :
    t.lookup key =
      (.ok (CacheEngine.peek t.cache key),
        { t with cache := (CacheEngine.get t.cache key).2 }) := by
  rw [lookup, alive, ← LawfulEngine.get_fst valid key]
  rfl

/-- A read that the cache answers does not ask the store. -/
theorem get_hit (alive : t.destroyed = false) (valid : LawfulEngine.Valid t.cache)
    (hit : CacheEngine.peek t.cache key = some value) :
    t.get key = (.ok value, { t with cache := (CacheEngine.get t.cache key).2 }) := by
  rw [get, lookup_eq alive valid, hit]

/-- A read that the cache does not answer misses in both sections and asks the store. -/
theorem get_miss (alive : t.destroyed = false) (valid : LawfulEngine.Valid t.cache)
    (miss : CacheEngine.peek t.cache key = none) :
    t.get key =
      match BackingStore.get t.store key with
      | (.error failure, store) => (.error failure, { t with cache := asked t.cache key, store })
      | (.ok value, store) =>
        (.ok value,
          { t with
            cache := (CacheEngine.put (asked t.cache key) key value value.length).2
            store }) := by
  have hvalid := LawfulEngine.valid_get valid key
  have hmiss := (LawfulEngine.peek_get valid key key).trans miss
  rw [get, lookup_eq alive valid, miss]
  show fetch { t with cache := (CacheEngine.get t.cache key).2 } key = _
  rw [fetch, lookup_eq (t := { t with cache := (CacheEngine.get t.cache key).2 }) alive hvalid,
    hmiss]
  rfl

/-- Where neither tier has a value, nothing is brought into the cache. -/
theorem get_failed (alive : t.destroyed = false) (valid : LawfulEngine.Valid t.cache)
    (miss : CacheEngine.peek t.cache key = none)
    (failed : (BackingStore.get t.store key).1 = .error failure) :
    t.get key =
      (.error failure,
        { t with cache := asked t.cache key, store := (BackingStore.get t.store key).2 }) := by
  have hcall : BackingStore.get t.store key = (.error failure, (BackingStore.get t.store key).2) :=
    Prod.ext failed rfl
  rw [get_miss alive valid miss, hcall]

/-- What the store finds is brought into the cache. -/
theorem get_found (alive : t.destroyed = false) (valid : LawfulEngine.Valid t.cache)
    (miss : CacheEngine.peek t.cache key = none)
    (found : (BackingStore.get t.store key).1 = .ok value) :
    t.get key =
      (.ok value,
        { t with
          cache := (CacheEngine.put (asked t.cache key) key value value.length).2
          store := (BackingStore.get t.store key).2 }) := by
  have hcall : BackingStore.get t.store key = (.ok value, (BackingStore.get t.store key).2) :=
    Prod.ext found rfl
  rw [get_miss alive valid miss, hcall]

omit [LawfulEngine κ] in
theorem remove_destroyed (gone : t.destroyed = true) (key : Bytes) :
    t.remove key = (.error .destroyed, t) := by
  rw [remove, gone]
  rfl

omit [LawfulEngine κ] in
/-- A key leaves the cache before the store is asked to remove it. -/
theorem remove_eq (alive : t.destroyed = false) (key : Bytes) :
    t.remove key =
      ((BackingStore.remove t.store key).1,
        { t with
          cache := CacheEngine.remove t.cache key
          store := (BackingStore.remove t.store key).2 }) := by
  rw [remove, alive, if_neg Bool.false_ne_true]
  rfl

omit [LawfulEngine κ] in
theorem destroy_destroyed (gone : t.destroyed = true) : t.destroy = (.error .destroyed, t) := by
  rw [destroy, gone]
  rfl

omit [LawfulEngine κ] in
/-- A destruction that succeeds ends the tiers. -/
theorem destroy_done (alive : t.destroyed = false)
    (done : (BackingStore.destroy t.store).1 = .ok ()) :
    t.destroy =
      (.ok (),
        { t with
          cache := CacheEngine.clear t.cache
          store := (BackingStore.destroy t.store).2
          destroyed := true }) := by
  have hcall : BackingStore.destroy t.store = (.ok (), (BackingStore.destroy t.store).2) :=
    Prod.ext done rfl
  rw [destroy, alive, if_neg Bool.false_ne_true, hcall]

omit [LawfulEngine κ] in
/-- One that the store refuses leaves them in use, with an empty cache. -/
theorem destroy_refused (alive : t.destroyed = false)
    (refused : (BackingStore.destroy t.store).1 = .error failure) :
    t.destroy =
      (.error failure,
        { t with
          cache := CacheEngine.clear t.cache
          store := (BackingStore.destroy t.store).2 }) := by
  have hcall : BackingStore.destroy t.store = (.error failure, (BackingStore.destroy t.store).2) :=
    Prod.ext refused rfl
  rw [destroy, alive, if_neg Bool.false_ne_true, hcall]

omit [CacheEngine κ] [LawfulEngine κ] in
theorem walk_destroyed {τ : Type} (gone : t.destroyed = true)
    (visit : Bytes × Bytes → Tiers κ σ × τ → Bool × Tiers κ σ × τ) (start : τ) :
    t.walk visit start = (t, start) := by
  rw [walk, if_pos gone]

omit [CacheEngine κ] [LawfulEngine κ] in
/-- The pairs are taken before the visitor is called, so what it does to the tiers does not change
them. -/
theorem walk_eq {τ : Type} (alive : t.destroyed = false)
    (visit : Bytes × Bytes → Tiers κ σ × τ → Bool × Tiers κ σ × τ) (start : τ) :
    t.walk visit start =
      visitWhile visit (BackingStore.snapshot t.store).1
        ({ t with store := (BackingStore.snapshot t.store).2 }, start) := by
  rw [walk, if_neg (Bool.eq_false_iff.mp alive)]

end Ways

omit [CacheEngine κ] [LawfulEngine κ] in
/-- A walk over memory in use goes over its pairs as they are, in the order of the memory. -/
theorem walk_inUse {τ : Type} {t : Tiers κ MemoryStore} (alive : t.destroyed = false)
    (inUse : t.store.closed = false)
    (visit : Bytes × Bytes → Tiers κ MemoryStore × τ → Bool × Tiers κ MemoryStore × τ)
    (start : τ) :
    t.walk visit start =
      visitWhile visit (t.store.order.arrange t.store.pairs.toList) (t, start) := by
  have hpairs : (BackingStore.snapshot t.store).1 = t.store.order.arrange t.store.pairs.toList :=
    if_neg (Bool.eq_false_iff.mp inUse)
  rw [walk_eq alive, hpairs]
  rfl

omit [BackingStore σ] in
theorem valid_asked {cache : κ} (valid : LawfulEngine.Valid cache) (key : Bytes) :
    LawfulEngine.Valid (asked cache key) :=
  LawfulEngine.valid_get (LawfulEngine.valid_get valid key) key

/-- Asking moves keys and changes no value. -/
theorem peek_asked {cache : κ} (valid : LawfulEngine.Valid cache) (key k : Bytes) :
    CacheEngine.peek (asked cache key) k = CacheEngine.peek cache k :=
  (LawfulEngine.peek_get (LawfulEngine.valid_get valid key) key k).trans
    (LawfulEngine.peek_get valid key k)

/-! ## The invariant -/

variable [MemoryLike σ]

/-- The memory behind the store. -/
def memory (t : Tiers κ σ) : MemoryStore := MemoryLike.memory t.store

/-- The cache has only what the memory has, and nothing once that is out of reach. -/
structure Coherent (t : Tiers κ σ) : Prop where
  valid : LawfulEngine.Valid t.cache
  stored : ∀ {key value}, CacheEngine.peek t.cache key = some value →
    t.memory.pairs[key]? = some value
  emptied : t.memory.closed = true ∨ t.destroyed = true →
    ∀ key, CacheEngine.peek t.cache key = none

variable {t : Tiers κ σ}

/-- A cache that only loses entries stays coherent with the memory. -/
theorem Coherent.of_lost (h : t.Coherent) {u : Tiers κ σ} (valid : LawfulEngine.Valid u.cache)
    (lost : ∀ {key value}, CacheEngine.peek u.cache key = some value →
      CacheEngine.peek t.cache key = some value)
    (memory : u.memory = t.memory) (destroyed : u.destroyed = t.destroyed) : u.Coherent where
  valid := valid
  stored held := by
    rw [memory]
    exact h.stored (lost held)
  emptied out key := by
    rw [memory, destroyed] at out
    refine Option.eq_none_iff_forall_ne_some.mpr fun value held => ?_
    cases (h.emptied out key).symm.trans (lost held)

/-- An empty cache is coherent with any memory. -/
theorem coherent_of_empty {u : Tiers κ σ} (valid : LawfulEngine.Valid u.cache)
    (empty : ∀ key, CacheEngine.peek u.cache key = none) : u.Coherent where
  valid := valid
  stored held := by
    rw [empty] at held
    cases held
  emptied _ := empty

/-- Tiers with data in the cache are in use. -/
theorem Coherent.alive (h : t.Coherent) {key value : Bytes}
    (held : CacheEngine.peek t.cache key = some value) :
    t.memory.closed = false ∧ t.destroyed = false := by
  refine ⟨Bool.eq_false_iff.mpr fun hclosed => ?_, Bool.eq_false_iff.mpr fun hgone => ?_⟩
  · cases (h.emptied (.inl hclosed) key).symm.trans held
  · cases (h.emptied (.inr hgone) key).symm.trans held

/-- A cache that is written to stays coherent with a memory that has what was written and keeps
what it has under other keys. -/
theorem Coherent.of_written (h : t.Coherent) {cache : κ} (valid : LawfulEngine.Valid cache)
    (same : ∀ k, CacheEngine.peek cache k = CacheEngine.peek t.cache k) {u : Tiers κ σ}
    {key value : Bytes} {size : Nat} (written : u.cache = (CacheEngine.put cache key value size).2)
    (own : u.memory.pairs[key]? = some value)
    (others : ∀ k, k ≠ key → u.memory.pairs[k]? = t.memory.pairs[k]?)
    (inUse : u.memory.closed = false ∧ u.destroyed = false) : u.Coherent where
  valid := by
    rw [written]
    exact LawfulEngine.valid_put valid key value size
  stored {k v} held := by
    rw [written] at held
    rcases LawfulEngine.peek_put valid held with ⟨rfl, rfl⟩ | ⟨hne, hold⟩
    · exact own
    · rw [others k hne]
      exact h.stored ((same k).symm.trans hold)
  emptied out := by
    rw [inUse.1, inUse.2] at out
    rcases out with hfalse | hfalse <;> cases hfalse

/-! ## What each call does -/

/-- A write is stored and answered with success, or fails and leaves the memory alone. -/
theorem Coherent.put (h : t.Coherent) (key value : Bytes) :
    (t.put key value).2.Coherent ∧
      ((∃ failure, (t.put key value).1 = .error failure) ∧
          (t.put key value).2.memory = t.memory ∨
        (t.put key value).1 = .ok () ∧
          (t.put key value).2.memory =
            { t.memory with pairs := t.memory.pairs.insert key value }) := by
  cases hgone : t.destroyed with
  | true =>
    rw [put_destroyed hgone]
    exact ⟨h, .inl ⟨⟨_, rfl⟩, rfl⟩⟩
  | false =>
    have hvalid := LawfulEngine.valid_put h.valid key value value.length
    rcases MemoryLike.put_cases t.store key value with
      ⟨⟨failure, hrefused⟩, hsame⟩ | ⟨hstored, hopen, hmemory⟩
    · rw [put_refused hgone hrefused]
      exact ⟨h.of_lost (LawfulEngine.valid_remove hvalid key)
        (fun held => (LawfulEngine.of_peek_remove_put h.valid held).2) hsame rfl,
        .inl ⟨⟨_, rfl⟩, hsame⟩⟩
    · rw [put_stored hgone hstored]
      refine ⟨h.of_written h.valid (fun _ => rfl) rfl ?_ ?_ ⟨?_, hgone⟩, .inr ⟨rfl, hmemory⟩⟩
      · rw [memory, hmemory, OrderedMap.getElem?_insert, if_pos rfl]
      · intro k hne
        rw [memory, hmemory, OrderedMap.getElem?_insert, if_neg (Ne.symm hne)]
        rfl
      · rw [memory, hmemory]
        exact hopen

/-- A read gives what the memory has, if anything, and leaves the memory alone. -/
theorem Coherent.get (h : t.Coherent) (key : Bytes) :
    (t.get key).2.Coherent ∧ (t.get key).2.memory = t.memory ∧
      ∀ value, (t.get key).1 = .ok value → t.memory.pairs[key]? = some value := by
  cases hgone : t.destroyed with
  | true =>
    rw [get_destroyed hgone]
    exact ⟨h, rfl, fun value hok => nomatch hok⟩
  | false =>
    cases hpeek : CacheEngine.peek t.cache key with
    | some found =>
      rw [get_hit hgone h.valid hpeek]
      refine ⟨h.of_lost (LawfulEngine.valid_get h.valid key) ?_ rfl rfl, rfl, ?_⟩
      · intro k v held
        exact (LawfulEngine.peek_get h.valid key k).symm.trans held
      · rintro value hok
        rw [← Except.ok.inj hok]
        exact h.stored hpeek
    | none =>
      have hvalid := valid_asked h.valid key
      obtain ⟨hsame, ⟨failure, hfailed⟩ | ⟨found, hfound, hopen, hpairs⟩⟩ :=
        MemoryLike.get_cases t.store key
      · rw [get_failed hgone h.valid hpeek hfailed]
        refine ⟨h.of_lost hvalid ?_ hsame rfl, hsame, fun value hok => nomatch hok⟩
        intro k v held
        exact (peek_asked h.valid key k).symm.trans held
      · rw [get_found hgone h.valid hpeek hfound]
        refine ⟨h.of_written hvalid (peek_asked h.valid key) rfl ?_ ?_ ⟨?_, hgone⟩, hsame, ?_⟩
        · rw [memory, hsame]
          exact hpairs
        · intro k _
          rw [memory, hsame]
          rfl
        · rw [memory, hsame]
          exact hopen
        · rintro value hok
          rw [← Except.ok.inj hok]
          exact hpairs

/-- So does a read of many keys. -/
theorem Coherent.getMany (keys : List Bytes) :
    ∀ t : Tiers κ σ, t.Coherent →
      (t.getMany keys).2.Coherent ∧ (t.getMany keys).2.memory = t.memory ∧
        ∀ pair ∈ (t.getMany keys).1, t.memory.pairs[pair.1]? = some pair.2 := by
  induction keys with
  | nil => exact fun t h => ⟨h, rfl, fun pair hpair => absurd hpair List.not_mem_nil⟩
  | cons key rest ih =>
    intro t h
    obtain ⟨hnext, hsame, hread⟩ := h.get key
    obtain ⟨hlast, hrest, hpairs⟩ := ih (t.get key).2 hnext
    rw [hsame] at hrest hpairs
    cases hget : t.get key with
    | mk outcome u =>
      rw [hget] at hlast hrest hpairs hread
      rw [Tiers.getMany, hget]
      cases outcome with
      | error failure => exact ⟨hlast, hrest, hpairs⟩
      | ok value =>
        refine ⟨hlast, hrest, fun pair hpair => ?_⟩
        rcases List.mem_cons.mp hpair with rfl | hpair
        · exact hread value rfl
        · exact hpairs pair hpair

/-- Asking for a key changes neither tier. -/
theorem Coherent.has (h : t.Coherent) (key : Bytes) :
    (t.has key).2.Coherent ∧ (t.has key).2.memory = t.memory := by
  unfold Tiers.has
  split
  · exact ⟨h, rfl⟩
  · split
    · exact ⟨h, rfl⟩
    · have hsame := MemoryLike.memory_has t.store key
      exact ⟨h.of_lost h.valid id hsame rfl, hsame⟩

/-- A removal is carried out and answered with success, or fails and leaves the memory alone. -/
theorem Coherent.remove (h : t.Coherent) (key : Bytes) :
    (t.remove key).2.Coherent ∧
      ((∃ failure, (t.remove key).1 = .error failure) ∧ (t.remove key).2.memory = t.memory ∨
        (t.remove key).1 = .ok () ∧
          (t.remove key).2.memory = { t.memory with pairs := t.memory.pairs.erase key }) := by
  cases hgone : t.destroyed with
  | true =>
    rw [remove_destroyed hgone]
    exact ⟨h, .inl ⟨⟨_, rfl⟩, rfl⟩⟩
  | false =>
    have hvalid := LawfulEngine.valid_remove h.valid key
    rw [remove_eq hgone]
    rcases MemoryLike.remove_cases t.store key with
      ⟨⟨failure, hrefused⟩, hsame⟩ | ⟨hdone, hopen, hmemory⟩
    · exact ⟨h.of_lost hvalid (fun held => (LawfulEngine.of_peek_remove h.valid held).2) hsame rfl,
        .inl ⟨⟨failure, hrefused⟩, hsame⟩⟩
    · refine ⟨⟨hvalid, ?_, ?_⟩, .inr ⟨hdone, hmemory⟩⟩
      · intro k v held
        obtain ⟨hne, hold⟩ := LawfulEngine.of_peek_remove h.valid held
        rw [memory, hmemory, OrderedMap.getElem?_erase, if_neg hne]
        exact h.stored hold
      · rw [memory, hmemory]
        rintro (hclosed | hdestroyed)
        · cases hopen.symm.trans hclosed
        · cases hgone.symm.trans hdestroyed

/-- An empty cache has nothing that could be wrong. -/
theorem Coherent.clearCache (h : t.Coherent) : t.clearCache.Coherent :=
  coherent_of_empty (LawfulEngine.valid_clear h.valid) (LawfulEngine.peek_clear h.valid)

/-- The cache is empty after a close, whether the store was closed or refused. -/
theorem Coherent.close (h : t.Coherent) :
    t.close.2.Coherent ∧
      (t.close.2.memory = t.memory ∨ t.close.2.memory = t.memory.close) := by
  refine ⟨coherent_of_empty (LawfulEngine.valid_clear h.valid)
    (LawfulEngine.peek_clear h.valid), ?_⟩
  rcases MemoryLike.close_cases t.store with ⟨_, hsame⟩ | ⟨_, hmemory⟩
  · exact .inl hsame
  · exact .inr hmemory

/-- The data is destroyed and the answer is success, or the call fails and leaves the memory
alone. -/
theorem Coherent.destroy (h : t.Coherent) :
    t.destroy.2.Coherent ∧
      ((∃ failure, t.destroy.1 = .error failure) ∧ t.destroy.2.memory = t.memory ∨
        t.destroy.1 = .ok () ∧ t.destroy.2.memory = t.memory.destroy) := by
  cases hgone : t.destroyed with
  | true =>
    rw [destroy_destroyed hgone]
    exact ⟨h, .inl ⟨⟨_, rfl⟩, rfl⟩⟩
  | false =>
    have hvalid := LawfulEngine.valid_clear h.valid
    have hempty := LawfulEngine.peek_clear h.valid
    rcases MemoryLike.destroy_cases t.store with
      ⟨⟨failure, hrefused⟩, hsame⟩ | ⟨hdone, hmemory⟩
    · rw [destroy_refused hgone hrefused]
      exact ⟨coherent_of_empty hvalid hempty, .inl ⟨⟨failure, rfl⟩, hsame⟩⟩
    · rw [destroy_done hgone hdone]
      exact ⟨coherent_of_empty hvalid hempty, .inr ⟨rfl, hmemory⟩⟩

/-- The pairs are taken before the walk, which changes neither tier. -/
theorem Coherent.snapshot (h : t.Coherent) :
    ({ t with store := (BackingStore.snapshot t.store).2 } : Tiers κ σ).Coherent ∧
      ({ t with store := (BackingStore.snapshot t.store).2 } : Tiers κ σ).memory = t.memory := by
  have hsame := (MemoryLike.snapshot t.store).2
  exact ⟨h.of_lost h.valid id hsame rfl, hsame⟩

end TieredStore.Tiers
