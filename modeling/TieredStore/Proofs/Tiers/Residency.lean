import Mathlib.Logic.Basic
import TieredStore.Backing.RehearsedStore
import TieredStore.Proofs.Cache.Newest
import TieredStore.Proofs.Tiers.Client
import TieredStore.Proofs.Tiers.Coherence

/-!
# What was used last is resident

A write that succeeds and a read that succeeds leave their key in the cache: the write brings it in,
and so does the read, unless it is there already. So the next read of the key is answered without
the store. The exception is a value larger than the whole byte budget, which on its way through the
cache drives out everything, itself included (`Tiers.resident_or_overflowed`).

**The law** (`Tiers.resident_of_access`) says this of every state that a client can bring the tiers
into, together with what the store is asked: a write asks it once, a read not at all if the key is
cached and once if it is not.
-/

namespace TieredStore

/-- A call to a rehearsed store is recorded, whether it fails or not. -/
theorem RehearsedStore.calls_perform {α : Type} (s : RehearsedStore) (call : StoreCall)
    (passOn : MemoryStore → Except Failure α × MemoryStore) :
    (s.perform call passOn).2.calls = s.calls ++ [call] := by
  unfold perform
  split <;> rfl

namespace Tiers

variable {κ σ : Type} [CacheEngine κ] [BackingStore σ]

/-- A key is cached with a value, and reading it once more gives the value and leaves the store
alone. -/
structure Resident (t : Tiers κ σ) (key value : Bytes) : Prop where
  cached : key ∈ t.cachedKeys
  held : CacheEngine.peek t.cache key = some value
  read : (t.get key).1 = .ok value
  unasked : (t.get key).2.store = t.store

/-- A value larger than the byte budget of the cache has left nothing there. -/
structure Overflowed (settings : CacheSettings) (t : Tiers κ σ) (value : Bytes) : Prop where
  counted : settings.kind = .budgeted
  oversized : settings.byteBudget < value.length
  emptied : t.cachedKeys = []

theorem resident_of_peek [LawfulEngine κ] {t : Tiers κ σ} (alive : t.destroyed = false)
    (valid : LawfulEngine.Valid t.cache) {key value : Bytes}
    (held : CacheEngine.peek t.cache key = some value) : t.Resident key value := by
  have hget := get_hit alive valid held
  refine ⟨?_, held, congrArg Prod.fst hget, ?_⟩
  · rw [cachedKeys, LawfulEngine.mem_keys valid, held]
    rfl
  · rw [hget]

/-- A cached key and an empty cache exclude each other. -/
theorem Resident.not_overflowed {settings : CacheSettings} {t : Tiers κ σ} {key value : Bytes}
    (h : t.Resident key value) : ¬Overflowed settings t value := by
  intro hover
  have hcached := h.cached
  rw [hover.emptied] at hcached
  exact absurd hcached List.not_mem_nil

/-- Once a value is written to the cache, its key is resident, or the value was too large. -/
theorem resident_or_overflowed {settings : CacheSettings} {cache : Cache}
    (room : cache.HasRoom settings) (key value : Bytes) {t : Tiers Cache σ}
    (alive : t.destroyed = false)
    (written : t.cache = (CacheEngine.put cache key value value.length).2) :
    Xor (t.Resident key value) (Overflowed settings t value) := by
  have hvalid : LawfulEngine.Valid t.cache := by
    rw [written]
    exact LawfulEngine.valid_put room.valid key value value.length
  by_cases hfitting : ∀ budget, settings.budget? = some budget → value.length ≤ budget
  · have hresident : t.Resident key value := by
      apply resident_of_peek alive hvalid
      rw [written]
      exact room.peek_put hfitting
    exact .inl ⟨hresident, hresident.not_overflowed⟩
  · simp only [not_forall, Nat.not_le] at hfitting
    obtain ⟨budget, hbudget, hoversized⟩ := hfitting
    obtain ⟨hkind, hbytes⟩ := CacheSettings.budget?_eq_some.mp hbudget
    have hempty : ∀ k, CacheEngine.peek t.cache k = none := by
      rw [written]
      exact room.peek_put_oversized hbudget hoversized
    refine .inr ⟨⟨hkind, ?_, LawfulEngine.keys_eq_nil hvalid hempty⟩, ?_⟩
    · rw [hbytes]
      exact hoversized
    · intro hresident
      have hheld := hresident.held
      rw [hempty] at hheld
      cases hheld

section Accesses

variable {settings : CacheSettings} {t : Tiers Cache σ} {key value : Bytes}

/-- A write that succeeds. -/
theorem resident_of_put (room : t.cache.HasRoom settings) (stored : (t.put key value).1 = .ok ()) :
    Xor ((t.put key value).2.Resident key value)
      (Overflowed settings (t.put key value).2 value) := by
  cases halive : t.destroyed with
  | true =>
    rw [put_destroyed halive] at stored
    cases stored
  | false =>
    cases hput : (BackingStore.put t.store key value).1 with
    | error failure =>
      rw [put_refused halive hput] at stored
      cases stored
    | ok done =>
      rw [put_stored halive hput]
      exact resident_or_overflowed room key value halive rfl

/-- A read that succeeds, with the store's help or without. -/
theorem resident_of_get (room : t.cache.HasRoom settings) (found : (t.get key).1 = .ok value) :
    Xor ((t.get key).2.Resident key value) (Overflowed settings (t.get key).2 value) := by
  have hvalid := room.valid
  cases halive : t.destroyed with
  | true =>
    rw [get_destroyed halive] at found
    cases found
  | false =>
    cases hpeek : CacheEngine.peek t.cache key with
    | some held =>
      rw [get_hit halive hvalid hpeek] at found ⊢
      obtain rfl : held = value := Except.ok.inj found
      -- a hit reads what is held and drops nothing
      have hresident : Resident { t with cache := (CacheEngine.get t.cache key).2 } key held :=
        resident_of_peek (t := { t with cache := (CacheEngine.get t.cache key).2 }) halive
          (LawfulEngine.valid_get hvalid key) ((LawfulEngine.peek_get hvalid key key).trans hpeek)
      exact .inl ⟨hresident, hresident.not_overflowed⟩
    | none =>
      cases hget : (BackingStore.get t.store key).1 with
      | error failure =>
        rw [get_failed halive hvalid hpeek hget] at found
        cases found
      | ok stored =>
        rw [get_found halive hvalid hpeek hget] at found ⊢
        obtain rfl : stored = value := Except.ok.inj found
        have hroom := (room.perform (.get key)).perform (.get key)
        exact resident_or_overflowed hroom key stored halive rfl

end Accesses

/-! ## What the store is asked -/

section Asked

variable {κ : Type} [CacheEngine κ] {t : Tiers κ RehearsedStore}

theorem calls_put (alive : t.destroyed = false) (key value : Bytes) :
    (t.put key value).2.store.calls = t.store.calls ++ [.put] := by
  have hcalls : (BackingStore.put t.store key value).2.calls = t.store.calls ++ [.put] :=
    t.store.calls_perform .put _
  cases hput : (BackingStore.put t.store key value).1 with
  | error failure =>
    rw [put_refused alive hput]
    exact hcalls
  | ok done =>
    rw [put_stored alive hput]
    exact hcalls

theorem calls_get [LawfulEngine κ] (alive : t.destroyed = false)
    (valid : LawfulEngine.Valid t.cache) (key : Bytes) :
    (t.get key).2.store.calls =
      if t.isCached key then t.store.calls else t.store.calls ++ [.get] := by
  have hcalls : (BackingStore.get t.store key).2.calls = t.store.calls ++ [.get] :=
    t.store.calls_perform .get _
  rw [isCached, LawfulEngine.has_eq valid]
  cases hpeek : CacheEngine.peek t.cache key with
  | some held =>
    rw [get_hit alive valid hpeek]
    rfl
  | none =>
    cases hget : (BackingStore.get t.store key).1 with
    | error failure =>
      rw [get_failed alive valid hpeek hget]
      exact hcalls
    | ok stored =>
      rw [get_found alive valid hpeek hget]
      exact hcalls

end Asked

/-- **What was used last is resident.** Take the tiers that any calls have left of a new cache of
any settings, in front of any store. After a write or a read that succeeds, exactly one of two
things holds: the key is cached with the value, and reading it once more gives the value without the
store; or the cache has a byte budget that is smaller than the value, and it is empty. While the
tiers are not destroyed, a write asks the store once, and a read does only if the key is not cached,
once. -/
theorem resident_of_access {settings : CacheSettings} {cache : Cache}
    (built : Cache.ofSettings settings = .ok cache) :
    (∀ {σ : Type} [BackingStore σ] (store : σ) (calls : List ClientCall) (key value : Bytes),
      let t := (Client.performAll (({ cache, store } : Tiers Cache σ), []) calls).1
      ((t.put key value).1 = .ok () →
        Xor ((t.put key value).2.Resident key value)
          (Overflowed settings (t.put key value).2 value)) ∧
      ((t.get key).1 = .ok value →
        Xor ((t.get key).2.Resident key value) (Overflowed settings (t.get key).2 value))) ∧
    ∀ (store : RehearsedStore) (calls : List ClientCall) (key value : Bytes),
      let t := (Client.performAll (({ cache, store } : Tiers Cache RehearsedStore), []) calls).1
      t.destroyed = false →
        (t.put key value).2.store.calls = t.store.calls ++ [.put] ∧
        (t.get key).2.store.calls =
          if t.isCached key then t.store.calls else t.store.calls ++ [.get] := by
  have hroom : ∀ {σ : Type} [BackingStore σ] (store : σ) (calls : List ClientCall),
      (Client.performAll (({ cache, store } : Tiers Cache σ), []) calls).1.cache.HasRoom
        settings := by
    intro σ _ store calls
    have hkeeps := keeps_cache (κ := Cache) (σ := σ) fun c h call =>
      @Cache.HasRoom.perform settings c h call
    exact hkeeps.performAll calls _ (Cache.hasRoom_of_ofSettings built)
  constructor
  · intro σ _ store calls key value t
    exact ⟨resident_of_put (hroom store calls), resident_of_get (hroom store calls)⟩
  · intro store calls key value t halive
    exact ⟨calls_put halive key value, calls_get halive (hroom store calls).valid key⟩

/-- Behind a budget of 1024 bytes, a key that is cached is read without the store, and a value of
1025 bytes leaves nothing in the cache when it is written. -/
theorem resident_of_access_budgeted :
    let settings : CacheSettings := { kind := .budgeted, byteBudget := 1024 }
    let large : Bytes := List.replicate 1025 7
    ∃ cache, Cache.ofSettings settings = .ok cache ∧
      let t := (Client.performAll
        (({ cache, store := {} } : Tiers Cache RehearsedStore), []) [.call (.put [1] [10])]).1
      (t.get [1]).2.Resident [1] [10] ∧ (t.get [1]).2.store.calls = [.put] ∧
        Overflowed settings (t.put [2] large).2 large ∧
        (t.put [2] large).2.store.calls = [.put, .put] := by
  intro settings large
  have hbuilt : Cache.ofSettings settings = .ok (.lru ⟨1000, some 1024, .empty⟩) := rfl
  obtain ⟨hresidency, hasked⟩ := resident_of_access hbuilt
  refine ⟨_, hbuilt, ?_, ?_, ?_, ?_⟩
  · rcases (hresidency ({} : RehearsedStore) [.call (.put [1] [10])] [1] [10]).2 rfl with h | h
    · exact h.1
    · exact absurd h.1.oversized (by decide)
  · exact (hasked {} [.call (.put [1] [10])] [1] [10] rfl).2.trans rfl
  · have hlarge : 1024 < large.length := by
      rw [List.length_replicate]
      decide
    generalize large = large at hlarge ⊢
    rcases (hresidency ({} : RehearsedStore) [.call (.put [1] [10])] [2] large).1 rfl with h | h
    · have hroom := (Cache.hasRoom_of_ofSettings hbuilt).perform (.put [1] [10] 1)
      have hgone := @Cache.HasRoom.peek_put_oversized _ _ [2] large _ hroom _ rfl hlarge [2]
      cases hgone.symm.trans h.1.held
    · exact h.1
  · exact (hasked {} [.call (.put [1] [10])] [2] large rfl).1.trans rfl

end Tiers

end TieredStore
