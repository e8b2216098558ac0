import TieredStore.Backing.RehearsedStore
import TieredStore.Proofs.Cache.BySettings
import TieredStore.Proofs.Tiers.Coherence
import TieredStore.Proofs.Tiers.Destroyed
import TieredStore.Proofs.Tiers.Matched

/-!
# A read in two sections is one read

The tiers are free between the two sections of a read. What the first one saw may be outdated when
the second one begins: the key was written or removed, brought in by another read, evicted, or the
tiers were destroyed. The second section relies on none of it, because it asks again.

It is not quite a read of its own. A whole read that misses has asked the cache once more, and a
recency cache has taken a tick for that. No call ever shows the tick (`Cache.alike_of_missed`), so
the tiers that the two leave are matched (`Tiers.fetch_agrees`).

**The law** (`Tiers.getInterrupted_agrees`): a read that misses takes place at its second section.
What it answers there, and what it leaves, is what a whole read at that moment would.
-/

namespace TieredStore

/-! ## A miss is not seen -/

namespace RecencyCache

variable {c d : RecencyCache}

/-- Caches with the same view cannot be told apart, whatever their ticks are. -/
theorem alike_of_view (left : c.table.Valid) (right : d.table.Valid) (same : c.view = d.view) :
    CacheEngine.Alike c d := by
  intro calls
  rw [(performAll_view left calls).1, same, (performAll_view right calls).1]

/-- A miss is not seen in the entries; it only takes a tick. -/
theorem view_missed (valid : c.table.Valid) {key : Bytes} (miss : c.peek key = none) :
    (c.get key).2.view = c.view := by
  have hfind : c.view.entries.find key = none := by
    rw [view_peek valid, Listing.value, Option.map_eq_none_iff] at miss
    exact miss
  rw [(view_get valid key).2.2, RecencyList.get, hfind]

end RecencyCache

namespace Cache

/-- The answers of a cache of a policy are those of the cache of that policy. -/
theorem performAll_lru (c : RecencyCache) (calls : List CacheCall) :
    (CacheEngine.performAll (lru c) calls).1 = (CacheEngine.performAll c calls).1 := by
  refine (CacheEngine.performAll_agree (R := fun cache c => cache = lru c) ?_ calls _ c rfl).1
  rintro _ c rfl call
  exact ⟨by cases call <;> rfl, perform_lru c call⟩

/-- A read that finds nothing leaves a cache that cannot be told from the one before. -/
theorem alike_of_missed {c : Cache} (valid : c.Valid) {key : Bytes}
    (miss : CacheEngine.peek c key = none) : CacheEngine.Alike c (CacheEngine.get c key).2 := by
  cases c with
  | lru c =>
    have hview := RecencyCache.view_missed valid miss
    have halike := RecencyCache.alike_of_view valid (RecencyCache.view_get valid key).2.1 hview.symm
    intro calls
    rw [performAll_lru, halike calls]
    exact (performAll_lru (c.get key).2 calls).symm
  | fifo c => exact fun calls => rfl

end Cache

namespace Tiers

/-! ## The second section -/

/-- What shows of two tiers between two calls is the same. -/
structure Indistinct {κ σ : Type} [CacheEngine κ] (t u : Tiers κ σ) : Prop where
  cachedKeys : t.cachedKeys = u.cachedKeys
  stats : t.stats = u.stats
  store : t.store = u.store
  destroyed : t.destroyed = u.destroyed

/-- Tiers over the same store with caches that are alike are told apart by no client. -/
theorem Matched.indistinct {κ σ : Type} [CacheEngine κ] {t u : Tiers κ σ}
    (h : Matched CacheEngine.Alike Eq t u) : t.Indistinct u := by
  obtain ⟨destroyed, hcache, rfl⟩ := h
  have hentries := CacheAnswer.count.inj (hcache.perform .size).1
  have hbytes := CacheAnswer.count.inj (hcache.perform .byteSize).1
  have hcapacity := CacheAnswer.count.inj (hcache.perform .capacity).1
  refine ⟨CacheAnswer.keys.inj (hcache.perform .keys).1, ?_, rfl, rfl⟩
  rw [stats, hentries, hbytes, hcapacity]
  rfl

variable {σ : Type} [BackingStore σ] {t : Tiers Cache σ}

omit [BackingStore σ] in
theorem matched_refl (t : Tiers Cache σ) : Matched CacheEngine.Alike Eq t t :=
  .intro t.destroyed (fun _ => rfl) rfl

/-- The second section of a read does what a whole read does. -/
theorem fetch_agrees (valid : t.cache.Valid) (key : Bytes) :
    Agree (Matched CacheEngine.Alike Eq) (t.fetch key) (t.get key) := by
  cases hgone : t.destroyed with
  | true =>
    rw [get, fetch, lookup_destroyed hgone]
    exact ⟨rfl, matched_refl t⟩
  | false =>
    have hlookup := lookup_eq hgone valid key
    cases hpeek : CacheEngine.peek t.cache key with
    | some value =>
      rw [get, fetch, hlookup, hpeek]
      exact ⟨rfl, matched_refl _⟩
    | none =>
      -- the whole read has asked the cache before it comes to its own second section
      have hmatched : Matched CacheEngine.Alike Eq t
          { t with cache := (CacheEngine.get t.cache key).2 } :=
        .intro t.destroyed (Cache.alike_of_missed valid hpeek) rfl
      have hget : t.get key = fetch { t with cache := (CacheEngine.get t.cache key).2 } key := by
        rw [get, hlookup, hpeek]
      rw [hget]
      exact hmatched.fetch CacheEngine.simulates_alike BackingStore.simulates_eq key

/-- A read whose sections lie apart: where the first one misses, a client makes calls before the
second one begins. -/
def getInterrupted {κ : Type} [CacheEngine κ] (t : Tiers κ σ) (key : Bytes)
    (between : List ClientCall) : Except Failure Bytes × Tiers κ σ :=
  match t.lookup key with
  | (.error failure, t) => (.error failure, t)
  | (.ok (some value), t) => (.ok value, t)
  | (.ok none, t) => (Client.performAll (t, []) between).1.fetch key

/-- Without calls in between it is the whole read. -/
theorem getInterrupted_nil {κ : Type} [CacheEngine κ] (t : Tiers κ σ) (key : Bytes) :
    t.getInterrupted key [] = t.get key := by
  rw [getInterrupted, get]
  rcases t.lookup key with ⟨failure | _ | value, u⟩
  · rfl
  · rfl
  · rfl

/-- A read that misses in its first section goes on with the second after whatever came between. -/
theorem getInterrupted_of_missed {key : Bytes} (missed : (t.lookup key).1 = .ok none)
    (between : List ClientCall) :
    t.getInterrupted key between =
      (Client.performAll ((t.lookup key).2, []) between).1.fetch key := by
  have hlookup : t.lookup key = (.ok none, (t.lookup key).2) := Prod.ext missed rfl
  rw [getInterrupted, hlookup]

/-- **A read in two sections is one read.** Take the tiers that any calls have left of a new cache
of any settings in front of any store, let the first section of a read miss, and let a client make
any calls before the second one begins. The read then answers what a whole read at that moment
would, and leaves the same keys cached in the same order, the same statistics and the same store,
so one that records its calls has the same ones; and no later call shows which of the two it was. A
value that has been brought in meanwhile is read without the store, and if the data has been
destroyed the read is turned away. -/
theorem getInterrupted_agrees {settings : CacheSettings} {cache : Cache}
    (built : Cache.ofSettings settings = .ok cache) {σ : Type} [BackingStore σ] (store : σ)
    (calls : List ClientCall) (key : Bytes) (between : List ClientCall) :
    let t := (Client.performAll (({ cache, store } : Tiers Cache σ), []) calls).1
    let u := (Client.performAll ((t.lookup key).2, []) between).1
    let split := t.getInterrupted key between
    let whole := u.get key
    t.getInterrupted key [] = t.get key ∧
      ((t.lookup key).1 = .ok none →
        split = u.fetch key ∧ split.1 = whole.1 ∧ split.2.Indistinct whole.2 ∧
          (∀ later,
            let run := Client.performAll (split.2, []) later
            let run' := Client.performAll (whole.2, []) later
            run.2 = run'.2 ∧ run.1.Indistinct run'.1) ∧
          (∀ value, CacheEngine.peek u.cache key = some value →
            split.1 = .ok value ∧ split.2.store = u.store) ∧
          (u.destroyed = true → split = (.error .destroyed, u))) := by
  intro t u split whole
  have hsound : u.Sound :=
    keeps_sound.performAll between _ ((sound_of_performAll built store calls).lookup key)
  refine ⟨getInterrupted_nil t key, fun hmissed => ?_⟩
  have hsplit : split = u.fetch key := getInterrupted_of_missed hmissed between
  obtain ⟨hanswer, hmatched⟩ := fetch_agrees hsound.valid key
  rw [← hsplit] at hanswer hmatched
  refine ⟨hsplit, hanswer, hmatched.indistinct, fun later => ?_, fun value held => ?_,
    fun hgone => ?_⟩
  · have hrun := (simulates_matched CacheEngine.simulates_alike BackingStore.simulates_eq)
      |>.performAll later (split.2, []) (whole.2, []) ⟨hmatched, rfl⟩
    exact ⟨hrun.2, hrun.1.indistinct⟩
  · have halive : u.destroyed = false := by
      refine Bool.eq_false_iff.mpr fun hgone => ?_
      cases ((hsound.ended hgone).empty key).symm.trans held
    rw [hsplit, fetch, lookup_eq halive hsound.valid, held]
    exact ⟨rfl, rfl⟩
  · rw [hsplit, fetch, lookup_destroyed hgone]

/-- After the cache was cleared a read misses, and another one brings the key back in between its
sections: the store is not asked again. Nor is it when the data is destroyed between them. -/
theorem getInterrupted_agrees_refilled :
    ∃ cache, Cache.ofSettings { capacity := 2 } = .ok cache ∧
      let t := (Client.performAll (({ cache, store := {} } : Tiers Cache RehearsedStore), [])
        [.call (.put [1] [10]), .call .clearCache]).1
      let refilled := t.getInterrupted [1] [.call (.get [1])]
      let destroyed := t.getInterrupted [1] [.call (.get [1]), .call .destroy]
      (t.lookup [1]).1 = .ok none ∧
        refilled.1 = .ok [10] ∧ refilled.2.store.calls = [.put, .get] ∧
        destroyed.1 = .error .destroyed ∧ destroyed.2.store.calls = [.put, .get, .destroy] := by
  have hlaw := @getInterrupted_agrees { capacity := 2 } _ rfl RehearsedStore _ {}
    [.call (.put [1] [10]), .call .clearCache] [1]
  obtain ⟨_, _, _, _, hrefilled, _⟩ := (hlaw [.call (.get [1])]).2 rfl
  obtain ⟨_, _, _, _, _, hdestroyed⟩ := (hlaw [.call (.get [1]), .call .destroy]).2 rfl
  obtain ⟨hvalue, hstore⟩ := hrefilled [10] rfl
  have hturnedAway := hdestroyed rfl
  refine ⟨_, rfl, rfl, hvalue, congrArg RehearsedStore.calls hstore, ?_, ?_⟩
  · exact congrArg Prod.fst hturnedAway
  · exact congrArg (fun outcome => outcome.2.store.calls) hturnedAway

end Tiers

end TieredStore
