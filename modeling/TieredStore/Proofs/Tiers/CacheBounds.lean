import TieredStore.Backing.RehearsedStore
import TieredStore.Proofs.Cache.Bounds
import TieredStore.Proofs.Tiers.Client

/-!
# Bounds hold behind the tiers

What a cache is used for does not matter to its bounds. They hold after every sequence of calls to a
cache of any settings (`Cache.Bounded.perform`), and as all that tiers do to their cache are such
calls (`Tiers.keeps_cache`), they hold for the cache of tiers after every run of a client, in front
of any store whatever it answers. A client may break off its run at any call, and a visitor its
walk, so the bounds hold between any two calls.

**The law** is `Cache.withinBounds_of_performAll`.
-/

namespace TieredStore.Cache

/-- **A cache keeps its bounds.** A cache of any settings holds, after any calls, no more entries
than its capacity; one with a byte budget holds no more bytes than that, and of one with shards each
holds no more than its part. So does the cache of tiers, over any store and after any run of a
client, also where the store refuses what is written. -/
theorem withinBounds_of_performAll {settings : CacheSettings} {cache : Cache}
    (built : ofSettings settings = .ok cache) :
    (∀ calls : List CacheCall, WithinBounds settings (CacheEngine.performAll cache calls).2) ∧
      ∀ {σ : Type} [BackingStore σ] (store : σ) (calls : List ClientCall),
        let start : Tiers Cache σ := { cache, store }
        WithinBounds settings (Client.performAll (start, []) calls).1.cache := by
  have hstart := bounded_of_ofSettings built
  have hstep : ∀ c, Bounded settings c → ∀ call, Bounded settings (CacheEngine.perform c call).2 :=
    fun c h call => h.perform call
  constructor
  · intro calls
    exact (CacheEngine.performAll_keeps hstep calls cache hstart).withinBounds
  · intro σ _ store calls start
    exact ((Tiers.keeps_cache hstep).performAll calls (start, []) hstart).withinBounds

/-- An overwrite that makes an entry larger drives out the other one, and a value larger than the
whole budget drives out everything; behind tiers a write evicts also when the store refuses it. -/
theorem withinBounds_of_performAll_budgeted :
    let settings : CacheSettings := { kind := .budgeted, byteBudget := 1024, capacity := 2 }
    let store : RehearsedStore :=
      { schedule := fun count call =>
          if count = 1 ∧ call = .put then some (.io "disk full") else none }
    ∃ cache, ofSettings settings = .ok cache ∧
      WithinBounds settings (CacheEngine.performAll cache
        [.put [1] [10] 500, .put [2] [20] 500, .put [2] [21] 600, .put [3] [30] 1025]).2 ∧
      WithinBounds settings (Client.performAll (({ cache, store } : Tiers Cache RehearsedStore), [])
        [.call (.put [1] [10]), .call (.put [2] [20])]).1.cache := by
  intro settings store
  obtain ⟨hcalls, htiers⟩ := @withinBounds_of_performAll settings _ rfl
  exact ⟨_, rfl, hcalls _, htiers store _⟩

end TieredStore.Cache
