import TieredStore.Backing.Patience
import TieredStore.Backing.Settings
import TieredStore.Cache
import TieredStore.Tiers

/-!
# Tiers from settings

Tiers are assembled in an order in which nothing has to be undone: first the settings are held
against each other, then the cache is built, and only then is the backing store opened, with as
many attempts as there is patience for.
-/

namespace TieredStore

/-- The settings of both tiers. -/
structure TierSettings where
  cache : CacheSettings := {}
  store : StoreSettings := {}
  deriving DecidableEq, Repr

/-- How an assembly ended. -/
structure Assembly (ω σ : Type) where
  /-- The tiers, or what stood in the way. -/
  outcome : Except Failure (Tiers Cache σ)
  /-- The ledger of cache capacities after it. -/
  ledger : CapacityLedger
  /-- What happened while the store was opened. -/
  events : List OpeningEvent
  world : ω

namespace Tiers

variable {ω σ : Type}

/-- Assembles tiers; `create` opens a store at a path. A batch that the cache could not hold is
refused first, then what is wrong with the cache. -/
def assemble (settings : TierSettings) (patience : Patience)
    (create : String → ω → Except Failure σ × ω) (ledger : CapacityLedger) (world : ω) :
    Assembly ω σ :=
  if settings.cache.capacity < settings.store.batchSize then
    ⟨.error (.batchOverCapacity settings.store.batchSize settings.cache.capacity), ledger, [],
      world⟩
  else
    match Cache.build settings.cache ledger with
    | (.error failure, ledger) => ⟨.error failure, ledger, [], world⟩
    | (.ok cache, ledger) =>
      let opened := patience.tryOpen settings.store.path create world
      ⟨opened.outcome.map fun store => { cache, store }, ledger, opened.events, opened.world⟩

end Tiers

end TieredStore
