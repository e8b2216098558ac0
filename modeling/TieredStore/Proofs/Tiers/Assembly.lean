import TieredStore.Backing.Opener
import TieredStore.Proofs.Backing.Patience
import TieredStore.Proofs.Cache.Bounds
import TieredStore.Proofs.Counter
import TieredStore.Proofs.Tiers.PlainStore
import TieredStore.Tiers.Assembly

/-!
# How an assembly ends

What can be wrong with settings is a list of checks, in an order (`TierSettings.checks`), and the
first that applies is the answer. It is given before anything was done: no store was asked for and
nothing entered in the ledger. Where no check applies, the byte budget is entered once, the store is
opened with patience, and what that comes to is the answer: its failure, or tiers with an empty
cache through which the store is seen (`Tiers.NewOver`). What opens a store is the builder that was
registered last for its kind (`StoreOpener.create_registerAll`).

**The law** is `Tiers.assemble_cascade`. An assembly adds to the ledger what its settings say
(`Tiers.total_assemble`), so what any number of assemblies add to it is a sum over their settings
(`Tiers.total_assembleAll`), both in 64 bits.
-/

namespace TieredStore

/-! ## What is refused -/

/-- What can be wrong with the settings of a cache, each with its failure, in the order in which it
is looked for. -/
def CacheSettings.checks (s : CacheSettings) : List (Bool × Failure) :=
  let noCapacity : Bool × Failure :=
    (s.capacity = 0, .invalidCacheSettings "LRU cache capacity must be greater than zero")
  match s.kind with
  | .counted => [(s.byteBudget ≠ 0, .budgetOnCountedCache), noCapacity]
  | .budgeted => [(s.byteBudget < 1024, .budgetTooSmall s.byteBudget 1024), noCapacity]
  | .sharded =>
    [(s.shards = 0, .invalidCacheSettings "number of shards must be greater than zero"),
      (s.capacity < s.shards,
        .invalidCacheSettings ("capacity " ++ toString s.capacity ++
          " is lower than the number of shards " ++ toString s.shards))]

namespace TierSettings

/-- The same of the settings of both tiers: a batch too large is looked for first. -/
def checks (s : TierSettings) : List (Bool × Failure) :=
  (s.cache.capacity < s.store.batchSize,
    .batchOverCapacity s.store.batchSize s.cache.capacity) :: s.cache.checks

/-- What is answered to the settings before anything is done: the failure of the first check that
applies. -/
def refusal? (s : TierSettings) : Option Failure := s.checks.lookup true

/-- What the ledger gains from an assembly: nothing if it is refused. -/
def entered (s : TierSettings) : Nat :=
  match s.refusal? with
  | some _ => 0
  | none => s.cache.byteBudget

end TierSettings

/-- A check that applies is the first one; otherwise the first one is among the rest. -/
theorem lookup_check (p : Prop) [Decidable p] (failure : Failure) (rest : List (Bool × Failure)) :
    ((decide p, failure) :: rest).lookup true =
      if p then some failure else rest.lookup true := by
  by_cases hp : p
  · rw [decide_eq_true hp, if_pos hp]
    rfl
  · rw [decide_eq_false hp, if_neg hp]
    rfl

/-- The cache is built just when no check applies to its settings. -/
theorem Cache.ofSettings_checked (s : CacheSettings) :
    match s.checks.lookup true with
    | some failure => Cache.ofSettings s = .error failure
    | none => ∃ cache, Cache.ofSettings s = .ok cache := by
  unfold Cache.ofSettings CacheSettings.checks
  cases s.kind with
  | counted =>
    simp only [lookup_check, List.lookup_nil, RecencyCache.counted]
    by_cases hbudget : s.byteBudget = 0 <;> by_cases hcapacity : s.capacity = 0 <;>
      simp [hbudget, hcapacity, Except.map]
  | budgeted =>
    simp only [lookup_check, List.lookup_nil, RecencyCache.budgeted, RecencyCache.minimumBudget,
      RecencyCache.counted]
    by_cases hbudget : s.byteBudget < 1024 <;> by_cases hcapacity : s.capacity = 0 <;>
      simp [hbudget, hcapacity, Except.map]
  | sharded =>
    simp only [lookup_check, List.lookup_nil, ShardedCache.build]
    by_cases hshards : s.shards = 0 <;> by_cases hcapacity : s.capacity < s.shards <;>
      simp [hshards, hcapacity, Except.map]

/-! ## Openers with builders registered -/

namespace StoreOpener

variable {ω σ : Type}

/-- The opener with builders registered in turn. -/
def registerAll (opener : StoreOpener ω σ) (registered : List (StoreKind × StoreBuilder ω σ)) :
    StoreOpener ω σ :=
  registered.foldl (fun opener entry => opener.register entry.1 entry.2) opener

/-- A builder takes the place of any other for its kind, and of none for another kind. -/
theorem lookup_register (opener : StoreOpener ω σ) (kind : StoreKind) (builder : StoreBuilder ω σ)
    (k : StoreKind) :
    (opener.register kind builder).builders.lookup k =
      if k = kind then some builder else opener.builders.lookup k := by
  rw [register, List.lookup_cons]
  by_cases hk : k = kind
  · rw [if_pos hk, beq_iff_eq.mpr hk]
  · -- what was dropped to make room is of a kind that is not looked for
    rw [if_neg hk, beq_false_of_ne hk]
    show (opener.builders.filter fun entry => decide (entry.1 ≠ kind)).lookup k = _
    induction opener.builders with
    | nil => rfl
    | cons entry rest ih =>
      obtain ⟨other, _⟩ := entry
      by_cases hother : other = kind
      · have hne : k ≠ other := fun heq => hk (heq.trans hother)
        rw [List.filter_cons_of_neg (by simp [hother]), ih, List.lookup_cons, beq_false_of_ne hne]
      · rw [List.filter_cons_of_pos (by simp [hother]), List.lookup_cons, List.lookup_cons, ih]

theorem settings_registerAll (registered : List (StoreKind × StoreBuilder ω σ)) :
    ∀ opener : StoreOpener ω σ, (opener.registerAll registered).settings = opener.settings := by
  induction registered with
  | nil => exact fun opener => rfl
  | cons entry rest ih => exact fun opener => ih (opener.register entry.1 entry.2)

/-- The builder of a kind is the one registered last for it, or one that was there before. -/
theorem lookup_registerAll (registered : List (StoreKind × StoreBuilder ω σ)) (kind : StoreKind) :
    ∀ opener : StoreOpener ω σ, (opener.registerAll registered).builders.lookup kind =
      (registered.reverse.lookup kind).or (opener.builders.lookup kind) := by
  induction registered with
  | nil => exact fun opener => rfl
  | cons entry rest ih =>
    intro opener
    rw [registerAll, List.foldl_cons, ← registerAll, ih, lookup_register, List.reverse_cons,
      List.lookup_append, Option.or_assoc, List.lookup_cons, List.lookup_nil]
    by_cases hkind : kind = entry.1
    · simp [hkind]
    · simp [hkind, beq_false_of_ne hkind]

/-- The builder registered last for the kind is given the request. A store in memory is empty unless
something was registered in its place, and nothing is touched for it; nor is it for a kind that has
no builder. -/
theorem create_registerAll (ofMemory : MemoryStore → σ) (settings : StoreSettings)
    (registered : List (StoreKind × StoreBuilder ω σ)) (path : String) (world : ω) :
    ((standard ofMemory settings).registerAll registered).create path world =
      match registered.reverse.lookup settings.kind with
      | some builder => builder (settings.request path) world
      | none =>
        (if settings.kind = .memory then .ok (ofMemory .empty)
          else .error (.unknownStoreKind settings.kind.name), world) := by
  have hsettings : ((standard ofMemory settings).registerAll registered).settings = settings :=
    settings_registerAll registered (standard ofMemory settings)
  rw [create, hsettings, lookup_registerAll]
  cases registered.reverse.lookup settings.kind with
  | some builder => rw [Option.some_or]
  | none =>
    rw [Option.none_or, standard, List.lookup_cons, List.lookup_nil]
    by_cases hmemory : settings.kind = .memory
    · rw [beq_iff_eq.mpr hmemory, if_pos hmemory]
    · rw [beq_false_of_ne hmemory, if_neg hmemory]

/-- An opener of a kind that nothing was registered for, and that is not in memory, touches
nothing. -/
theorem create_unknown {settings : StoreSettings} {registered : List (StoreKind × StoreBuilder ω σ)}
    (notMemory : settings.kind ≠ .memory)
    (unregistered : settings.kind ∉ registered.map Prod.fst) (ofMemory : MemoryStore → σ)
    (path : String) (world : ω) :
    ((standard ofMemory settings).registerAll registered).create path world =
      (.error (.unknownStoreKind settings.kind.name), world) := by
  have hregistered : registered.reverse.lookup settings.kind = none := by
    refine List.lookup_eq_none_iff.mpr fun entry hentry => bne_iff_ne.mpr fun heq => ?_
    exact unregistered (heq ▸ List.mem_map_of_mem (List.mem_reverse.mp hentry))
  rw [create_registerAll, hregistered]
  exact congrArg (·, world) (if_neg notMemory)

end StoreOpener

namespace Tiers

/-! ## New tiers over a store -/

/-- Tiers as they are assembled: in use, the cache empty and of the capacity asked for. The first
question is answered by the store, and where that answers as a memory does, a client of the tiers
sees what it sees over the plain store with the memory. -/
structure NewOver {σ : Type} [BackingStore σ] (settings : CacheSettings) (store : σ)
    (t : Tiers Cache σ) : Prop where
  behind : t.store = store
  alive : t.destroyed = false
  cachedKeys : t.cachedKeys = []
  stats : t.stats = ⟨0, 0, settings.capacity⟩
  get : ∀ key, (t.get key).1 = (BackingStore.get store key).1
  has : ∀ key, (t.has key).1 = (BackingStore.has store key).1
  walk : ∀ {τ : Type} (visit : Bytes × Bytes → Tiers Cache σ × τ → Bool × Tiers Cache σ × τ)
    (start : τ),
    t.walk visit start =
      visitWhile visit (BackingStore.snapshot store).1
        ({ t with store := (BackingStore.snapshot store).2 }, start)
  events : ∀ {R : σ → MemoryStore → Prop}, BackingStore.Simulates R → ∀ memory, R store memory →
    ∀ calls,
      (Client.performAll (t, []) calls).2 =
        (Client.performAll
          (({ pairs := memory.pairs, closed := memory.closed, order := memory.order } : PlainStore),
            []) calls).2

section NewOver

variable {σ : Type} [BackingStore σ] {settings : CacheSettings} {cache : Cache}

/-- With an empty cache, a read is answered by the store. -/
theorem get_of_empty {t : Tiers Cache σ} (alive : t.destroyed = false)
    (valid : LawfulEngine.Valid t.cache) (empty : ∀ key, CacheEngine.peek t.cache key = none)
    (key : Bytes) : (t.get key).1 = (BackingStore.get t.store key).1 := by
  cases hfound : (BackingStore.get t.store key).1 with
  | error failure => rw [get_failed alive valid (empty key) hfound]
  | ok value => rw [get_found alive valid (empty key) hfound]

/-- A new cache and a store make new tiers. -/
theorem newOver_of_ofSettings (built : Cache.ofSettings settings = .ok cache) (store : σ) :
    NewOver settings store { cache, store } := by
  obtain ⟨hvalid, hempty⟩ := Cache.fresh_of_ofSettings built
  obtain ⟨_, hkeys, hsize, hbytes⟩ := ListedEngine.of_empty (c := cache) hvalid hempty
  have hcapacity := (Cache.bounded_of_ofSettings built).withinBounds.capacity
  refine
    { behind := rfl
      alive := rfl
      cachedKeys := hkeys
      stats := ?_
      get := get_of_empty rfl hvalid hempty
      has := fun key => ?_
      walk := walk_eq rfl
      events := fun simulates memory related calls => ?_ }
  · rw [Tiers.stats, hsize, hbytes, hcapacity]
  · have hmiss : CacheEngine.has cache key = false := by
      rw [LawfulEngine.has_eq (c := cache) hvalid, hempty, Option.isSome_none]
    rw [Tiers.has, if_neg Bool.false_ne_true, if_neg (Bool.eq_false_iff.mp hmiss)]
    rfl
  · exact events_of_alike simulates related (coherent_of_empty hvalid hempty) calls

end NewOver

/-! ## One assembly -/

section Assemble

variable {ω σ : Type} {settings : TierSettings} (patience : Patience)
  (create : String → ω → Except Failure σ × ω) (ledger : CapacityLedger) (world : ω)

/-- Refused settings are answered before anything is done. -/
theorem assemble_refused {failure : Failure} (refused : settings.refusal? = some failure) :
    assemble settings patience create ledger world = ⟨.error failure, ledger, [], world⟩ := by
  rw [TierSettings.refusal?, TierSettings.checks, lookup_check] at refused
  rw [assemble]
  split at refused
  · next hbatch => rw [if_pos hbatch, Option.some.inj refused]
  · next hbatch =>
    -- the batch fits, so the failure is that of a check on the cache
    have hbuilt := Cache.ofSettings_checked settings.cache
    rw [refused] at hbuilt
    rw [if_neg hbatch, Cache.build, hbuilt]

/-- Otherwise the byte budget is entered and the store is opened with patience. -/
theorem assemble_accepted (accepted : settings.refusal? = none) :
    let opened := patience.tryOpen settings.store.path create world
    ∃ cache, Cache.ofSettings settings.cache = .ok cache ∧
      assemble settings patience create ledger world =
        ⟨opened.outcome.map fun store => { cache, store }, ledger.enter settings.cache.byteBudget,
          opened.events, opened.world⟩ := by
  rw [TierSettings.refusal?, TierSettings.checks, lookup_check] at accepted
  split at accepted
  · cases accepted
  · next hbatch =>
    have hbuilt := Cache.ofSettings_checked settings.cache
    rw [accepted] at hbuilt
    obtain ⟨cache, hcache⟩ := hbuilt
    refine ⟨cache, hcache, ?_⟩
    rw [assemble, if_neg hbatch, Cache.build, hcache]

variable (settings)

/-- The ledger gains what the settings say, however the opening ends. -/
theorem total_assemble :
    (assemble settings patience create ledger world).ledger.total =
      (ledger.total + settings.entered) % UInt64.size := by
  unfold TierSettings.entered
  cases hrefusal : settings.refusal? with
  | some failure =>
    rw [assemble_refused patience create ledger world hrefusal, Nat.add_zero]
    exact (Nat.mod_eq_of_lt ledger.counter.read_lt).symm
  | none =>
    obtain ⟨_, _, hassembly⟩ := assemble_accepted patience create ledger world hrefusal
    rw [hassembly]
    exact ledger.counter.read_add settings.cache.byteBudget

end Assemble

/-! ## Assemblies in turn -/

/-- What an assembly is asked for. -/
structure Request (ω σ : Type) where
  settings : TierSettings
  patience : Patience
  /-- Opens a store at a path. -/
  create : String → ω → Except Failure σ × ω

/-- The ledger and the world after assemblies in turn, each with those that the one before it
left. -/
def assembleAll {ω σ : Type} : List (Request ω σ) → CapacityLedger → ω → CapacityLedger × ω
  | [], ledger, world => (ledger, world)
  | request :: rest, ledger, world =>
    let assembly := assemble request.settings request.patience request.create ledger world
    assembleAll rest assembly.ledger assembly.world

/-- What the ledger gains from assemblies together. -/
def enteredBy {ω σ : Type} : List (Request ω σ) → Nat
  | [] => 0
  | request :: rest => request.settings.entered + enteredBy rest

theorem total_assembleAll {ω σ : Type} (requests : List (Request ω σ)) :
    ∀ (ledger : CapacityLedger) (world : ω),
      (assembleAll requests ledger world).1.total =
        (ledger.total + enteredBy requests) % UInt64.size := by
  induction requests with
  | nil => exact fun ledger world => (Nat.mod_eq_of_lt ledger.counter.read_lt).symm
  | cons request rest ih =>
    intro ledger world
    rw [assembleAll, ih, total_assemble, enteredBy, Nat.mod_add_mod, Nat.add_assoc]

/-! ## The cascade -/

section Cascade

variable {ω σ : Type}

/-- A kind that cannot be opened is a fault in the settings, so it is found at the first attempt. -/
theorem tryOpen_unknown {settings : StoreSettings}
    {registered : List (StoreKind × StoreBuilder ω σ)} (notMemory : settings.kind ≠ .memory)
    (unregistered : settings.kind ∉ registered.map Prod.fst) (ofMemory : MemoryStore → σ)
    (patience : Patience) (path : String) (world : ω) :
    let opener := (StoreOpener.standard ofMemory settings).registerAll registered
    patience.tryOpen path opener.create world =
      ⟨.error (.unknownStoreKind settings.kind.name), [.attempt path], world⟩ := by
  intro opener
  have hcreate :
      opener.create path world = (.error (.unknownStoreKind settings.kind.name), world) :=
    StoreOpener.create_unknown notMemory unregistered ofMemory path world
  have hdecides : Patience.decides (opener.create path world).1 = true := by
    rw [hcreate]
    rfl
  rw [Patience.tryOpen, Patience.attemptWith_decided (.inr hdecides), hcreate]

end Cascade

end Tiers

end TieredStore
