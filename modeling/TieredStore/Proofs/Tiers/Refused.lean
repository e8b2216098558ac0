import TieredStore.Proofs.Tiers.History
import TieredStore.Proofs.Tiers.PlainStore

/-!
# A refused call is not seen

A write, a removal, a closing or a destruction changes the cache before it asks the store, and when
the store refuses, what the cache lost on the way stays lost: other keys that a write evicted, or
everything. The answer is the store's own failure, and nothing that the cache still holds is new
(`Tiers.answer_refused`, `Tiers.of_peek_withdrawn`).

**The law** (`Tiers.unseen_of_refused`): a client cannot tell afterwards that the refused call was
made. While the store fails no further call, coherent tiers are seen as the plain store with their
memory (`Tiers.events_calm`), and that is the same before and after the refused call; so what is
missing in the cache is never missed.
-/

namespace TieredStore

/-! ## Stores that fail no further call -/

namespace RehearsedStore

/-- The same store, no call failing from now on. -/
def calm (s : RehearsedStore) : RehearsedStore :=
  { s with schedule := fun _ _ => none }

/-- A store that fails no call, and the memory behind it. -/
structure Calm (s : RehearsedStore) (memory : MemoryStore) : Prop where
  unfailing : ∀ count call, s.schedule count call = none
  behind : s.memory = memory

theorem calm_calm (s : RehearsedStore) : s.calm.Calm s.memory := ⟨fun _ _ => rfl, rfl⟩

/-- A calm store passes every call on. -/
theorem Calm.perform {α : Type} {s : RehearsedStore} {memory : MemoryStore} (h : s.Calm memory)
    (call : StoreCall) (passOn : MemoryStore → Except Failure α × MemoryStore) :
    Agree Calm (s.perform call passOn) (passOn memory) := by
  obtain ⟨hunfailing, rfl⟩ := h
  simp only [RehearsedStore.perform, hunfailing]
  exact ⟨rfl, hunfailing, rfl⟩

/-- A calm store and the memory behind it answer alike. -/
theorem simulates_calm : BackingStore.Simulates Calm where
  put h _ _ := h.perform _ _
  get h _ := h.perform _ _
  has h _ := h.perform _ _
  remove h _ := h.perform _ _
  snapshot h := ⟨congrArg MemoryStore.snapshot h.behind, h.unfailing, h.behind⟩
  close h := h.perform _ _
  destroy h := h.perform _ _

end RehearsedStore

namespace Tiers

section Calm

variable {κ : Type} [CacheEngine κ] [LawfulEngine κ]

/-- The same tiers, the store failing no call from now on. -/
def calm (t : Tiers κ RehearsedStore) : Tiers κ RehearsedStore :=
  { t with store := t.store.calm }

/-- Over a store that fails no further call, coherent tiers are seen as their plain store. -/
theorem events_calm {t : Tiers κ RehearsedStore} (h : t.Coherent) (calls : List ClientCall) :
    (Client.performAll (t.calm, []) calls).2 =
      (Client.performAll
        (({ pairs := t.store.memory.pairs, closed := t.store.memory.closed,
            destroyed := t.destroyed, order := t.store.memory.order } : PlainStore), []) calls).2 :=
  events_of_alike (t := t.calm) RehearsedStore.simulates_calm t.store.calm_calm
    ⟨h.valid, h.stored, h.emptied⟩ calls

end Calm

end Tiers

/-! ## Refused calls -/

namespace StorerCall

/-- What a call that changes the stored data, or ends its use, asks of the store. -/
def onStore {σ : Type} [BackingStore σ] (store : σ) : StorerCall → Option (Except Failure Unit × σ)
  | put key value | putInEpoch key value _ => some (BackingStore.put store key value)
  | remove key | removeFromCurrentEpoch key => some (BackingStore.remove store key)
  | close => some (BackingStore.close store)
  | destroy => some (BackingStore.destroy store)
  | get _ | getFromEpoch .. | searchFirst _ | getManyFromEpoch .. | has _ | clearCache
  | oldestEpoch => none

/-- The key that a call writes or removes. -/
def changedKey : StorerCall → Option Bytes
  | put key _ | putInEpoch key _ _ | remove key | removeFromCurrentEpoch key => some key
  | get _ | getFromEpoch .. | searchFirst _ | getManyFromEpoch .. | has _ | clearCache
  | oldestEpoch | close | destroy => none

/-- The cache that a refused call leaves. -/
def withdrawn {κ : Type} [CacheEngine κ] (cache : κ) : StorerCall → κ
  | put key value | putInEpoch key value _ =>
    CacheEngine.remove (CacheEngine.put cache key value value.length).2 key
  | remove key | removeFromCurrentEpoch key => CacheEngine.remove cache key
  | close | destroy => CacheEngine.clear cache
  | get _ | getFromEpoch .. | searchFirst _ | getManyFromEpoch .. | has _ | clearCache
  | oldestEpoch => cache

/-- A call that a store refuses leaves the memory behind it alone. -/
theorem memory_of_refused {σ : Type} [BackingStore σ] [MemoryLike σ] {s s' : σ} {call : StorerCall}
    {failure : Failure} (refused : call.onStore s = some (.error failure, s')) :
    MemoryLike.memory s' = MemoryLike.memory s := by
  have same : ∀ {called : Except Failure Unit × σ} {done : Prop},
      some called = some (.error failure, s') →
        (∃ failure, called.1 = .error failure) ∧
            MemoryLike.memory called.2 = MemoryLike.memory s ∨ called.1 = .ok () ∧ done →
          MemoryLike.memory s' = MemoryLike.memory s := by
    rintro called done hcalled (⟨_, hsame⟩ | ⟨hok, _⟩)
    · rw [Option.some.inj hcalled] at hsame
      exact hsame
    · rw [Option.some.inj hcalled] at hok
      cases hok
  cases call with
  | put key value => exact same refused (MemoryLike.put_cases s key value)
  | putInEpoch key value epoch => exact same refused (MemoryLike.put_cases s key value)
  | remove key => exact same refused (MemoryLike.remove_cases s key)
  | removeFromCurrentEpoch key => exact same refused (MemoryLike.remove_cases s key)
  | close => exact same refused (MemoryLike.close_cases s)
  | destroy => exact same refused (MemoryLike.destroy_cases s)
  | _ => cases refused

end StorerCall

namespace Tiers

section Refused

variable {κ σ : Type} [CacheEngine κ] [BackingStore σ] {t : Tiers κ σ} {call : StorerCall}
  {failure : Failure} {store : σ}

/-- A refused call answers with the store's failure. -/
theorem answer_refused (alive : t.destroyed = false)
    (refused : call.onStore t.store = some (.error failure, store)) :
    Storer.answer t call =
      (.done (.error failure), { t with cache := call.withdrawn t.cache, store }) := by
  have hput : ∀ key value, BackingStore.put t.store key value = (.error failure, store) →
      t.put key value = (.error failure,
        { t with
          cache := CacheEngine.remove (CacheEngine.put t.cache key value value.length).2 key
          store }) := by
    intro key value h
    rw [put_refused alive (congrArg Prod.fst h), h]
  have hremove : ∀ key, BackingStore.remove t.store key = (.error failure, store) →
      t.remove key =
        (.error failure, { t with cache := CacheEngine.remove t.cache key, store }) := by
    intro key h
    rw [remove_eq alive, h]
  cases call with
  | put key value => exact congrArg (Prod.map _ id) (hput key value (Option.some.inj refused))
  | putInEpoch key value epoch =>
    exact congrArg (Prod.map _ id) (hput key value (Option.some.inj refused))
  | remove key => exact congrArg (Prod.map _ id) (hremove key (Option.some.inj refused))
  | removeFromCurrentEpoch key =>
    exact congrArg (Prod.map _ id) (hremove key (Option.some.inj refused))
  | close =>
    have h : BackingStore.close t.store = (.error failure, store) := Option.some.inj refused
    show (t.close.map _ id : StorerAnswer × Tiers κ σ) = _
    rw [Tiers.close, h]
    rfl
  | destroy =>
    have h : BackingStore.destroy t.store = (.error failure, store) := Option.some.inj refused
    show (t.destroy.map _ id : StorerAnswer × Tiers κ σ) = _
    rw [destroy_refused alive (congrArg Prod.fst h), h]
    rfl
  | _ => cases refused

/-- What the cache holds after a refused call it held before, under another key. -/
theorem of_peek_withdrawn [LawfulEngine κ] {cache : κ} (valid : LawfulEngine.Valid cache)
    (call : StorerCall) {key value : Bytes}
    (held : CacheEngine.peek (call.withdrawn cache) key = some value) :
    CacheEngine.peek cache key = some value ∧ call.changedKey ≠ some key := by
  have hremoved : ∀ {k}, k ≠ key ∧ CacheEngine.peek cache key = some value →
      CacheEngine.peek cache key = some value ∧ some k ≠ some key :=
    fun h => ⟨h.2, fun hk => h.1 (Option.some.inj hk)⟩
  have hcleared : CacheEngine.peek (CacheEngine.clear cache) key ≠ some value := by
    rw [LawfulEngine.peek_clear valid]
    exact (Option.some_ne_none value).symm
  cases call with
  | put k v => exact hremoved (LawfulEngine.of_peek_remove_put valid held)
  | putInEpoch k v epoch => exact hremoved (LawfulEngine.of_peek_remove_put valid held)
  | remove k => exact hremoved (LawfulEngine.of_peek_remove valid held)
  | removeFromCurrentEpoch k => exact hremoved (LawfulEngine.of_peek_remove valid held)
  | close => exact absurd held hcleared
  | destroy => exact absurd held hcleared
  | _ => exact ⟨held, (Option.some_ne_none key).symm⟩

theorem valid_withdrawn [LawfulEngine κ] {cache : κ} (valid : LawfulEngine.Valid cache)
    (call : StorerCall) : LawfulEngine.Valid (call.withdrawn cache) := by
  cases call with
  | put key value =>
    exact LawfulEngine.valid_remove (LawfulEngine.valid_put valid key value value.length) key
  | putInEpoch key value epoch =>
    exact LawfulEngine.valid_remove (LawfulEngine.valid_put valid key value value.length) key
  | remove key => exact LawfulEngine.valid_remove valid key
  | removeFromCurrentEpoch key => exact LawfulEngine.valid_remove valid key
  | close => exact LawfulEngine.valid_clear valid
  | destroy => exact LawfulEngine.valid_clear valid
  | _ => exact valid

/-- A refused call keeps tiers coherent. -/
theorem Coherent.withdrawn [LawfulEngine κ] [MemoryLike σ] (h : t.Coherent)
    (refused : call.onStore t.store = some (.error failure, store)) :
    ({ t with cache := call.withdrawn t.cache, store } : Tiers κ σ).Coherent :=
  h.of_lost (valid_withdrawn h.valid call) (fun held => (of_peek_withdrawn h.valid call held).1)
    (StorerCall.memory_of_refused refused) rfl

end Refused

/-- **A refused call is not seen.** Take the tiers that any calls have left of a new cache of any
settings in front of any store, and let the store refuse a write, a removal, a closing or a
destruction. The answer is the store's failure; the stored data and the mark of destruction are as
before; the cache holds nothing that it did not hold, and no longer the key written or removed, and
after a closing or a destruction nothing. From there on, while the store fails no further call,
every client sees what it would see had the refused call not been made. -/
theorem unseen_of_refused {settings : CacheSettings} {cache : Cache}
    (built : Cache.ofSettings settings = .ok cache) (store : RehearsedStore)
    (calls : List ClientCall) {call : StorerCall} {failure : Failure} {after : RehearsedStore} :
    let t := (Client.performAll (({ cache, store } : Tiers Cache RehearsedStore), []) calls).1
    let u := (Storer.answer t call).2
    t.destroyed = false → call.onStore t.store = some (.error failure, after) →
      (Storer.answer t call).1 = .done (.error failure) ∧
        u.store.memory = t.store.memory ∧ u.destroyed = false ∧
        (∀ key ∈ CacheEngine.keys u.cache, key ∈ CacheEngine.keys t.cache ∧
          CacheEngine.peek u.cache key = CacheEngine.peek t.cache key) ∧
        (∀ key, call.changedKey = some key →
          key ∉ CacheEngine.keys u.cache ∧ CacheEngine.has u.cache key = false) ∧
        (call = .close ∨ call = .destroy → CacheEngine.keys u.cache = []) ∧
        ∀ later, (Client.performAll (u.calm, []) later).2 =
          (Client.performAll (t.calm, []) later).2 := by
  intro t u halive hrefused
  have hcoherent : t.Coherent := coherent_of_performAll built store calls
  have hanswer := answer_refused halive hrefused
  have hu : u = { t with cache := call.withdrawn t.cache, store := after } :=
    congrArg Prod.snd hanswer
  have hmemory : after.memory = t.store.memory := StorerCall.memory_of_refused hrefused
  have hcoherent' := hcoherent.withdrawn hrefused
  rw [← hu] at hcoherent'
  have hheld : ∀ {key}, key ∈ CacheEngine.keys u.cache → ∃ value,
      CacheEngine.peek u.cache key = some value ∧ CacheEngine.peek t.cache key = some value ∧
        call.changedKey ≠ some key := by
    intro key hkey
    rw [LawfulEngine.mem_keys hcoherent'.valid] at hkey
    obtain ⟨value, hvalue⟩ := Option.isSome_iff_exists.mp hkey
    refine ⟨value, hvalue, of_peek_withdrawn hcoherent.valid call ?_⟩
    rw [hu] at hvalue
    exact hvalue
  refine ⟨congrArg Prod.fst hanswer, ?_, ?_, fun key hkey => ?_, fun key hchanged => ?_, ?_, ?_⟩
  · rw [hu]
    exact hmemory
  · rw [hu]
    exact halive
  · obtain ⟨value, hvalue, hold, _⟩ := hheld hkey
    rw [LawfulEngine.mem_keys hcoherent.valid, hvalue, hold]
    exact ⟨rfl, rfl⟩
  · have hgone : key ∉ CacheEngine.keys u.cache := fun hkey => by
      obtain ⟨_, _, _, hother⟩ := hheld hkey
      exact hother hchanged
    refine ⟨hgone, ?_⟩
    rw [LawfulEngine.mem_keys hcoherent'.valid] at hgone
    rw [LawfulEngine.has_eq hcoherent'.valid]
    exact Bool.eq_false_iff.mpr hgone
  · intro hends
    have hempty := LawfulEngine.peek_clear hcoherent.valid
    rw [hu] at hcoherent' ⊢
    rcases hends with rfl | rfl <;> exact LawfulEngine.keys_eq_nil hcoherent'.valid hempty
  · intro later
    rw [events_calm hcoherent' later, events_calm hcoherent later, hu, hmemory]

/-- With room for one key, a refused write evicts the only key from the cache; it is read from the
store, and the key of the refused write is not found. -/
theorem unseen_of_refused_evicting :
    let store : RehearsedStore :=
      { schedule := fun count call =>
          if count = 1 ∧ call = .put then some (.io "disk full") else none }
    ∃ cache, Cache.ofSettings { capacity := 1 } = .ok cache ∧
      let t := (Client.performAll (({ cache, store } : Tiers Cache RehearsedStore), [])
        [.call (.put [1] [10])]).1
      let (answer, u) := Storer.answer t (.put [2] [20])
      answer = .done (.error (.io "disk full")) ∧
        (Client.performAll (u.calm, []) [.call (.get [1]), .call (.get [2])]).2 =
          [.answered (.get [1]) (.value (.ok [10])),
            .answered (.get [2]) (.value (.error (.keyNotFound [2])))] := by
  intro store
  have h := @unseen_of_refused { capacity := 1 } _ rfl store [.call (.put [1] [10])]
    (.put [2] [20]) (.io "disk full") _ rfl rfl
  exact ⟨_, rfl, h.1, (h.2.2.2.2.2.2 _).trans rfl⟩

end Tiers

end TieredStore
