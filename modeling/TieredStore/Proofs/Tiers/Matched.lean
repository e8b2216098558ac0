import TieredStore.Proofs.Cache.Calls
import TieredStore.Proofs.Tiers.Client

/-!
# Tiers whose parts answer alike

Tiers see their cache and their store through the answers only. So where two caches give equal
answers to every call and stay related, and two stores do, tiers made of them do too, whatever the
relations are. The relation of the caches and that of the stores are parameters: with equality for
the one, the law is about the other alone.

**The law** (`Tiers.simulates_matched`): clients of matched tiers see the same events and leave
matched tiers.
-/

namespace TieredStore

/-- Two calls gave equal answers and left related states. -/
def Agree {α σ ρ : Type} (R : σ → ρ → Prop) (a : α × σ) (b : α × ρ) : Prop :=
  a.1 = b.1 ∧ R a.2 b.2

/-- Calls that agree share their answer, so a proof need only look at one of them to know which way
both went. -/
theorem Agree.split {α σ ρ : Type} {R : σ → ρ → Prop} {a : α × σ} {b : α × ρ} (h : Agree R a b) :
    ∃ answer s r, a = (answer, s) ∧ b = (answer, r) ∧ R s r := by
  obtain ⟨answer, s⟩ := a
  obtain ⟨_, r⟩ := b
  obtain ⟨rfl, hnext⟩ := h
  exact ⟨answer, s, r, rfl, rfl, hnext⟩

/-- What is made of the answers alone agrees as well. -/
theorem Agree.map {α β σ ρ : Type} {R : σ → ρ → Prop} {a : α × σ} {b : α × ρ} (h : Agree R a b)
    (f : α → β) : Agree R (a.map f id) (b.map f id) :=
  ⟨congrArg f h.1, h.2⟩

/-- Related stores give equal answers to every call and stay related. -/
structure BackingStore.Simulates {σ ρ : Type} [BackingStore σ] [BackingStore ρ]
    (R : σ → ρ → Prop) : Prop where
  put : ∀ {s r}, R s r → ∀ key value,
    Agree R (BackingStore.put s key value) (BackingStore.put r key value)
  get : ∀ {s r}, R s r → ∀ key, Agree R (BackingStore.get s key) (BackingStore.get r key)
  has : ∀ {s r}, R s r → ∀ key, Agree R (BackingStore.has s key) (BackingStore.has r key)
  remove : ∀ {s r}, R s r → ∀ key, Agree R (BackingStore.remove s key) (BackingStore.remove r key)
  snapshot : ∀ {s r}, R s r → Agree R (BackingStore.snapshot s) (BackingStore.snapshot r)
  close : ∀ {s r}, R s r → Agree R (BackingStore.close s) (BackingStore.close r)
  destroy : ∀ {s r}, R s r → Agree R (BackingStore.destroy s) (BackingStore.destroy r)

/-- A store answers as it does itself, which is the case of the law in which only the caches differ.
-/
theorem BackingStore.simulates_eq {σ : Type} [BackingStore σ] :
    BackingStore.Simulates (Eq : σ → σ → Prop) where
  put h _ _ := h ▸ ⟨rfl, rfl⟩
  get h _ := h ▸ ⟨rfl, rfl⟩
  has h _ := h ▸ ⟨rfl, rfl⟩
  remove h _ := h ▸ ⟨rfl, rfl⟩
  snapshot h := h ▸ ⟨rfl, rfl⟩
  close h := h ▸ ⟨rfl, rfl⟩
  destroy h := h ▸ ⟨rfl, rfl⟩

/-! ## The calls of tiers to their cache -/

namespace CacheEngine

variable {κ μ : Type} [CacheEngine κ] [CacheEngine μ] {C : κ → μ → Prop} {c : κ} {d : μ}

/-- A write that tiers make; whether it evicted is not their concern. -/
theorem Simulates.put (simulates : Simulates C) (h : C c d) (key value : Bytes) (size : Nat) :
    C (CacheEngine.put c key value size).2 (CacheEngine.put d key value size).2 :=
  (simulates h (.put key value size)).2

/-- A read is both an answer and a change, as it may move the key. -/
theorem Simulates.get (simulates : Simulates C) (h : C c d) (key : Bytes) :
    Agree C (CacheEngine.get c key) (CacheEngine.get d key) :=
  (simulates h (.get key)).imp_left CacheAnswer.value.inj

/-- Being asked changes no cache, so the answers are all there is to say. -/
theorem Simulates.has (simulates : Simulates C) (h : C c d) (key : Bytes) :
    CacheEngine.has c key = CacheEngine.has d key :=
  CacheAnswer.held.inj (simulates h (.has key)).1

theorem Simulates.remove (simulates : Simulates C) (h : C c d) (key : Bytes) :
    C (CacheEngine.remove c key) (CacheEngine.remove d key) :=
  (simulates h (.remove key)).2

theorem Simulates.clear (simulates : Simulates C) (h : C c d) :
    C (CacheEngine.clear c) (CacheEngine.clear d) :=
  (simulates h .clear).2

end CacheEngine

namespace Tiers

variable {κ μ σ ρ : Type} [CacheEngine κ] [CacheEngine μ] [BackingStore σ] [BackingStore ρ]

/-- Tiers with related caches over related stores. -/
inductive Matched (C : κ → μ → Prop) (R : σ → ρ → Prop) : Tiers κ σ → Tiers μ ρ → Prop
  | intro (destroyed : Bool) {c : κ} {d : μ} {s : σ} {r : ρ} (cache : C c d) (store : R s r) :
    Matched C R ⟨c, s, destroyed⟩ ⟨d, r, destroyed⟩

variable {C : κ → μ → Prop} {R : σ → ρ → Prop} {t : Tiers κ σ} {u : Tiers μ ρ}

/-! ## Each call -/

section Calls

variable (caches : CacheEngine.Simulates C) (stores : BackingStore.Simulates R)

include caches stores

/-- Both stores take the value or both refuse it, and in either case both caches were written to; a
refusal takes the value out of both. -/
theorem Matched.put (h : Matched C R t u) (key value : Bytes) :
    Agree (Matched C R) (t.put key value) (u.put key value) := by
  obtain ⟨destroyed, hcache, hstore⟩ := h
  cases destroyed with
  | true => exact ⟨rfl, .intro true hcache hstore⟩
  | false =>
    obtain ⟨outcome, s, r, hs, hr, hnext⟩ := (stores.put hstore key value).split
    have hput := caches.put hcache key value value.length
    simp only [Tiers.put, Bool.false_eq_true, if_false, hs, hr]
    cases outcome with
    | error failure => exact ⟨rfl, .intro false (caches.remove hput key) hnext⟩
    | ok done => exact ⟨rfl, .intro false hput hnext⟩

omit [BackingStore σ] [BackingStore ρ] stores in
/-- The first section asks the cache only. -/
theorem Matched.lookup (h : Matched C R t u) (key : Bytes) :
    Agree (Matched C R) (t.lookup key) (u.lookup key) := by
  obtain ⟨destroyed, hcache, hstore⟩ := h
  cases destroyed with
  | true => exact ⟨rfl, .intro true hcache hstore⟩
  | false =>
    obtain ⟨hvalue, hnext⟩ := caches.get hcache key
    exact ⟨congrArg Except.ok hvalue, .intro false hnext hstore⟩

/-- The second section asks the stores if neither cache has the key, and both caches get what they
find. -/
theorem Matched.fetch (h : Matched C R t u) (key : Bytes) :
    Agree (Matched C R) (t.fetch key) (u.fetch key) := by
  obtain ⟨found, t, u, ht, hu, h⟩ := (h.lookup caches key).split
  simp only [Tiers.fetch, ht, hu]
  match found with
  | .error failure => exact ⟨rfl, h⟩
  | .ok (some value) => exact ⟨rfl, h⟩
  | .ok none =>
    obtain ⟨destroyed, hcache, hstore⟩ := h
    obtain ⟨outcome, s, r, hs, hr, hnext⟩ := (stores.get hstore key).split
    simp only [hs, hr]
    cases outcome with
    | error failure => exact ⟨rfl, .intro destroyed hcache hnext⟩
    | ok value => exact ⟨rfl, .intro destroyed (caches.put hcache key value value.length) hnext⟩

/-- A read goes on to its second section in both or in neither. -/
theorem Matched.get (h : Matched C R t u) (key : Bytes) :
    Agree (Matched C R) (t.get key) (u.get key) := by
  obtain ⟨found, t, u, ht, hu, h⟩ := (h.lookup caches key).split
  simp only [Tiers.get, ht, hu]
  match found with
  | .error failure => exact ⟨rfl, h⟩
  | .ok (some value) => exact ⟨rfl, h⟩
  | .ok none => exact h.fetch caches stores key

/-- By induction on the keys: each read leaves matched tiers for the next one. -/
theorem Matched.getMany (keys : List Bytes) :
    ∀ {t : Tiers κ σ} {u : Tiers μ ρ}, Matched C R t u →
      Agree (Matched C R) (t.getMany keys) (u.getMany keys) := by
  induction keys with
  | nil => exact fun h => ⟨rfl, h⟩
  | cons key rest ih =>
    intro t u h
    obtain ⟨outcome, t, u, ht, hu, h⟩ := (h.get caches stores key).split
    obtain ⟨hpairs, hlast⟩ := ih h
    simp only [Tiers.getMany, ht, hu]
    cases outcome with
    | error failure => exact ⟨hpairs, hlast⟩
    | ok value => exact ⟨congrArg ((key, value) :: ·) hpairs, hlast⟩

/-- Where the one cache knows the key so does the other, and neither store is asked. -/
theorem Matched.has (h : Matched C R t u) (key : Bytes) :
    Agree (Matched C R) (t.has key) (u.has key) := by
  obtain ⟨destroyed, hcache, hstore⟩ := h
  cases destroyed with
  | true => exact ⟨rfl, .intro true hcache hstore⟩
  | false =>
    obtain ⟨hanswer, hnext⟩ := stores.has hstore key
    simp only [Tiers.has, Bool.false_eq_true, if_false, caches.has hcache key]
    split
    · exact ⟨rfl, .intro false hcache hstore⟩
    · exact ⟨hanswer, .intro false hcache hnext⟩

/-- The caches give the key up before the stores are asked, so their answers do not matter to the
caches. -/
theorem Matched.remove (h : Matched C R t u) (key : Bytes) :
    Agree (Matched C R) (t.remove key) (u.remove key) := by
  obtain ⟨destroyed, hcache, hstore⟩ := h
  cases destroyed with
  | true => exact ⟨rfl, .intro true hcache hstore⟩
  | false =>
    obtain ⟨hanswer, hnext⟩ := stores.remove hstore key
    exact ⟨hanswer, .intro false (caches.remove hcache key) hnext⟩

/-- The destruction takes effect on both sides or on neither; the caches are emptied in any case. -/
theorem Matched.destroy (h : Matched C R t u) : Agree (Matched C R) t.destroy u.destroy := by
  obtain ⟨destroyed, hcache, hstore⟩ := h
  cases destroyed with
  | true => exact ⟨rfl, .intro true hcache hstore⟩
  | false =>
    obtain ⟨outcome, s, r, hs, hr, hnext⟩ := (stores.destroy hstore).split
    have hclear := caches.clear hcache
    simp only [Tiers.destroy, Bool.false_eq_true, if_false, hs, hr]
    cases outcome <;> exact ⟨rfl, .intro _ hclear hnext⟩

/-- Closing does not look at whether the tiers are destroyed, so there is one case. -/
theorem Matched.close (h : Matched C R t u) : Agree (Matched C R) t.close u.close := by
  obtain ⟨destroyed, hcache, hstore⟩ := h
  obtain ⟨hanswer, hnext⟩ := stores.close hstore
  exact ⟨hanswer, .intro destroyed (caches.clear hcache) hnext⟩

omit [BackingStore σ] [BackingStore ρ] stores in
theorem Matched.clearCache (h : Matched C R t u) : Matched C R t.clearCache u.clearCache := by
  obtain ⟨destroyed, hcache, hstore⟩ := h
  exact .intro destroyed (caches.clear hcache) hstore

/-- A call with an epoch is the one without, so the calls above are all that there are. -/
theorem Matched.answer (h : Matched C R t u) (call : StorerCall) :
    Agree (Matched C R) (Storer.answer t call) (Storer.answer u call) := by
  cases call with
  | put key value => exact (h.put caches stores key value).map _
  | putInEpoch key value epoch => exact (h.put caches stores key value).map _
  | get key => exact (h.get caches stores key).map _
  | getFromEpoch key epoch => exact (h.get caches stores key).map _
  | searchFirst key => exact (h.get caches stores key).map _
  | getManyFromEpoch keys epoch =>
    exact ((Matched.getMany caches stores keys h).map Except.ok).map _
  | has key => exact (h.has caches stores key).map _
  | remove key => exact (h.remove caches stores key).map _
  | removeFromCurrentEpoch key => exact (h.remove caches stores key).map _
  | clearCache => exact ⟨rfl, h.clearCache caches⟩
  | oldestEpoch => exact ⟨rfl, h⟩
  | close => exact (h.close caches stores).map _
  | destroy => exact (h.destroy caches stores).map _

/-- Tiers over parts that answer alike answer alike. -/
theorem simulates_matched :
    Storer.Simulates (Matched C R : Tiers κ σ → Tiers μ ρ → Prop) where
  answer h call := h.answer caches stores call
  walk {t u} h visit visit' step events := by
    obtain ⟨destroyed, hcache, hstore⟩ := h
    show Storer.Alike (Matched C R) (Tiers.walk _ visit events) (Tiers.walk _ visit' events)
    cases destroyed with
    | true => exact ⟨.intro true hcache hstore, rfl⟩
    | false =>
      obtain ⟨pairs, s, r, hs, hr, hnext⟩ := (stores.snapshot hstore).split
      simp only [Tiers.walk, Bool.false_eq_true, if_false, hs, hr]
      exact visitWhile_agree step pairs _ _ ⟨.intro false hcache hnext, rfl⟩

end Calls

end Tiers

end TieredStore
