import TieredStore.Proofs.Tiers.Destroyed
import TieredStore.Proofs.Tiers.History
import TieredStore.Proofs.Tiers.PlainStore

/-!
# A read of many keys when some reads fail

A read of many keys reads them in turn and leaves out those that it cannot read. Every one of the
reads changes the cache: it is a use of the key, or it brings the value in and evicts others for it.
So whether the store is asked for a key at some place, and can fail it there, depends on all places
before, and a key that comes twice may be read from the cache at one of its places and be missing at
the other.

What is read depends on none of it. `Tiers.comingTo` is where the read of a place begins, and
`Tiers.LetDown` says that it is lost to the store there. A read that is not let down is the one of
the plain store with the same memory (`Tiers.Coherent.get_served`), and no read changes the memory.

**The law** (`Tiers.getMany_of_letDown`): the read of many keys succeeds, each place gives what is
stored under its key unless it is let down itself, and the memory stays as it is.
-/

namespace TieredStore

/-- A store for rehearsing failures fails a read as scheduled, or passes it on. -/
theorem RehearsedStore.get_fst (s : RehearsedStore) (key : Bytes) :
    (BackingStore.get s key).1 =
      match s.schedule s.calls.length .get with
      | some failure => .error failure
      | none => s.memory.get key := by
  show (s.perform .get fun memory => (memory.get key, memory)).1 = _
  rw [perform]
  cases s.schedule s.calls.length .get <;> rfl

/-- What stands in the way of reading a key. -/
theorem PlainStore.read_eq_error_iff (p : PlainStore) (key : Bytes) :
    (∃ failure, p.read key = .error failure) ↔
      p.pairs[key]? = none ∨ p.closed = true ∨ p.destroyed = true := by
  cases hgone : p.destroyed with
  | true =>
    rw [read, barrier_destroyed hgone]
    exact ⟨fun _ => .inr (.inr rfl), fun _ => ⟨_, rfl⟩⟩
  | false =>
    cases hclosed : p.closed with
    | true =>
      rw [read, barrier_closed hgone hclosed]
      exact ⟨fun _ => .inr (.inl rfl), fun _ => ⟨_, rfl⟩⟩
    | false =>
      rw [read, barrier_none hgone hclosed]
      cases p.pairs[key]? with
      | none => exact ⟨fun _ => .inl rfl, fun _ => ⟨_, rfl⟩⟩
      | some value =>
        constructor
        · rintro ⟨_, herror⟩
          cases herror
        · rintro (hnone | hfalse | hfalse) <;> contradiction

namespace Tiers

/-! ## The places of a read of many keys -/

section Places

variable {κ σ : Type} [CacheEngine κ] [BackingStore σ]

/-- The tiers as a read of many keys comes to one of its places. -/
def comingTo (t : Tiers κ σ) (keys : List Bytes) (place : Nat) : Tiers κ σ :=
  (t.getMany (keys.take place)).2

theorem getMany_cons (t : Tiers κ σ) (key : Bytes) (rest : List Bytes) :
    (t.getMany (key :: rest)).1 =
        ((t.get key).1.toOption.map (key, ·)).toList ++ ((t.get key).2.getMany rest).1 ∧
      (t.getMany (key :: rest)).2 = ((t.get key).2.getMany rest).2 := by
  rw [getMany]
  rcases t.get key with ⟨_ | _, u⟩ <;> exact ⟨rfl, rfl⟩

theorem comingTo_zero (t : Tiers κ σ) (keys : List Bytes) : t.comingTo keys 0 = t := by
  rw [comingTo, List.take_zero, getMany]

theorem comingTo_succ (t : Tiers κ σ) (key : Bytes) (rest : List Bytes) (place : Nat) :
    t.comingTo (key :: rest) (place + 1) = (t.get key).2.comingTo rest place :=
  (t.getMany_cons key (rest.take place)).2

/-- What a read of many keys reads at one of its places, for the key there. -/
def readAt (t : Tiers κ σ) (keys : List Bytes) (place : Nat) (key : Bytes) :
    Except Failure Bytes :=
  ((t.comingTo keys place).get key).1

/-- What is read are the pairs of the places that can be read, in their order. -/
theorem getMany_eq (keys : List Bytes) :
    ∀ t : Tiers κ σ, (t.getMany keys).1 = keys.zipIdx.filterMap fun (key, place) =>
      (t.readAt keys place key).toOption.map (key, ·) := by
  induction keys with
  | nil => exact fun t => rfl
  | cons key rest ih =>
    intro t
    have hrest : rest.zipIdx 1 = rest.zipIdx.map fun (k, place) => (k, place + 1) :=
      List.zipIdx_succ
    rw [(t.getMany_cons key rest).1, ih, List.zipIdx_cons, hrest, List.filterMap_cons,
      List.filterMap_map]
    simp only [Function.comp_def, readAt, comingTo_succ, comingTo_zero]
    cases (t.get key).1.toOption <;> rfl

end Places

/-! ## The read of one place -/

section LetDown

variable {κ : Type} [CacheEngine κ] {t : Tiers κ RehearsedStore} {key : Bytes}

/-- A read that the cache does not answer and the store fails. -/
structure LetDown (t : Tiers κ RehearsedStore) (key : Bytes) : Prop where
  missed : t.isCached key = false
  failed : (t.store.schedule t.store.calls.length .get).isSome

/-- The tiers with the memory itself for their store. -/
def unscheduled (t : Tiers κ RehearsedStore) : Tiers κ MemoryStore :=
  ⟨t.cache, t.store.memory, t.destroyed⟩

variable [LawfulEngine κ]

theorem Coherent.unscheduled (h : t.Coherent) : t.unscheduled.Coherent :=
  ⟨h.valid, h.stored, h.emptied⟩

/-- A read that is not let down is the one of the plain store. -/
theorem Coherent.get_served (h : t.Coherent) (served : ¬t.LetDown key) :
    (t.get key).1 = t.unscheduled.plain.read key := by
  rw [← (h.unscheduled.plain_get key).1]
  cases hgone : t.destroyed with
  | true => rw [get_destroyed hgone, get_destroyed (t := t.unscheduled) hgone]
  | false =>
    cases hpeek : CacheEngine.peek t.cache key with
    | some value =>
      rw [get_hit hgone h.valid hpeek, get_hit (t := t.unscheduled) hgone h.valid hpeek]
    | none =>
      have hmissed : t.isCached key = false := by
        rw [isCached, LawfulEngine.has_eq h.valid, hpeek]
        rfl
      have hget : (BackingStore.get t.store key).1 = t.store.memory.get key := by
        rw [t.store.get_fst,
          Option.not_isSome_iff_eq_none.mp fun hfailed => served ⟨hmissed, hfailed⟩]
      cases hfound : t.store.memory.get key with
      | error failure =>
        rw [get_failed hgone h.valid hpeek (hget.trans hfound),
          get_failed (t := t.unscheduled) hgone h.valid hpeek hfound]
      | ok value =>
        rw [get_found hgone h.valid hpeek (hget.trans hfound),
          get_found (t := t.unscheduled) hgone h.valid hpeek hfound]

/-- A read that is let down fails. -/
theorem LetDown.get_error (h : t.LetDown key) (valid : LawfulEngine.Valid t.cache) :
    ∃ failure, (t.get key).1 = .error failure := by
  cases hgone : t.destroyed with
  | true => exact ⟨_, congrArg Prod.fst (get_destroyed hgone key)⟩
  | false =>
    have hpeek : CacheEngine.peek t.cache key = none := by
      rw [← Option.not_isSome_iff_eq_none, ← LawfulEngine.has_eq valid]
      exact Bool.eq_false_iff.mp h.missed
    obtain ⟨failure, hfailure⟩ := Option.isSome_iff_exists.mp h.failed
    have hget : (BackingStore.get t.store key).1 = .error failure := by
      rw [t.store.get_fst, hfailure]
    exact ⟨failure, congrArg Prod.fst (get_failed hgone valid hpeek hget)⟩

/-- What is missing is not stored, out of reach or let down. -/
theorem Coherent.get_eq_error_iff (h : t.Coherent) (key : Bytes) :
    (∃ failure, (t.get key).1 = .error failure) ↔
      t.store.memory.pairs[key]? = none ∨ t.LetDown key ∨ t.store.memory.closed = true ∨
        t.destroyed = true := by
  by_cases hletDown : t.LetDown key
  · exact ⟨fun _ => .inr (.inl hletDown), fun _ => hletDown.get_error h.valid⟩
  · rw [h.get_served hletDown, PlainStore.read_eq_error_iff, iff_false_intro hletDown, false_or]
    exact Iff.rfl

/-- No place of a read of many keys changes what is stored. -/
theorem Coherent.comingTo (h : t.Coherent) (keys : List Bytes) (place : Nat) :
    (t.comingTo keys place).Coherent ∧
      (t.comingTo keys place).unscheduled.plain = t.unscheduled.plain := by
  obtain ⟨hcoherent, hmemory, _⟩ := Coherent.getMany (keys.take place) t h
  have hdestroyed := destroyed_getMany (keys.take place) t
  have hstore : (t.comingTo keys place).store.memory = t.store.memory := hmemory
  have hplain : (t.comingTo keys place).destroyed = t.destroyed := hdestroyed
  refine ⟨hcoherent, ?_⟩
  rw [plain, plain, Tiers.unscheduled, Tiers.unscheduled, hstore, hplain]

end LetDown

/-- **A read of many keys gives what can be read.** Take the tiers that any calls have left of a new
cache of any settings in front of any store whose calls fail as scheduled, and read any keys, the
same one twice or not, and more of them than the cache can hold. The read succeeds and leaves the
memory as it is. It gives, in the order of the keys, the pairs of the places that can be read; what
is read at a place is what is stored under its key; and a place is missing just if its key is not
stored, it is let down itself, or the store is closed or the data destroyed. So under any two
schedules the places that neither of them lets down are read alike, whatever fails elsewhere. -/
theorem getMany_of_letDown {settings : CacheSettings} {cache : Cache}
    (built : Cache.ofSettings settings = .ok cache) (store : RehearsedStore)
    (calls : List ClientCall) (keys : List Bytes) (epoch : Nat) :
    let t := (Client.performAll (({ cache, store } : Tiers Cache RehearsedStore), []) calls).1
    (t.getManyFromEpoch keys epoch).1 =
        .ok (keys.zipIdx.filterMap fun (key, place) =>
          (t.readAt keys place key).toOption.map (key, ·)) ∧
      (t.getManyFromEpoch keys epoch).2.store.memory = t.store.memory ∧
      (∀ place key, keys[place]? = some key →
        (∀ value, t.readAt keys place key = .ok value →
            t.store.memory.pairs[key]? = some value) ∧
          ((∃ failure, t.readAt keys place key = .error failure) ↔
            t.store.memory.pairs[key]? = none ∨ (t.comingTo keys place).LetDown key ∨
              t.store.memory.closed = true ∨ t.destroyed = true)) ∧
      ∀ schedule place key,
        let u : Tiers Cache RehearsedStore := { t with store := { t.store with schedule } }
        keys[place]? = some key → ¬(t.comingTo keys place).LetDown key →
          ¬(u.comingTo keys place).LetDown key →
            u.readAt keys place key = t.readAt keys place key := by
  intro t
  have hcoherent : t.Coherent := coherent_of_performAll built store calls
  refine ⟨congrArg Except.ok (getMany_eq keys t), (Coherent.getMany keys t hcoherent).2.1, ?_, ?_⟩
  · intro place key _
    obtain ⟨hplace, hplain⟩ := hcoherent.comingTo keys place
    have hpairs : (t.comingTo keys place).store.memory.pairs = t.store.memory.pairs :=
      congrArg PlainStore.pairs hplain
    have hclosed : (t.comingTo keys place).store.memory.closed = t.store.memory.closed :=
      congrArg PlainStore.closed hplain
    have hdestroyed : (t.comingTo keys place).destroyed = t.destroyed :=
      congrArg PlainStore.destroyed hplain
    rw [← hpairs, ← hclosed, ← hdestroyed]
    exact ⟨(hplace.get key).2.2, hplace.get_eq_error_iff key⟩
  · intro schedule place key u _ hserved hserved'
    have hother : u.Coherent := ⟨hcoherent.valid, hcoherent.stored, hcoherent.emptied⟩
    obtain ⟨hplace, hplain⟩ := hcoherent.comingTo keys place
    obtain ⟨hplace', hplain'⟩ := hother.comingTo keys place
    rw [readAt, readAt, hplace.get_served hserved, hplace'.get_served hserved', hplain, hplain']
    rfl

/-- With room for one entry: a key is let down at the first of its two places, where it is not
cached, and read at the second; the other one is read from the cache and, evicted meanwhile, from
the store. -/
theorem getMany_of_letDown_evicting :
    let store : RehearsedStore :=
      { schedule := fun count call =>
          if count = 2 ∧ call = .get then some (.io "disk unplugged") else none }
    let keys : List Bytes := [[2], [1], [2], [1], [3], [2]]
    ∃ cache, Cache.ofSettings { kind := .sharded, capacity := 1 } = .ok cache ∧
      let t := (Client.performAll (({ cache, store } : Tiers Cache RehearsedStore), [])
        [.call (.put [1] [10]), .call (.put [2] [20])]).1
      (t.getManyFromEpoch keys 0).1 = .ok [([2], [20]), ([2], [20]), ([1], [10]), ([2], [20])] ∧
        (t.comingTo keys 1).LetDown [1] ∧
        ∀ failure, t.readAt keys 3 [1] ≠ .error failure := by
  intro store keys
  have hlaw := @getMany_of_letDown { kind := .sharded, capacity := 1 } _ rfl store
    [.call (.put [1] [10]), .call (.put [2] [20])] keys 0
  have hmissing := (hlaw.2.2.1 3 [1] rfl).2.mp
  refine ⟨_, rfl, hlaw.1.trans (by decide +kernel), ⟨by decide +kernel, by decide +kernel⟩, ?_⟩
  intro failure herror
  rcases hmissing ⟨failure, herror⟩ with hnone | hletDown | hclosed | hgone
  · exact absurd hnone (by decide +kernel)
  · exact absurd hletDown.failed (by decide +kernel)
  · exact absurd hclosed (by decide +kernel)
  · exact absurd hgone (by decide +kernel)

end Tiers

end TieredStore
