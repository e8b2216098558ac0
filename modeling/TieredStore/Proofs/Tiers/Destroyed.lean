import TieredStore.Proofs.Cache.BySettings
import TieredStore.Proofs.Tiers.Client
import TieredStore.Proofs.Tiers.Coherence

/-!
# Destruction is final

Once the data of some tiers is destroyed, calls are turned away before they reach the cache or the
store. `StorerCall.afterDestruction` tells what each call is answered then. Two calls have answers
of their own: a read of many keys leaves out those that it cannot read, which are all of them, and
data is not kept by epoch in any tiers, destroyed or not. Closing is the one call that still goes to
the store, so the table gives no answer to it.

`Tiers.Ended` is the state after destruction, from which no call and no walk leads out: its cache is
empty, and what could fill it asks first whether the data was destroyed. Tiers in use come into it
by a destruction that succeeds and by nothing else (`Tiers.destroyed_answer`), so tiers that are
marked as destroyed are ended (`Tiers.Sound`).

**The law** is `Tiers.answers_of_destroyed`; `Tiers.other_answers_of_destroyed` has the answers that
are not the failure of destroyed tiers.
-/

namespace TieredStore

/-- What a call is answered once the data is destroyed, where that is not left to the store. -/
def StorerCall.afterDestruction : StorerCall → Option StorerAnswer
  | put .. | putInEpoch .. | has _ | remove _ | removeFromCurrentEpoch _ | destroy =>
    some (.done (.error .destroyed))
  | get _ | getFromEpoch .. | searchFirst _ => some (.value (.error .destroyed))
  | getManyFromEpoch .. => some (.pairs (.ok []))
  | clearCache => some .nothing
  | oldestEpoch => some (.epoch (.error .noOldestEpoch))
  | close => none

namespace Tiers

section Ended

variable {κ σ : Type} [CacheEngine κ] [LawfulEngine κ] [BackingStore σ]

/-- The data is destroyed and nothing is cached. -/
structure Ended (t : Tiers κ σ) : Prop where
  destroyed : t.destroyed = true
  valid : LawfulEngine.Valid t.cache
  empty : ∀ key, CacheEngine.peek t.cache key = none

variable {t : Tiers κ σ}

/-- A successful destruction ends the tiers. -/
theorem ended_of_destroy (valid : LawfulEngine.Valid t.cache) (done : t.destroy.1 = .ok ()) :
    t.destroy.2.Ended := by
  cases hgone : t.destroyed with
  | true =>
    rw [destroy_destroyed hgone] at done
    cases done
  | false =>
    cases hstore : (BackingStore.destroy t.store).1 with
    | error failure =>
      rw [destroy_refused hgone hstore] at done
      cases done
    | ok _ =>
      rw [destroy_done hgone hstore]
      exact ⟨rfl, LawfulEngine.valid_clear valid, LawfulEngine.peek_clear valid⟩

omit [LawfulEngine κ] in
/-- A read of many keys reads none of them. -/
theorem getMany_destroyed (gone : t.destroyed = true) (keys : List Bytes) :
    t.getMany keys = ([], t) := by
  induction keys with
  | nil => rfl
  | cons key rest ih =>
    rw [getMany, get_destroyed gone]
    exact ih

omit [LawfulEngine κ] in
/-- Destroyed tiers are asked for a key in vain, without a look at the cache. -/
theorem has_destroyed (gone : t.destroyed = true) (key : Bytes) :
    t.has key = (.error .destroyed, t) := by
  rw [has, if_pos gone]

omit [BackingStore σ] in
/-- Emptying a cache that is empty, and whatever becomes of the store. -/
theorem Ended.cleared (h : t.Ended) (store : σ) :
    ({ t with cache := CacheEngine.clear t.cache, store } : Tiers κ σ).Ended where
  destroyed := h.destroyed
  valid := LawfulEngine.valid_clear h.valid
  empty := LawfulEngine.peek_clear h.valid

/-- A call leaves ended tiers ended; where the table has its answer, that is the one given, and the
store is left alone. -/
structure TurnedAway (t : Tiers κ σ) (call : StorerCall) : Prop where
  ended : (Storer.answer t call).2.Ended
  answered : ∀ answer, call.afterDestruction = some answer →
    (Storer.answer t call).1 = answer ∧ (Storer.answer t call).2.store = t.store

/-- A call is turned away if it is answered from the table and changes nothing. -/
theorem Ended.turnedAway_of_answer (h : t.Ended) {call : StorerCall} {given : StorerAnswer}
    (table : call.afterDestruction = some given) (answer : Storer.answer t call = (given, t)) :
    t.TurnedAway call := by
  constructor
  · rw [answer]
    exact h
  · intro other hother
    rw [answer]
    exact ⟨Option.some.inj (table.symm.trans hother), rfl⟩

/-- No call leads out of ended tiers. -/
theorem Ended.turnedAway (h : t.Ended) (call : StorerCall) : t.TurnedAway call := by
  have hgone := h.destroyed
  have hdone : ∀ {outcome : Except Failure Unit × Tiers κ σ}, outcome = (.error .destroyed, t) →
      outcome.map StorerAnswer.done id = (.done (.error .destroyed), t) := by
    rintro _ rfl
    rfl
  have hvalue : ∀ {outcome : Except Failure Bytes × Tiers κ σ}, outcome = (.error .destroyed, t) →
      outcome.map StorerAnswer.value id = (.value (.error .destroyed), t) := by
    rintro _ rfl
    rfl
  cases call with
  | put key value => exact h.turnedAway_of_answer rfl (hdone (put_destroyed hgone key value))
  | putInEpoch key value epoch =>
    exact h.turnedAway_of_answer rfl (hdone (put_destroyed hgone key value))
  | get key => exact h.turnedAway_of_answer rfl (hvalue (get_destroyed hgone key))
  | getFromEpoch key epoch => exact h.turnedAway_of_answer rfl (hvalue (get_destroyed hgone key))
  | searchFirst key => exact h.turnedAway_of_answer rfl (hvalue (get_destroyed hgone key))
  | getManyFromEpoch keys epoch =>
    apply h.turnedAway_of_answer rfl
    show ((t.getMany keys).map Except.ok id).map StorerAnswer.pairs id = _
    rw [getMany_destroyed hgone]
    rfl
  | has key => exact h.turnedAway_of_answer rfl (hdone (has_destroyed hgone key))
  | remove key => exact h.turnedAway_of_answer rfl (hdone (remove_destroyed hgone key))
  | removeFromCurrentEpoch key =>
    exact h.turnedAway_of_answer rfl (hdone (remove_destroyed hgone key))
  | oldestEpoch => exact h.turnedAway_of_answer rfl rfl
  | destroy => exact h.turnedAway_of_answer rfl (hdone (destroy_destroyed hgone))
  | clearCache =>
    refine ⟨h.cleared t.store, ?_⟩
    intro answer hanswer
    exact ⟨Option.some.inj hanswer, rfl⟩
  | close =>
    refine ⟨h.cleared _, ?_⟩
    intro answer hanswer
    cases hanswer

/-- So no run leads out of them. -/
theorem keeps_ended : Storer.Keeps fun run : Tiers κ σ × List ClientEvent => run.1.Ended where
  answer h call := (h.turnedAway call).ended
  visited h _ := h
  walk {t events} h visit _ := by
    show (t.walk visit events).1.Ended
    rw [walk_destroyed h.destroyed]
    exact h

/-- A walk visits nothing, whatever the visitor would do. -/
theorem Ended.perform_walk (h : t.Ended) (events : List ClientEvent)
    (calls : List ClientEvent → List ClientCall) (more : List ClientEvent → Bool) :
    Client.perform (t, events) (.walk calls more) = (t, events) := by
  rw [Client.perform]
  exact walk_destroyed h.destroyed _ _

omit [BackingStore σ] in
/-- Nothing is cached, and nothing is counted as cached. -/
theorem Ended.nothing_cached [ListedEngine κ] (h : t.Ended) :
    t.cachedKeys = [] ∧ (∀ key, t.isCached key = false) ∧ t.stats.entries = 0 ∧
      t.stats.bytes = 0 := by
  obtain ⟨_, hkeys, hsize, hbytes⟩ := ListedEngine.of_empty h.valid h.empty
  refine ⟨hkeys, ?_, hsize, hbytes⟩
  intro key
  rw [isCached, LawfulEngine.has_eq h.valid, h.empty]
  rfl

/-! ## Tiers in use -/

omit [LawfulEngine κ] in
/-- No write destroys the tiers, also not one that the store refuses. -/
theorem destroyed_put (key value : Bytes) : (t.put key value).2.destroyed = t.destroyed := by
  unfold put
  split
  · rfl
  · dsimp only
    split <;> rfl

omit [LawfulEngine κ] [BackingStore σ] in
theorem destroyed_lookup (t : Tiers κ σ) (key : Bytes) :
    (t.lookup key).2.destroyed = t.destroyed := by
  unfold lookup
  split <;> rfl

omit [LawfulEngine κ] in
theorem destroyed_fetch (t : Tiers κ σ) (key : Bytes) :
    (t.fetch key).2.destroyed = t.destroyed := by
  have hlookup := destroyed_lookup t key
  unfold fetch
  split
  · next heq => rw [heq] at hlookup; exact hlookup
  · next heq => rw [heq] at hlookup; exact hlookup
  · next heq =>
    rw [heq] at hlookup
    split <;> exact hlookup

omit [LawfulEngine κ] in
theorem destroyed_get (t : Tiers κ σ) (key : Bytes) : (t.get key).2.destroyed = t.destroyed := by
  have hlookup := destroyed_lookup t key
  unfold get
  split
  · next heq => rw [heq] at hlookup; exact hlookup
  · next heq => rw [heq] at hlookup; exact hlookup
  · next heq =>
    rw [heq] at hlookup
    exact (destroyed_fetch _ key).trans hlookup

omit [LawfulEngine κ] in
/-- No read of many keys destroys the tiers, as no read of one does. -/
theorem destroyed_getMany (keys : List Bytes) :
    ∀ t : Tiers κ σ, (t.getMany keys).2.destroyed = t.destroyed := by
  induction keys with
  | nil => exact fun t => rfl
  | cons key rest ih =>
    intro t
    have hget := destroyed_get t key
    rw [getMany]
    split
    · next heq => rw [heq] at hget; exact (ih _).trans hget
    · next heq => rw [heq] at hget; exact (ih _).trans hget

omit [LawfulEngine κ] in
/-- No call but a destruction marks the data as destroyed. -/
theorem destroyed_answer {call : StorerCall} (other : call ≠ .destroy) :
    (Storer.answer t call).2.destroyed = t.destroyed := by
  have hhas : ∀ key, (t.has key).2.destroyed = t.destroyed := by
    intro key
    unfold has
    split
    · rfl
    · split <;> rfl
  have hremove : ∀ key, (t.remove key).2.destroyed = t.destroyed := by
    intro key
    unfold remove
    split <;> rfl
  cases call with
  | put key value | putInEpoch key value epoch => exact destroyed_put key value
  | get key | getFromEpoch key epoch | searchFirst key => exact destroyed_get t key
  | getManyFromEpoch keys epoch => exact destroyed_getMany keys t
  | has key => exact hhas key
  | remove key | removeFromCurrentEpoch key => exact hremove key
  | clearCache | oldestEpoch | close => rfl
  | destroy => exact absurd rfl other

/-- The cache is valid, and nothing is left in it once the data is destroyed. -/
structure Sound (t : Tiers κ σ) : Prop where
  valid : LawfulEngine.Valid t.cache
  ended : t.destroyed = true → t.Ended

omit [BackingStore σ] in
theorem Ended.sound (h : t.Ended) : t.Sound := ⟨h.valid, fun _ => h⟩

omit [BackingStore σ] in
/-- Tiers in use have nothing to show for a destruction. -/
theorem sound_of_alive (valid : LawfulEngine.Valid t.cache) (alive : t.destroyed = false) :
    t.Sound :=
  ⟨valid, fun hgone => nomatch alive.symm.trans hgone⟩

/-- Destruction is the one call that makes an end; the others keep the flag, and an end that was
made is kept by all. -/
theorem Sound.answer (h : t.Sound) (call : StorerCall) : (Storer.answer t call).2.Sound := by
  have hvalid : LawfulEngine.Valid (Storer.answer t call).2.cache :=
    cache_answer (I := LawfulEngine.Valid) (fun _ h call _ => LawfulEngine.valid_perform h call)
      h.valid call
  cases hgone : t.destroyed with
  | true => exact ((h.ended hgone).turnedAway call).ended.sound
  | false =>
    by_cases hcall : call = .destroy
    · subst hcall
      cases hdone : t.destroy.1 with
      | ok _ => exact (ended_of_destroy h.valid hdone).sound
      | error failure =>
        refine sound_of_alive hvalid ?_
        cases hstore : (BackingStore.destroy t.store).1 with
        | ok _ =>
          rw [destroy_done hgone hstore] at hdone
          cases hdone
        | error failure =>
          show t.destroy.2.destroyed = false
          rw [destroy_refused hgone hstore]
          exact hgone
    · exact sound_of_alive hvalid ((destroyed_answer hcall).trans hgone)

omit [BackingStore σ] in
/-- The first section of a read alone makes no end and undoes none. -/
theorem Sound.lookup (h : t.Sound) (key : Bytes) : (t.lookup key).2.Sound := by
  unfold Tiers.lookup
  split
  · exact h
  · next halive =>
    exact sound_of_alive (LawfulEngine.valid_get h.valid key) (Bool.eq_false_iff.mpr halive)

/-- So tiers that were sound are so after every run. -/
theorem keeps_sound : Storer.Keeps fun run : Tiers κ σ × List ClientEvent => run.1.Sound where
  answer h call := h.answer call
  visited h _ := h
  walk {t events} h visit hvisit := by
    show (t.walk visit events).1.Sound
    cases hgone : t.destroyed with
    | true =>
      rw [walk_destroyed hgone]
      exact h
    | false =>
      rw [walk_eq hgone]
      exact visitWhile_keeps hvisit _ _ (sound_of_alive h.valid hgone)

end Ended

/-- Tiers that any calls have left of a new cache in front of any store are sound. -/
theorem sound_of_performAll {settings : CacheSettings} {cache : Cache}
    (built : Cache.ofSettings settings = .ok cache) {σ : Type} [BackingStore σ] (store : σ)
    (calls : List ClientCall) :
    (Client.performAll (({ cache, store } : Tiers Cache σ), []) calls).1.Sound := by
  have hstart : ({ cache, store } : Tiers Cache σ).Sound :=
    sound_of_alive (Cache.fresh_of_ofSettings built).1 rfl
  exact keeps_sound.performAll calls _ hstart

/-- **Destruction is final.** Take the tiers that any calls have left of a new cache of any settings
in front of any store, let their data be destroyed with success, and let a client make any further
calls, closings and walks among them. Each call but a closing is then answered as
`StorerCall.afterDestruction` tells and leaves the store as it was, so one that records its calls
shows none; a walk visits nothing; and the cache is empty. -/
theorem answers_of_destroyed {settings : CacheSettings} {cache : Cache}
    (built : Cache.ofSettings settings = .ok cache) {σ : Type} [BackingStore σ] (store : σ)
    (calls : List ClientCall) :
    let t := (Client.performAll (({ cache, store } : Tiers Cache σ), []) calls).1
    (Storer.answer t .destroy).1 = .done (.ok ()) →
      ∀ (events : List ClientEvent) (later : List ClientCall),
        let run := Client.performAll ((Storer.answer t .destroy).2, events) later
        let w := run.1
        (∀ call answer, call.afterDestruction = some answer →
            (Storer.answer w call).1 = answer ∧ (Storer.answer w call).2.store = w.store) ∧
          (∀ visitor more, Client.perform run (.walk visitor more) = run) ∧
          w.destroyed = true ∧ w.cachedKeys = [] ∧ (∀ key, w.isCached key = false) ∧
          w.stats.entries = 0 ∧ w.stats.bytes = 0 := by
  intro t done events later run w
  have hvalid : LawfulEngine.Valid t.cache :=
    (keeps_cache (I := LawfulEngine.Valid) fun _ h call => LawfulEngine.valid_perform h call)
      |>.performAll calls (({ cache, store } : Tiers Cache σ), [])
        (Cache.fresh_of_ofSettings built).1
  have hended : t.destroy.2.Ended := ended_of_destroy hvalid (StorerAnswer.done.inj done)
  have hw : w.Ended := keeps_ended.performAll later (t.destroy.2, events) hended
  refine ⟨fun call => (hw.turnedAway call).answered, ?_, hw.destroyed, hw.nothing_cached⟩
  intro visitor more
  exact hw.perform_walk run.2 visitor more

/-- A closing and a refused write after the destruction: then a read is turned away, and the store
is not asked. -/
theorem answers_of_destroyed_closed :
    ∃ cache, Cache.ofSettings { capacity := 2 } = .ok cache ∧
      let start : Tiers Cache RehearsedStore := { cache, store := {} }
      let t := (Client.performAll (start, []) [.call (.put [1] [10])]).1
      let w := (Client.performAll ((Storer.answer t .destroy).2, [])
        [.call .close, .call (.put [2] [20])]).1
      (Storer.answer w (.get [1])).1 = .value (.error .destroyed) ∧
        (Storer.answer w (.get [1])).2.store.calls = [.put, .destroy, .close] ∧
        w.cachedKeys = [] := by
  refine ⟨_, rfl, ?_⟩
  have hlaw := @answers_of_destroyed { capacity := 2 } _ rfl RehearsedStore _ {}
    [.call (.put [1] [10])] rfl [] [.call .close, .call (.put [2] [20])]
  obtain ⟨hanswer, hstore⟩ := hlaw.1 (.get [1]) _ rfl
  exact ⟨hanswer, congrArg RehearsedStore.calls hstore, hlaw.2.2.2.1⟩

/-- After a destruction a read of many keys succeeds with none of them, the oldest epoch is missing
as ever, and a closing reaches the store and succeeds. -/
theorem other_answers_of_destroyed :
    ∃ cache, Cache.ofSettings { capacity := 2 } = .ok cache ∧
      let start : Tiers Cache RehearsedStore := { cache, store := {} }
      let t := (Client.performAll (start, []) [.call (.put [1] [10])]).1
      let u := (Storer.answer t .destroy).2
      (Storer.answer t .destroy).1 = .done (.ok ()) ∧
        (Storer.answer u (.getManyFromEpoch [[1]] 0)).1 = .pairs (.ok []) ∧
        (Storer.answer u .oldestEpoch).1 = .epoch (.error .noOldestEpoch) ∧
        (Storer.answer u .close).1 = .done (.ok ()) ∧
        (Storer.answer u .close).2.store.calls = u.store.calls ++ [.close] :=
  ⟨_, rfl, rfl, rfl, rfl, rfl, rfl⟩

end Tiers

end TieredStore
