import TieredStore.Proofs.Cache.BySettings
import TieredStore.Proofs.Tiers.Client
import TieredStore.Proofs.Tiers.Coherence

/-!
# What is read is what was written last

The events of a run tell which value is `Current` for a key: the one that the last successful write
wrote, if no successful removal or destruction came after it, or the one that was stored before the
run. `Tiers.Faithful` is the invariant of a run: the tiers are coherent, the memory has current
values only, and every read in the events gave what was current at that moment.

**The law** (`Tiers.faithful_of_performAll`): over a new cache of any settings and a store of which
any call may fail, every run ends with a cache that has only what is stored, and nothing once the
store is closed or the data destroyed; and no read of the run, nor any after it, gives the value of
a failed or superseded write.
-/

namespace TieredStore

namespace ClientEvent

/-- The event is a successful write of a value under a key. -/
def Writes (key value : Bytes) : ClientEvent → Prop
  | answered (.put k v) (.done outcome) => outcome = .ok () ∧ k = key ∧ v = value
  | answered (.putInEpoch k v _) (.done outcome) => outcome = .ok () ∧ k = key ∧ v = value
  | _ => False

/-- After the event a value that was stored under the key is not the current one any more. -/
def Replaces (key : Bytes) : ClientEvent → Prop
  | answered (.put k _) (.done outcome) => outcome = .ok () ∧ k = key
  | answered (.putInEpoch k _ _) (.done outcome) => outcome = .ok () ∧ k = key
  | answered (.remove k) (.done outcome) => outcome = .ok () ∧ k = key
  | answered (.removeFromCurrentEpoch k) (.done outcome) => outcome = .ok () ∧ k = key
  | answered .destroy (.done outcome) => outcome = .ok ()
  | _ => False

/-- The event is a read that gave a value for a key. -/
def Reads (key value : Bytes) : ClientEvent → Prop
  | answered (.get k) (.value outcome) => k = key ∧ outcome = .ok value
  | answered (.getFromEpoch k _) (.value outcome) => k = key ∧ outcome = .ok value
  | answered (.searchFirst k) (.value outcome) => k = key ∧ outcome = .ok value
  | answered (.getManyFromEpoch _ _) (.pairs outcome) =>
    ∃ found, outcome = .ok found ∧ (key, value) ∈ found
  | _ => False

end ClientEvent

/-- The value is the current one of the key: written by the last event that replaced the key's
value, or in the memory from the beginning. -/
def Current (start : MemoryStore) (events : List ClientEvent) (key value : Bytes) : Prop :=
  (∃ before event after, events = before ++ event :: after ∧ event.Writes key value ∧
      ∀ later ∈ after, ¬later.Replaces key) ∨
    start.pairs[key]? = some value ∧ ∀ event ∈ events, ¬event.Replaces key

section Current

variable {start : MemoryStore} {events : List ClientEvent} {event : ClientEvent} {key value : Bytes}

/-- What an event writes is current after it. -/
theorem Current.of_writes (h : event.Writes key value) :
    Current start (events ++ [event]) key value :=
  .inl ⟨events, event, [], rfl, h, fun _ hlater => absurd hlater List.not_mem_nil⟩

/-- A value stays current through an event that does not replace it. -/
theorem Current.of_kept (h : Current start events key value) (kept : ¬event.Replaces key) :
    Current start (events ++ [event]) key value := by
  have hlast : ∀ l : List ClientEvent, (∀ e ∈ l, ¬e.Replaces key) →
      ∀ e ∈ l ++ [event], ¬e.Replaces key := by
    intro l hl e he
    rcases List.mem_append.mp he with he | he
    · exact hl e he
    · rw [List.mem_singleton.mp he]
      exact kept
  rcases h with ⟨before, write, after, rfl, hwrites, hafter⟩ | ⟨hstart, hevents⟩
  · exact .inl ⟨before, write, after ++ [event], by rw [List.append_assoc]; rfl, hwrites,
      hlast after hafter⟩
  · exact .inr ⟨hstart, hlast events hevents⟩

end Current

namespace Tiers

variable {κ σ : Type} [CacheEngine κ] [LawfulEngine κ] [BackingStore σ] [MemoryLike σ]

/-- What holds between two calls of a run that began with a memory. -/
structure Faithful (start : MemoryStore) (run : Tiers κ σ × List ClientEvent) : Prop where
  coherent : run.1.Coherent
  current : ∀ {key value : Bytes}, run.1.memory.pairs[key]? = some value →
    Current start run.2 key value
  reads : ∀ before event after, run.2 = before ++ event :: after → ∀ {key value},
    event.Reads key value → Current start before key value

variable {start : MemoryStore} {t : Tiers κ σ} {events : List ClientEvent}

/-- A run is faithful to the memory only, so the store may change in what is behind it. -/
theorem Faithful.of_same (h : Faithful start (t, events)) {u : Tiers κ σ} (coherent : u.Coherent)
    (same : u.memory = t.memory) : Faithful start (u, events) where
  coherent := coherent
  current {key value} hpairs := by
    rw [same] at hpairs
    exact h.current hpairs
  reads := h.reads

/-- An event keeps a run faithful if it accounts for what is in the memory afterwards, and reads
only what was there before. -/
theorem Faithful.snoc (h : Faithful start (t, events)) {u : Tiers κ σ} {event : ClientEvent}
    (coherent : u.Coherent)
    (account : ∀ key value, u.memory.pairs[key]? = some value →
      event.Writes key value ∨ ¬event.Replaces key ∧ t.memory.pairs[key]? = some value)
    (reads : ∀ key value, event.Reads key value → t.memory.pairs[key]? = some value) :
    Faithful start (u, events ++ [event]) where
  coherent := coherent
  current {key value} hpairs := by
    rcases account key value hpairs with hwrites | ⟨hkept, hold⟩
    · exact Current.of_writes hwrites
    · exact (h.current hold).of_kept hkept
  reads before other after hsplit key value hread := by
    rcases List.eq_nil_or_concat after with rfl | ⟨rest, last, rfl⟩
    · -- the event is the last one
      obtain ⟨rfl, hevent⟩ := List.append_inj' hsplit rfl
      rw [← List.singleton_inj.mp hevent] at hread
      exact h.current (reads key value hread)
    · have hsplit' : events = before ++ other :: rest := by
        rw [List.concat_eq_append, ← List.cons_append, ← List.append_assoc] at hsplit
        exact (List.append_inj' hsplit rfl).1
      exact h.reads before other rest hsplit' hread

/-- A call that leaves the memory alone and reads what it has. -/
theorem Faithful.snoc_same (h : Faithful start (t, events)) {u : Tiers κ σ} {event : ClientEvent}
    (coherent : u.Coherent) (same : u.memory = t.memory) (kept : ∀ key, ¬event.Replaces key)
    (reads : ∀ key value, event.Reads key value → t.memory.pairs[key]? = some value) :
    Faithful start (u, events ++ [event]) := by
  refine h.snoc coherent (fun key value hpairs => .inr ⟨kept key, ?_⟩) reads
  rw [same] at hpairs
  exact hpairs

/-! Calls with an epoch are the same calls without, so each step is stated for any event that says
of the call what its own event says. -/

/-- A write that succeeds is what its event says it wrote. A refused one replaces nothing, and the
memory is as it was. -/
theorem Faithful.put (h : Faithful start (t, events)) (key value : Bytes) {event : ClientEvent}
    (writes : ∀ {k v}, (t.put key value).1 = .ok () ∧ key = k ∧ value = v → event.Writes k v)
    (replaces : ∀ {k}, event.Replaces k → (t.put key value).1 = .ok () ∧ key = k)
    (reads : ∀ k v, ¬event.Reads k v) : Faithful start ((t.put key value).2, events ++ [event]) := by
  obtain ⟨hcoherent, ⟨⟨failure, hfailed⟩, hsame⟩ | ⟨hok, hmemory⟩⟩ := h.coherent.put key value
  · refine h.snoc_same hcoherent hsame (fun k hreplaces => ?_) fun k v hread => (reads k v hread).elim
    cases hfailed.symm.trans (replaces hreplaces).1
  · refine h.snoc hcoherent (fun k v hpairs => ?_) fun k v hread => (reads k v hread).elim
    rw [hmemory, OrderedMap.getElem?_insert] at hpairs
    by_cases hk : key = k
    · rw [if_pos hk] at hpairs
      exact .inl (writes ⟨hok, hk, Option.some.inj hpairs⟩)
    · rw [if_neg hk] at hpairs
      exact .inr ⟨fun hreplaces => hk (replaces hreplaces).2, hpairs⟩

/-- A read gives what the memory has, which is current. -/
theorem Faithful.get (h : Faithful start (t, events)) (key : Bytes) {event : ClientEvent}
    (kept : ∀ k, ¬event.Replaces k)
    (reads : ∀ {k v}, event.Reads k v → key = k ∧ (t.get key).1 = .ok v) :
    Faithful start ((t.get key).2, events ++ [event]) := by
  obtain ⟨hcoherent, hsame, hread⟩ := h.coherent.get key
  refine h.snoc_same hcoherent hsame kept fun k v hreads => ?_
  obtain ⟨rfl, hok⟩ := reads hreads
  exact hread v hok

/-- After a removal there is nothing left under the key that would have to be current. -/
theorem Faithful.remove (h : Faithful start (t, events)) (key : Bytes) {event : ClientEvent}
    (replaces : ∀ {k}, event.Replaces k → (t.remove key).1 = .ok () ∧ key = k)
    (reads : ∀ k v, ¬event.Reads k v) : Faithful start ((t.remove key).2, events ++ [event]) := by
  obtain ⟨hcoherent, ⟨⟨failure, hfailed⟩, hsame⟩ | ⟨_, hmemory⟩⟩ := h.coherent.remove key
  · refine h.snoc_same hcoherent hsame (fun k hreplaces => ?_) fun k v hread => (reads k v hread).elim
    cases hfailed.symm.trans (replaces hreplaces).1
  · refine h.snoc hcoherent (fun k v hpairs => .inr ?_) fun k v hread => (reads k v hread).elim
    rw [hmemory, OrderedMap.getElem?_erase] at hpairs
    by_cases hk : key = k
    · rw [if_pos hk] at hpairs
      cases hpairs
    · rw [if_neg hk] at hpairs
      exact ⟨fun hreplaces => hk (replaces hreplaces).2, hpairs⟩

/-- A destruction replaces all values, and leaves none. -/
theorem Faithful.destroy (h : Faithful start (t, events)) :
    Faithful start (t.destroy.2, events ++ [.answered .destroy (.done t.destroy.1)]) := by
  obtain ⟨hcoherent, ⟨⟨failure, hfailed⟩, hsame⟩ | ⟨_, hmemory⟩⟩ := h.coherent.destroy
  · refine h.snoc_same hcoherent hsame (fun k hreplaces => ?_) fun k v hread => hread.elim
    cases hfailed.symm.trans hreplaces
  · refine h.snoc hcoherent (fun k v hpairs => ?_) fun k v hread => hread.elim
    -- nothing is left that the event would have to account for
    rw [hmemory] at hpairs
    exact absurd hpairs (by simp [MemoryStore.destroy])

/-- Closing replaces nothing: the values are out of reach, and still there. -/
theorem Faithful.close (h : Faithful start (t, events)) :
    Faithful start (t.close.2, events ++ [.answered .close (.done t.close.1)]) := by
  obtain ⟨hcoherent, hmemory⟩ := h.coherent.close
  refine h.snoc hcoherent (fun k v hpairs => .inr ⟨id, ?_⟩) fun k v hread => hread.elim
  rcases hmemory with hmemory | hmemory <;> (rw [hmemory] at hpairs; exact hpairs)

/-- Each call, by what it does to the memory. -/
theorem Faithful.answer (h : Faithful start (t, events)) (call : StorerCall) :
    Faithful start ((Storer.answer t call).2,
      events ++ [.answered call (Storer.answer t call).1]) := by
  cases call with
  | put key value => exact h.put key value id id fun _ _ => id
  | putInEpoch key value epoch => exact h.put key value id id fun _ _ => id
  | get key => exact h.get key (fun _ => id) id
  | getFromEpoch key epoch => exact h.get key (fun _ => id) id
  | searchFirst key => exact h.get key (fun _ => id) id
  | getManyFromEpoch keys epoch =>
    obtain ⟨hcoherent, hsame, hpairs⟩ := Coherent.getMany keys t h.coherent
    refine h.snoc_same hcoherent hsame (fun _ => id) ?_
    rintro key value ⟨found, hfound, hmem⟩
    rw [← Except.ok.inj hfound] at hmem
    exact hpairs (key, value) hmem
  | has key =>
    obtain ⟨hcoherent, hsame⟩ := h.coherent.has key
    exact h.snoc_same hcoherent hsame (fun _ => id) fun _ _ => False.elim
  | remove key => exact h.remove key id fun _ _ => id
  | removeFromCurrentEpoch key => exact h.remove key id fun _ _ => id
  | clearCache => exact h.snoc_same h.coherent.clearCache rfl (fun _ => id) fun _ _ => False.elim
  | oldestEpoch => exact h.snoc_same h.coherent rfl (fun _ => id) fun _ _ => False.elim
  | close => exact h.close
  | destroy => exact h.destroy

/-- The invariant is kept by every call of a client. -/
theorem keeps_faithful (start : MemoryStore) :
    Storer.Keeps (Faithful start : Tiers κ σ × List ClientEvent → Prop) where
  answer h call := h.answer call
  visited h pair := h.snoc_same h.coherent rfl (fun _ => id) fun _ _ => False.elim
  walk {t events} h visit step := by
    show Faithful start (t.walk visit events)
    cases hgone : t.destroyed with
    | true =>
      rw [walk_destroyed hgone]
      exact h
    | false =>
      obtain ⟨hcoherent, hsame⟩ := h.coherent.snapshot
      rw [walk_eq hgone]
      exact visitWhile_keeps step _ _ (h.of_same hcoherent hsame)

/-- Tiers with an empty cache begin a faithful run. -/
theorem faithful_of_empty {t : Tiers κ σ} (valid : LawfulEngine.Valid t.cache)
    (empty : ∀ key, CacheEngine.peek t.cache key = none) : Faithful t.memory (t, []) where
  coherent := coherent_of_empty valid empty
  current hpairs := .inr ⟨hpairs, fun event hevent => absurd hevent List.not_mem_nil⟩
  reads before event after hsplit := by
    cases before <;> cases hsplit

/-- Tiers in use are coherent: those that any calls leave of a new cache in front of any store. -/
theorem coherent_of_performAll {settings : CacheSettings} {cache : Cache}
    (built : Cache.ofSettings settings = .ok cache) (store : σ) (calls : List ClientCall) :
    (Client.performAll (({ cache, store } : Tiers Cache σ), []) calls).1.Coherent := by
  obtain ⟨hvalid, hempty⟩ := Cache.fresh_of_ofSettings built
  let start : Tiers Cache σ := { cache, store }
  have hstart : Faithful start.memory (start, []) := faithful_of_empty hvalid hempty
  exact ((keeps_faithful start.memory).performAll calls _ hstart).coherent

/-- **What is read is what was written last.** Start with a new cache of any settings and any store
whose calls fail as scheduled, and let a client make any calls. Afterwards the cache holds only
values that are stored; it is empty if the store was closed or the data destroyed; and every read of
the run, like every read after it, gives the current value of its key. -/
theorem faithful_of_performAll {settings : CacheSettings} {cache : Cache}
    (built : Cache.ofSettings settings = .ok cache) (store : RehearsedStore)
    (calls : List ClientCall) :
    let start : Tiers Cache RehearsedStore := { cache, store }
    let run := Client.performAll (start, []) calls
    let t := run.1
    (∀ key, key ∈ CacheEngine.keys t.cache ∨ CacheEngine.has t.cache key = true →
        ∃ value, CacheEngine.peek t.cache key = some value) ∧
      (∀ key value, CacheEngine.peek t.cache key = some value →
        t.store.memory.pairs[key]? = some value) ∧
      (t.store.memory.closed = true ∨ t.destroyed = true → CacheEngine.keys t.cache = []) ∧
      (∀ before event after, run.2 = before ++ event :: after → ∀ key value,
        event.Reads key value → Current store.memory before key value) ∧
      ∀ key value, (t.get key).1 = .ok value → Current store.memory run.2 key value := by
  intro start run t
  obtain ⟨hvalid, hempty⟩ := Cache.fresh_of_ofSettings built
  have hstart : Faithful store.memory (start, []) := faithful_of_empty (t := start) hvalid hempty
  have hrun : Faithful store.memory run := (keeps_faithful store.memory).performAll calls _ hstart
  have hvalid' := hrun.coherent.valid
  refine ⟨?_, fun key value held => hrun.coherent.stored held, fun hout => ?_,
    fun before event after hsplit key value hread => hrun.reads before event after hsplit hread,
    fun key value hok => hrun.current ((hrun.coherent.get key).2.2 value hok)⟩
  · intro key hkey
    rw [LawfulEngine.mem_keys hvalid', LawfulEngine.has_eq hvalid', or_self] at hkey
    exact Option.isSome_iff_exists.mp hkey
  · refine List.eq_nil_iff_forall_not_mem.mpr fun key hkey => ?_
    rw [LawfulEngine.mem_keys hvalid', hrun.coherent.emptied hout key] at hkey
    cases hkey

/-- A write that the store refuses leaves the value before it current, and that is what is read. -/
theorem faithful_of_performAll_refused :
    let store : RehearsedStore :=
      { schedule := fun count call =>
          if count = 1 ∧ call = .put then some (.io "disk full") else none }
    ∃ cache, Cache.ofSettings { capacity := 2 } = .ok cache ∧
      let run := Client.performAll (({ cache, store } : Tiers Cache RehearsedStore), [])
        [.call (.put [1] [10]), .call (.put [1] [11])]
      (run.1.get [1]).1 = .ok [10] ∧ Current store.memory run.2 [1] [10] :=
  ⟨_, rfl, rfl, (@faithful_of_performAll { capacity := 2 } _ rfl _ _).2.2.2.2 [1] [10] rfl⟩

end Tiers

end TieredStore
