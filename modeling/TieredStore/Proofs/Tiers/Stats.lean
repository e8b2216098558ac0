import TieredStore.Proofs.Tiers.Room

/-!
# The statistics are exact

The byte size of a cache is about the sizes that it was told, and behind tiers an entry counts for
the length of its value (`Sized`). What the value is, coherence tells: it is the one that is stored.

**The law** (`Tiers.stats_of_performAll`): in front of any store that is memory when it does not
fail, the statistics give the number of cached keys and the bytes that are stored under them, after
every run of a client; and nothing once the cache is cleared, or the store closed or destroyed,
whatever the store answers. The bytes are added up in 64 bits. They are never too many, and they are
too few only if an addition has left those bits, for which 2^64 bytes have to be stored or written
at one moment of the run (`Roomy`).
-/

namespace TieredStore

/-- The bytes of the values stored under some keys. -/
def MemoryStore.bytesUnder (m : MemoryStore) : List Bytes → Nat
  | [] => 0
  | key :: rest => m.pairs[key]?.elim 0 List.length + m.bytesUnder rest

/-- Entries that are stored and count for the lengths of their values. -/
theorem MemoryStore.bytesUnder_keys (m : MemoryStore) {l : Listing}
    (stored : ∀ e ∈ l, m.pairs[e.key]? = some e.value)
    (sized : ∀ e ∈ l, e.size = e.value.length) : m.bytesUnder l.keys = l.bytes := by
  induction l with
  | nil => rfl
  | cons e rest ih =>
    have hrest := ih (fun f hf => stored f (List.mem_cons_of_mem e hf))
      fun f hf => sized f (List.mem_cons_of_mem e hf)
    show m.pairs[e.key]?.elim 0 List.length + m.bytesUnder (Listing.keys rest) = _
    rw [hrest, stored e List.mem_cons_self, Listing.bytes, sized e List.mem_cons_self]
    rfl

namespace Tiers

section Stats

variable {κ σ : Type} [CacheEngine κ] [LawfulEngine κ] [BackingStore σ] {t : Tiers κ σ}

/-- The calls that empty the cache. -/
def clearing : List StorerCall := [.clearCache, .close, .destroy]

variable [MemoryLike σ]

/-- They do so whatever the store answers; and where destruction is turned away, the cache is
empty already. -/
theorem Coherent.peek_clearing (h : t.Coherent) {call : StorerCall} (clears : call ∈ clearing)
    (key : Bytes) : CacheEngine.peek (Storer.answer t call).2.cache key = none := by
  have hclear := LawfulEngine.peek_clear h.valid key
  simp only [clearing, List.mem_cons, List.not_mem_nil, or_false] at clears
  rcases clears with rfl | rfl | rfl
  · exact hclear
  · exact hclear
  · show CacheEngine.peek t.destroy.2.cache key = none
    cases hgone : t.destroyed with
    | true =>
      rw [destroy_destroyed hgone]
      exact h.emptied (.inr hgone) key
    | false =>
      cases hstore : (BackingStore.destroy t.store).1 with
      | ok _ =>
        rw [destroy_done hgone hstore]
        exact hclear
      | error failure =>
        rw [destroy_refused hgone hstore]
        exact hclear

variable [ListedEngine κ]

/-- What is counted, key by key. -/
theorem Coherent.stats_eq (h : t.Coherent) (sized : Sized t.cache) :
    t.cachedKeys.Nodup ∧ t.stats.entries = t.cachedKeys.length ∧
      (∀ key ∈ t.cachedKeys, ∃ value, t.memory.pairs[key]? = some value) ∧
      t.stats.bytes ≤ t.memory.bytesUnder t.cachedKeys ∧
      (ListedEngine.wrapped t.cache = false →
        t.stats.bytes = t.memory.bytesUnder t.cachedKeys) := by
  have hkeys : t.cachedKeys = (ListedEngine.entries t.cache).keys := ListedEngine.keys_eq h.valid
  have hbytes : t.memory.bytesUnder t.cachedKeys = (ListedEngine.entries t.cache).bytes := by
    rw [hkeys]
    exact t.memory.bytesUnder_keys (fun e he => h.stored_entries he) sized.sized
  rw [hbytes, hkeys]
  refine ⟨ListedEngine.nodup h.valid, ?_, ?_, ListedEngine.byteSize_le h.valid,
    ListedEngine.byteSize_eq h.valid⟩
  · rw [stats, ListedEngine.size_eq h.valid, Listing.length_keys]
  · intro key hkey
    obtain ⟨e, he, rfl⟩ := List.mem_map.mp hkey
    exact ⟨e.value, h.stored_entries he⟩

end Stats

/-- **The statistics are exact.** Take the tiers that any calls have left of a new cache of any
settings in front of any store, whichever calls the store has failed. The cached keys are distinct
and as many as the statistics say, something is stored under each, and the bytes are those of the
values stored under them, if no addition has left 64 bits; and none has if there were never as many
bytes to store. Once the cache is cleared, or the store closed or destroyed, with or without
success, both numbers are zero. -/
theorem stats_of_performAll {settings : CacheSettings} {cache : Cache}
    (built : Cache.ofSettings settings = .ok cache) {σ : Type} [BackingStore σ] [MemoryLike σ]
    (store : σ) (calls : List ClientCall) :
    let run := Client.performAll (({ cache, store } : Tiers Cache σ), []) calls
    let t := run.1
    t.cachedKeys.Nodup ∧ t.stats.entries = t.cachedKeys.length ∧
      (∀ key ∈ t.cachedKeys, ∃ value, t.memory.pairs[key]? = some value) ∧
      t.stats.bytes ≤ t.memory.bytesUnder t.cachedKeys ∧
      (ListedEngine.wrapped t.cache = false ∨ Roomy (MemoryLike.memory store).pairs run.2 →
        t.stats.bytes = t.memory.bytesUnder t.cachedKeys) ∧
      ∀ call ∈ clearing, (Storer.answer t call).2.stats.entries = 0 ∧
        (Storer.answer t call).2.stats.bytes = 0 := by
  intro run t
  have hstep : ∀ c : Cache, Sized c → ∀ call : CacheCall, call.Measured →
      Sized (CacheEngine.perform c call).2 := fun c h call measured => h.perform measured
  have hsized : Sized t.cache :=
    (keeps_measured hstep).performAll calls (({ cache, store } : Tiers Cache σ), [])
      (Cache.sized_of_ofSettings built)
  have hrun : Tallied (MemoryLike.memory store).pairs run :=
    (keeps_tallied _).performAll calls _ (tallied_of_ofSettings built store)
  obtain ⟨hnodup, hentries, hstored, hmost, hbytes⟩ := hrun.coherent.stats_eq hsized
  refine ⟨hnodup, hentries, hstored, hmost, fun hexact => hbytes ?_, fun call hcall => ?_⟩
  · rcases hexact with hexact | hroomy
    · exact hexact
    · exact (hrun.exact hroomy).exact
  · have hvalid : LawfulEngine.Valid (Storer.answer t call).2.cache :=
      (cache_answer hstep hsized call).valid
    exact (ListedEngine.of_empty hvalid (hrun.coherent.peek_clearing hcall)).2.2

/-- A value is written over by a shorter one, a write is refused and taken back, and one that was
evicted for it is brought in again; then a closing fails. -/
theorem stats_of_performAll_refilled :
    let store : RehearsedStore :=
      { schedule := fun count call =>
          if call = .close ∨ call = .put ∧ count = 3 then some (.io "disk full") else none }
    ∃ cache, Cache.ofSettings { kind := .sharded, capacity := 2 } = .ok cache ∧
      let t := (Client.performAll (({ cache, store } : Tiers Cache RehearsedStore), [])
        [.call (.put [1] [10, 11, 12]), .call (.put [2] [20, 21]), .call (.put [2] [22]),
          .call (.put [3] [30]), .call (.get [1])]).1
      t.stats.entries = 2 ∧ t.stats.bytes = t.memory.bytesUnder t.cachedKeys ∧
        t.memory.bytesUnder t.cachedKeys = 4 ∧
        t.close.1 = .error (.io "disk full") ∧
        (Storer.answer t .close).2.stats.bytes = 0 := by
  intro store
  have h := @stats_of_performAll { kind := .sharded, capacity := 2 } _ rfl _ _ _ store
    [.call (.put [1] [10, 11, 12]), .call (.put [2] [20, 21]), .call (.put [2] [22]),
      .call (.put [3] [30]), .call (.get [1])]
  refine ⟨_, rfl, ?_, h.2.2.2.2.1 (.inr (by decide +kernel)), ?_, ?_,
    (h.2.2.2.2.2 .close (by decide)).2⟩
  · decide +kernel
  · decide +kernel
  · decide +kernel

end Tiers

end TieredStore
