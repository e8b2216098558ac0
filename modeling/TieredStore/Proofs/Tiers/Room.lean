import TieredStore.Proofs.Cache.LatestPut
import TieredStore.Proofs.Tiers.Client
import TieredStore.Proofs.Tiers.Coherence

/-!
# Room to count

A cache adds up the sizes that it is told when a value is written and takes them off again when the
entry goes, so its byte size is about those sizes and not about the values, and it is exact only
where the sum has room in 64 bits. Tiers always tell the length of the value, whether a client wrote
it or a read brought it in; an entry then counts for the length of its value (`Sized`).

With that, what there is to add up is no more than what is stored and the value that is being
written: a cache holds nothing but stored values, each once. The events of a run tell what is
stored at each moment (`ClientEvent.leaves`), and the run is `Roomy` if together with the value
being written that is never 2^64 bytes or more.

**The law** (`Tiers.keeps_tallied`): in a roomy run no addition leaves the 64 bits.
-/

namespace TieredStore

section Engine

variable {κ : Type} [CacheEngine κ] [LawfulEngine κ] [ListedEngine κ] {c : κ}

/-- The sizes after a call are no more than those before it and the one that it brings in. -/
theorem ListedEngine.bytes_perform_le (h : LawfulEngine.Valid c) (call : CacheCall) :
    (entries (CacheEngine.perform c call).2).bytes ≤ (entries c).bytes + call.counted := by
  have hnodup := nodup (LawfulEngine.valid_perform h call)
  cases call with
  | put key value size =>
    exact Listing.bytes_le_add hnodup fun e he =>
      List.mem_cons.mpr ((mem_put h he).imp_right And.left)
  | _ =>
    -- no other call brings an entry in
    refine Listing.bytes_le_of_subset hnodup fun e he => ?_
    rcases (of_mem_perform h _ he).2 with hwritten | ⟨_, hold⟩
    · cases hwritten
    · exact hold

/-- A cache between two calls whose entries count for the lengths of their values. -/
structure Sized (c : κ) : Prop where
  valid : LawfulEngine.Valid c
  sized : ∀ e ∈ ListedEngine.entries c, e.size = e.value.length

/-- A measured call writes no entry of another size. -/
theorem Sized.perform (h : Sized c) {call : CacheCall} (measured : call.Measured) :
    Sized (CacheEngine.perform c call).2 where
  valid := LawfulEngine.valid_perform h.valid call
  sized e he := by
    rcases (ListedEngine.of_mem_perform h.valid call he).2 with hwritten | ⟨_, hold⟩
    · rw [(CacheCall.written_eq_some_iff.mp hwritten).2] at measured
      exact measured
    · exact h.sized e hold

/-- A cache whose sizes fit the 64 bits, and in which no addition has left them. -/
structure Unwrapped (c : κ) : Prop where
  sized : Sized c
  exact : ListedEngine.wrapped c = false
  fits : (ListedEngine.entries c).bytes < UInt64.size

/-- A call for which there is room leaves the sizes within the 64 bits. -/
theorem Unwrapped.perform (h : Unwrapped c) (call : CacheCall) (measured : call.Measured)
    (room : (ListedEngine.entries c).bytes + call.counted < UInt64.size) :
    Unwrapped (CacheEngine.perform c call).2 where
  sized := h.sized.perform measured
  exact := ListedEngine.wrapped_perform h.sized.valid h.exact call room
  fits := Nat.lt_of_le_of_lt (ListedEngine.bytes_perform_le h.sized.valid call) room

end Engine

namespace Cache

variable {settings : CacheSettings} {c : Cache}

/-- A new cache has no entries that could be of another size. -/
theorem sized_of_ofSettings (built : ofSettings settings = .ok c) : Sized c where
  valid := (fresh_of_ofSettings built).1
  sized e he := by
    rw [(listed_of_ofSettings built).2] at he
    cases he

/-- And it has added up nothing. -/
theorem unwrapped_of_ofSettings (built : ofSettings settings = .ok c) : Unwrapped c where
  sized := sized_of_ofSettings built
  exact := by
    cases c with
    | lru c => rfl
    | fifo c =>
      have hvalid : c.Valid := (fresh_of_ofSettings built).1
      refine hvalid.wrapped_iff.mpr ⟨fun q hq => ?_, ?_⟩
      · rw [(ShardedCache.build_eq_ok (build_of_ofSettings built)).2.2] at hq
        rw [List.eq_of_mem_replicate hq]
        rfl
      · rw [show c.entries = [] from (listed_of_ofSettings built).2]
        decide
  fits := by
    rw [(listed_of_ofSettings built).2]
    decide

end Cache

/-! ## What is stored -/

/-- Stored pairs as entries that count for the lengths of their values. -/
def measured (pairs : Std.TreeMap Bytes Bytes) : Listing :=
  pairs.toList.map fun p => ⟨p.1, p.2, p.2.length⟩

theorem mem_measured {pairs : Std.TreeMap Bytes Bytes} {e : HeldEntry}
    (stored : pairs[e.key]? = some e.value) (sized : e.size = e.value.length) :
    e ∈ measured pairs := by
  refine List.mem_map.mpr ⟨(e.key, e.value), OrderedMap.mem_toList.mpr stored, ?_⟩
  rw [← sized]

/-- The bytes that a call gives the tiers to write. -/
def StorerCall.counted : StorerCall → Nat
  | put _ value => value.length
  | putInEpoch _ value _ => value.length
  | _ => 0

/-- What a call that is carried out leaves of what is stored. -/
def StorerCall.leaves (pairs : Std.TreeMap Bytes Bytes) : StorerCall → Std.TreeMap Bytes Bytes
  | put key value => pairs.insert key value
  | putInEpoch key value _ => pairs.insert key value
  | remove key => pairs.erase key
  | removeFromCurrentEpoch key => pairs.erase key
  | destroy => ∅
  | _ => pairs

namespace ClientEvent

/-- The bytes that were being written. -/
def counted : ClientEvent → Nat
  | answered call _ => call.counted
  | visited _ => 0

/-- What is stored after an event, by what was stored before it. -/
def leaves (pairs : Std.TreeMap Bytes Bytes) : ClientEvent → Std.TreeMap Bytes Bytes
  | answered call (.done (.ok _)) => call.leaves pairs
  | _ => pairs

/-- A memory that a call changed if it succeeded, and left alone if it failed. -/
theorem leaves_done {call : StorerCall} {outcome : Except Failure Unit}
    {before after changed : MemoryStore}
    (h : (∃ failure, outcome = .error failure) ∧ after = before ∨
      outcome = .ok () ∧ after = changed)
    (done : changed.pairs = call.leaves before.pairs) :
    after.pairs = (answered call (.done outcome)).leaves before.pairs := by
  rcases h with ⟨⟨_, rfl⟩, rfl⟩ | ⟨rfl, rfl⟩
  · rfl
  · exact done

/-- A call that leaves what is stored as it is does so whatever comes of it. -/
theorem leaves_idle {pairs : Std.TreeMap Bytes Bytes} (call : StorerCall)
    (idle : call.leaves pairs = pairs) (outcome : Except Failure Unit) :
    (answered call (.done outcome)).leaves pairs = pairs := by
  cases outcome with
  | ok _ => exact idle
  | error _ => rfl

end ClientEvent

/-- What is stored and what is being written never come to 2^64 bytes together. -/
def Roomy (pairs : Std.TreeMap Bytes Bytes) : List ClientEvent → Prop
  | [] => True
  | event :: rest =>
    (measured pairs).bytes + event.counted < UInt64.size ∧ Roomy (event.leaves pairs) rest

instance decidableRoomy :
    (pairs : Std.TreeMap Bytes Bytes) → (events : List ClientEvent) → Decidable (Roomy pairs events)
  | _, [] => inferInstanceAs (Decidable True)
  | pairs, event :: rest =>
    have := decidableRoomy (event.leaves pairs) rest
    inferInstanceAs (Decidable ((measured pairs).bytes + event.counted < UInt64.size ∧ _))

/-- A run is roomy if it was so far and there is room for what comes last. -/
theorem roomy_concat {pairs : Std.TreeMap Bytes Bytes} {events : List ClientEvent}
    {event : ClientEvent} :
    Roomy pairs (events ++ [event]) ↔
      Roomy pairs events ∧
        (measured (events.foldl ClientEvent.leaves pairs)).bytes + event.counted <
          UInt64.size := by
  induction events generalizing pairs with
  | nil => exact ⟨fun h => ⟨trivial, h.1⟩, fun h => ⟨h.2, trivial⟩⟩
  | cons first rest ih => rw [List.cons_append, Roomy, Roomy, ih, List.foldl_cons, and_assoc]

namespace Tiers

variable {κ σ : Type} [CacheEngine κ] [LawfulEngine κ] [BackingStore σ] [MemoryLike σ]
  {t : Tiers κ σ}

/-- A call changes what is stored as its event tells. -/
theorem Coherent.answer (h : t.Coherent) (call : StorerCall) :
    (Storer.answer t call).2.Coherent ∧
      (Storer.answer t call).2.memory.pairs =
        (ClientEvent.answered call (Storer.answer t call).1).leaves t.memory.pairs := by
  cases call with
  | put key value | putInEpoch key value _ =>
    obtain ⟨hnext, hput⟩ := h.put key value
    exact ⟨hnext, ClientEvent.leaves_done hput rfl⟩
  | remove key | removeFromCurrentEpoch key =>
    obtain ⟨hnext, hremove⟩ := h.remove key
    exact ⟨hnext, ClientEvent.leaves_done hremove rfl⟩
  | get key | getFromEpoch key _ | searchFirst key =>
    obtain ⟨hnext, hsame, _⟩ := h.get key
    exact ⟨hnext, congrArg MemoryStore.pairs hsame⟩
  | getManyFromEpoch keys _ =>
    obtain ⟨hnext, hsame, _⟩ := Coherent.getMany keys t h
    exact ⟨hnext, congrArg MemoryStore.pairs hsame⟩
  | has key =>
    obtain ⟨hnext, hsame⟩ := h.has key
    have hpairs : (t.has key).2.memory.pairs = t.memory.pairs := congrArg MemoryStore.pairs hsame
    exact ⟨hnext, hpairs.trans (ClientEvent.leaves_idle (.has key) rfl (t.has key).1).symm⟩
  | clearCache => exact ⟨h.clearCache, rfl⟩
  | oldestEpoch => exact ⟨h, rfl⟩
  | close =>
    obtain ⟨hnext, hclose⟩ := h.close
    have hpairs : t.close.2.memory.pairs = t.memory.pairs := by
      rcases hclose with hsame | hclosed
      · rw [hsame]
      · rw [hclosed]
        rfl
    exact ⟨hnext, hpairs.trans (ClientEvent.leaves_idle .close rfl t.close.1).symm⟩
  | destroy =>
    obtain ⟨hnext, hdestroy⟩ := h.destroy
    exact ⟨hnext, ClientEvent.leaves_done hdestroy rfl⟩

variable [ListedEngine κ]

/-- Every entry of a coherent cache is stored. -/
theorem Coherent.stored_entries (h : t.Coherent) {e : HeldEntry}
    (he : e ∈ ListedEngine.entries t.cache) : t.memory.pairs[e.key]? = some e.value := by
  apply h.stored
  rw [ListedEngine.peek_eq h.valid, Listing.value_eq_some (ListedEngine.nodup h.valid)]
  exact ⟨e.size, he⟩

/-! ## What a cache has to add up -/

/-- The entries count for no more than what is stored. -/
theorem Coherent.bytes_le (h : t.Coherent) (sized : Sized t.cache) :
    (ListedEngine.entries t.cache).bytes ≤ (measured t.memory.pairs).bytes :=
  Listing.bytes_le_of_subset (ListedEngine.nodup h.valid) fun e he =>
    mem_measured (h.stored_entries he) (sized.sized e he)

/-- Nor do they with a stored value that they lack. -/
theorem Coherent.bytes_missed (h : t.Coherent) (sized : Sized t.cache) {key value : Bytes}
    (miss : CacheEngine.peek t.cache key = none) (stored : t.memory.pairs[key]? = some value) :
    (ListedEngine.entries t.cache).bytes + value.length ≤ (measured t.memory.pairs).bytes := by
  have absent : key ∉ (ListedEngine.entries t.cache).keys := by
    rw [Listing.mem_keys_iff, ← ListedEngine.peek_eq h.valid, miss]
    exact Bool.false_ne_true
  have hnodup : (Listing.keys (⟨key, value, value.length⟩ :: ListedEngine.entries t.cache)).Nodup :=
    List.nodup_cons.mpr ⟨absent, ListedEngine.nodup h.valid⟩
  have hle := Listing.bytes_le_of_subset hnodup (m := measured t.memory.pairs) ?_
  · rw [Listing.bytes, Nat.add_comm] at hle
    exact hle
  · intro e he
    rcases List.mem_cons.mp he with rfl | he
    · exact mem_measured stored rfl
    · exact mem_measured (h.stored_entries he) (sized.sized e he)

/-- Asking brings nothing in. -/
theorem Unwrapped.asked {c : κ} (h : Unwrapped c) (key : Bytes) : Unwrapped (asked c key) := by
  have hfirst : Unwrapped (CacheEngine.get c key).2 := h.perform (.get key) trivial h.fits
  exact hfirst.perform (.get key) trivial hfirst.fits

/-- A write adds its value to what was stored, also if it is refused and taken back. -/
theorem unwrapped_put (h : t.Coherent) (exact : Unwrapped t.cache) (key value : Bytes)
    (room : (measured t.memory.pairs).bytes + value.length < UInt64.size) :
    Unwrapped (t.put key value).2.cache := by
  have hroom := Nat.lt_of_le_of_lt (Nat.add_le_add_right (h.bytes_le exact.sized) value.length) room
  have hput : Unwrapped (CacheEngine.put t.cache key value value.length).2 :=
    exact.perform (.put key value value.length) rfl hroom
  cases hgone : t.destroyed with
  | true =>
    rw [put_destroyed hgone]
    exact exact
  | false =>
    cases hcall : (BackingStore.put t.store key value).1 with
    | ok _ =>
      rw [put_stored hgone hcall]
      exact hput
    | error failure =>
      rw [put_refused hgone hcall]
      exact hput.perform (.remove key) trivial hput.fits

/-- What a read brings in is stored, and the cache lacks it. -/
theorem unwrapped_get (h : t.Coherent) (exact : Unwrapped t.cache) (key : Bytes)
    (room : (measured t.memory.pairs).bytes < UInt64.size) :
    Unwrapped (t.get key).2.cache := by
  cases hgone : t.destroyed with
  | true =>
    rw [get_destroyed hgone]
    exact exact
  | false =>
    cases hpeek : CacheEngine.peek t.cache key with
    | some found =>
      rw [get_hit hgone h.valid hpeek]
      exact exact.perform (.get key) trivial exact.fits
    | none =>
      have hasked := Unwrapped.asked exact key
      rcases (MemoryLike.get_cases t.store key).2 with
        ⟨failure, hfailed⟩ | ⟨value, hfound, _, hstored⟩
      · rw [get_failed hgone h.valid hpeek hfailed]
        exact hasked
      · have hnext : ({ t with cache := asked t.cache key } : Tiers κ σ).Coherent :=
          h.of_lost (valid_asked h.valid key)
            (fun held => (peek_asked h.valid key _).symm.trans held) rfl rfl
        have hmissed := hnext.bytes_missed hasked.sized
          ((peek_asked h.valid key key).trans hpeek) hstored
        rw [get_found hgone h.valid hpeek hfound]
        exact hasked.perform (.put key value value.length) rfl
          (Nat.lt_of_le_of_lt hmissed room)

/-- By induction on the keys; the reads change nothing of what is stored, so the room stays. -/
theorem unwrapped_getMany (keys : List Bytes) :
    ∀ t : Tiers κ σ, t.Coherent → Unwrapped t.cache →
      (measured t.memory.pairs).bytes < UInt64.size → Unwrapped (t.getMany keys).2.cache := by
  induction keys with
  | nil => exact fun _ _ exact _ => exact
  | cons key rest ih =>
    intro t h exact room
    obtain ⟨hnext, hsame, _⟩ := h.get key
    have hget := unwrapped_get h exact key room
    have hrest := ih _ hnext hget (by rw [hsame]; exact room)
    rw [getMany]
    split
    · next heq => rw [heq] at hrest; exact hrest
    · next heq => rw [heq] at hrest; exact hrest

omit [MemoryLike σ] in
theorem unwrapped_remove (exact : Unwrapped t.cache) (key : Bytes) :
    Unwrapped (t.remove key).2.cache := by
  cases hgone : t.destroyed with
  | true =>
    rw [remove_destroyed hgone]
    exact exact
  | false =>
    rw [remove_eq hgone]
    exact exact.perform (.remove key) trivial exact.fits

omit [MemoryLike σ] in
theorem unwrapped_destroy (exact : Unwrapped t.cache) : Unwrapped t.destroy.2.cache := by
  have hclear : Unwrapped (CacheEngine.clear t.cache) :=
    exact.perform .clear trivial exact.fits
  cases hgone : t.destroyed with
  | true =>
    rw [destroy_destroyed hgone]
    exact exact
  | false =>
    cases hcall : (BackingStore.destroy t.store).1 with
    | ok _ =>
      rw [destroy_done hgone hcall]
      exact hclear
    | error failure =>
      rw [destroy_refused hgone hcall]
      exact hclear

/-- No call wraps if there is room for what is stored and what it writes. -/
theorem unwrapped_answer (h : t.Coherent) (exact : Unwrapped t.cache) (call : StorerCall)
    (room : (measured t.memory.pairs).bytes + call.counted < UInt64.size) :
    Unwrapped (Storer.answer t call).2.cache := by
  have hclear : Unwrapped (CacheEngine.clear t.cache) :=
    exact.perform .clear trivial exact.fits
  cases call with
  | put key value => exact unwrapped_put h exact key value room
  | putInEpoch key value _ => exact unwrapped_put h exact key value room
  | get key => exact unwrapped_get h exact key room
  | getFromEpoch key _ => exact unwrapped_get h exact key room
  | searchFirst key => exact unwrapped_get h exact key room
  | getManyFromEpoch keys _ => exact unwrapped_getMany keys t h exact room
  | has key =>
    show Unwrapped (t.has key).2.cache
    rw [cache_has]
    exact exact
  | remove key => exact unwrapped_remove exact key
  | removeFromCurrentEpoch key => exact unwrapped_remove exact key
  | clearCache => exact hclear
  | oldestEpoch => exact exact
  | close => exact hclear
  | destroy => exact unwrapped_destroy exact

/-- What holds between two calls of a run that began with some pairs stored. -/
structure Tallied (pairs : Std.TreeMap Bytes Bytes) (run : Tiers κ σ × List ClientEvent) :
    Prop where
  coherent : run.1.Coherent
  stored : run.1.memory.pairs = run.2.foldl ClientEvent.leaves pairs
  exact : Roomy pairs run.2 → Unwrapped run.1.cache

/-- Whatever a client does, nothing wraps as long as its run is roomy. -/
theorem keeps_tallied (pairs : Std.TreeMap Bytes Bytes) :
    Storer.Keeps (Tallied pairs : Tiers κ σ × List ClientEvent → Prop) where
  answer {t events} h call := by
    obtain ⟨hnext, hleft⟩ := h.coherent.answer call
    refine ⟨hnext, ?_, fun hroomy => ?_⟩
    · rw [List.foldl_concat, ← h.stored]
      exact hleft
    · obtain ⟨hbefore, hroom⟩ := roomy_concat.mp hroomy
      rw [← h.stored] at hroom
      exact unwrapped_answer h.coherent (h.exact hbefore) call hroom
  visited h pair := by
    refine ⟨h.coherent, ?_, fun hroomy => h.exact (roomy_concat.mp hroomy).1⟩
    rw [List.foldl_concat]
    exact h.stored
  walk {t events} h visit step := by
    show Tallied pairs (t.walk visit events)
    cases hgone : t.destroyed with
    | true =>
      rw [walk_destroyed hgone]
      exact h
    | false =>
      obtain ⟨hcoherent, hsame⟩ := h.coherent.snapshot
      have hstored := (congrArg MemoryStore.pairs hsame).trans h.stored
      rw [walk_eq hgone]
      exact visitWhile_keeps step _ _ ⟨hcoherent, hstored, h.exact⟩

/-- New tiers have added up nothing yet. -/
theorem tallied_of_ofSettings {settings : CacheSettings} {cache : Cache}
    (built : Cache.ofSettings settings = .ok cache) (store : σ) :
    Tallied (MemoryLike.memory store).pairs (({ cache, store } : Tiers Cache σ), []) where
  coherent :=
    coherent_of_empty (Cache.fresh_of_ofSettings built).1 (Cache.fresh_of_ofSettings built).2
  stored := rfl
  exact _ := Cache.unwrapped_of_ofSettings built

end Tiers

end TieredStore
