import TieredStore.Proofs.Cache.Bounds

/-!
# Stale arrivals are few

The arrivals that removed entries leave behind are dropped by a removal that finds more than the
threshold. A removal that finds fewer leaves them all, and every write adds one more arrival to the
list; so the list grows past the length at which a removal would drop something. What is bounded by
that length is not the list but its stale part: a removal leaves no more than the arrivals that it
found (`stale_remove`), and a write makes no arrival stale that it does not take out
(`Valid.stale_put`).

**The law** (`stale_of_performAll`): after every sequence of calls a queue has at most twice as many
stale arrivals as its capacity, and one live arrival for each entry. No lower bound will do as long
as twice the capacity is a number of 64 bits: some sequence of calls leaves so many behind a full
queue.
-/

namespace TieredStore.ArrivalQueue

/-- The arrivals of entries that were removed, as far as they are still in the list. -/
def stale (q : ArrivalQueue) : List (Nat × Bytes) :=
  q.order.filter fun a => !isLive q.entries a

variable {q : ArrivalQueue}

theorem length_stale_le (q : ArrivalQueue) : q.stale.length ≤ q.order.length :=
  List.length_filter_le _ _

/-- Beside the stale arrivals there is one for each entry. -/
theorem Valid.length_order (h : q.Valid) : q.order.length = q.stale.length + q.listing.length := by
  have hlive : q.listing.length = (q.order.filter (isLive q.entries)).length := by
    rw [← Listing.length_keys, h.keys_listing, keys, List.length_map]
  rw [hlive, stale, Nat.add_comm]
  exact List.length_eq_length_filter_add _

/-! ## Writing -/

/-- An eviction takes one arrival away at least: the live one, and the stale ones before it. -/
theorem length_order_dropOldest {u : ArrivalQueue} (dropped : q.dropOldest = (true, u)) :
    u.order.length < q.order.length := by
  rcases splitOldest_spec q.entries q.order with
    ⟨_, hnone⟩ | ⟨stale, a, later, e, horder, _, _, _, hsplit⟩
  · simp [dropOldest, hnone] at dropped
  · simp only [dropOldest, hsplit, Prod.mk.injEq, true_and] at dropped
    subst dropped
    simp only [horder, List.length_append, List.length_cons]
    omega

/-- Evicting takes stale arrivals out with the oldest entry and makes none. -/
theorem Valid.stale_dropOldest (h : q.Valid) {first : HeldEntry} {rest : Listing}
    (hl : q.listing = first :: rest) : q.dropOldest.2.stale.length ≤ q.stale.length := by
  obtain ⟨u, hu, hvalid, hrest, _⟩ := h.dropOldest hl
  have hshorter := length_order_dropOldest hu
  have hbefore := h.length_order
  have hafter := hvalid.length_order
  rw [hl, List.length_cons] at hbefore
  rw [hrest] at hafter
  rw [hu]
  dsimp only
  omega

/-- Where the entries fit nothing is evicted. -/
theorem shrink_of_fits (fuel : Nat) (fits : q.entries.size ≤ q.capacity) :
    shrink fuel q = (false, q) := by
  cases fuel with
  | zero => rfl
  | succ fuel => rw [shrink, if_neg (Nat.not_lt_of_le fits)]

/-- Evicting makes no arrival stale: that of the evicted entry goes with it. -/
theorem Valid.stale_shrink (fuel : Nat) :
    ∀ {q : ArrivalQueue}, q.Valid →
      (ArrivalQueue.shrink fuel q).2.stale.length ≤ q.stale.length := by
  induction fuel with
  | zero => exact fun _ => Nat.le_refl _
  | succ fuel ih =>
    intro q h
    by_cases fits : q.entries.size ≤ q.capacity
    · exact Nat.le_of_eq (by rw [shrink_of_fits _ fits])
    · cases hl : q.listing with
      | nil =>
        rw [h.size_entries, hl] at fits
        exact absurd (Nat.zero_le _) fits
      | cons first rest =>
        obtain ⟨u, hu, hvalid, _⟩ := h.dropOldest hl
        have hdropped := h.stale_dropOldest hl
        rw [hu] at hdropped
        rw [ArrivalQueue.shrink, if_pos (Nat.lt_of_not_le fits), hu]
        exact Nat.le_trans (ih hvalid) hdropped

/-- An arrival leaves the stale ones as they are, those of its own key among them. -/
theorem Valid.stale_arrive (h : q.Valid) {key : Bytes} (absent : q.entries[key]? = none)
    (value : Bytes) (size : Nat) : (q.arrive key value size).stale.length = q.stale.length := by
  have hbefore := h.length_order
  have hafter := (h.arrive absent value size).length_order
  have hone : (q.arrive key value size).order.length = q.order.length + 1 := List.length_append
  rw [h.listing_arrive absent, List.length_append, List.length_singleton] at hafter
  omega

/-- So does an overwriting, whose arrival is as live as before. -/
theorem Valid.stale_overwrite (h : q.Valid) {key : Bytes} {e : ArrivalEntry}
    (he : q.entries[key]? = some e) (value : Bytes) (size : Nat) :
    (q.overwrite key e value size).stale.length = q.stale.length := by
  have hbefore := h.length_order
  have hafter := (h.overwrite he value size).length_order
  have hsame : (q.overwrite key e value size).order.length = q.order.length := rfl
  rw [h.listing_overwrite he, Listing.rewrite, List.length_map] at hafter
  omega

/-- A write makes no arrival stale, whatever it evicts. -/
theorem Valid.stale_put (h : q.Valid) (key value : Bytes) (size : Nat) :
    (q.put key value size).2.stale.length ≤ q.stale.length := by
  cases he : q.entries[key]? with
  | some e =>
    rw [put_of_present he]
    exact Nat.le_of_eq (h.stale_overwrite he value size)
  | none =>
    rw [put_of_absent he, ← h.stale_arrive he value size]
    exact Valid.stale_shrink _ (h.arrive he value size)

/-! ## Removing -/

theorem stale_dropStale (q : ArrivalQueue) : q.dropStale.stale = [] := by
  rw [stale, dropStale, List.filter_filter]
  refine List.filter_eq_nil_iff.mpr fun a _ => ?_
  rw [Bool.not_and_self]
  exact Bool.false_ne_true

/-- A removal leaves no stale arrivals, or no more than it found arrivals of any kind. -/
theorem stale_remove (key : Bytes) (few : q.stale.length ≤ q.threshold) :
    (q.remove key).stale.length ≤ q.threshold := by
  cases he : q.entries[key]? with
  | none =>
    rw [remove_of_absent he]
    exact few
  | some e =>
    rw [remove_of_present he]
    split
    · rw [stale_dropStale]
      exact Nat.zero_le _
    · next short => exact Nat.le_trans (length_stale_le _) (Nat.le_of_not_lt short)

/-! ## Every sequence of calls -/

/-- A queue between two calls, with few stale arrivals. -/
structure Tidy (q : ArrivalQueue) : Prop where
  settled : q.Settled
  few : q.stale.length ≤ q.threshold

theorem tidy_empty (capacity : Nat) : (empty capacity).Tidy where
  settled := settled_empty capacity
  few := Nat.zero_le _

/-- The bounds hold after every call. Only a removal makes an arrival stale, and it looks at the
threshold. -/
theorem Tidy.perform (h : q.Tidy) (call : CacheCall) :
    (CacheEngine.perform q call).2.Tidy where
  settled := h.settled.perform call
  few := by
    rw [threshold, h.settled.capacity_perform call]
    cases call with
    | put key value size => exact Nat.le_trans (h.settled.valid.stale_put key value size) h.few
    | remove key => exact stale_remove key h.few
    | clear => exact Nat.zero_le _
    | _ => exact h.few

/-! ## As many as there can be -/

/-- With room for another entry a write is just the arrival. -/
theorem Valid.put_of_room (h : q.Valid) {key : Bytes} (absent : q.entries[key]? = none)
    (room : q.listing.length < q.capacity) (value : Bytes) (size : Nat) :
    q.put key value size = (false, q.arrive key value size) := by
  rw [put_of_absent absent, shrink_of_fits]
  rw [(h.arrive absent value size).size_entries, h.listing_arrive absent, List.length_append]
  exact room

theorem Valid.absent_of_notMem (h : q.Valid) {key : Bytes} (notMem : key ∉ q.keys) :
    q.entries[key]? = none := by
  rw [h.indexed.mem, lookup, Option.isSome_map] at notMem
  exact Option.not_isSome_iff_eq_none.mp notMem

/-- A key written and removed, so many times. -/
def rounds (count : Nat) : List CacheCall :=
  (List.replicate count [.put [] [] 0, .remove []]).flatten

/-- With the list short enough, a key that comes and goes leaves its arrival behind. -/
theorem Settled.round (h : q.Settled) (bare : q.listing = [])
    (short : q.order.length < q.threshold) :
    let u := (q.put [] [] 0).2.remove []
    u.Settled ∧ u.listing = [] ∧ u.order.length = q.order.length + 1 ∧ u.capacity = q.capacity := by
  intro u
  have room : q.listing.length < q.capacity := by
    have hthreshold : q.threshold ≤ 2 * q.capacity := Nat.mod_le _ _
    rw [bare, List.length_nil]
    omega
  have absent : q.entries[([] : Bytes)]? = none := by
    refine h.valid.absent_of_notMem ?_
    rw [← h.valid.keys_listing, bare]
    exact List.not_mem_nil
  have hput := h.valid.put_of_room absent room [] 0
  have hhere : (q.arrive [] [] 0).entries[([] : Bytes)]? = some ⟨[], 0, q.nextSeq⟩ := by
    rw [arrive, OrderedMap.getElem?_insert, if_pos rfl]
  have hlength : (q.arrive [] [] 0).order.length = q.order.length + 1 := List.length_append
  have hthreshold : (q.arrive [] [] 0).threshold = q.threshold := rfl
  have hremove : u = (q.arrive [] [] 0).forget [] ⟨[], 0, q.nextSeq⟩ := by
    show (q.put [] [] 0).2.remove [] = _
    rw [hput, remove_of_present hhere, if_neg]
    rw [hlength, hthreshold]
    omega
  refine ⟨((h.put [] [] 0).2.1.remove []).1, ?_, ?_, ?_⟩
  · rw [hremove, ((h.valid.arrive absent [] 0).forget hhere).2, h.valid.listing_arrive absent, bare]
    rfl
  · rw [hremove]
    exact hlength
  · rw [hremove]
    rfl

/-- Each round of a write and a removal leaves one stale arrival, until the threshold is reached. -/
theorem Settled.rounds (count : Nat) :
    ∀ {q : ArrivalQueue}, q.Settled → q.listing = [] →
      q.order.length + count ≤ q.threshold →
        let u := (CacheEngine.performAll q (rounds count)).2
        u.Settled ∧ u.listing = [] ∧ u.order.length = q.order.length + count ∧
          u.capacity = q.capacity := by
  induction count with
  | zero => exact fun h bare _ => ⟨h, bare, rfl, rfl⟩
  | succ count ih =>
    intro q h bare short
    obtain ⟨hsettled, hbare, hlength, hcapacity⟩ := h.round bare (by omega)
    obtain ⟨hlast, hlastBare, hlastLength, hlastCapacity⟩ :=
      ih hsettled hbare (by rw [hlength, threshold, hcapacity, ← threshold]; omega)
    refine ⟨hlast, hlastBare, ?_, hlastCapacity.trans hcapacity⟩
    rw [hlength, Nat.add_assoc, Nat.add_comm 1] at hlastLength
    exact hlastLength

/-- With room for all of them, writes of different keys add an arrival and an entry each. -/
theorem Settled.fill (keys : List Bytes) :
    ∀ {q : ArrivalQueue}, q.Settled → keys.Nodup → (∀ key ∈ keys, key ∉ q.keys) →
      q.listing.length + keys.length ≤ q.capacity →
        let u := (CacheEngine.performAll q (keys.map fun key => .put key [] 0)).2
        u.Settled ∧ u.order.length = q.order.length + keys.length ∧
          u.listing.length = q.listing.length + keys.length := by
  induction keys with
  | nil => exact fun h _ _ _ => ⟨h, rfl, rfl⟩
  | cons key rest ih =>
    intro q h distinct fresh room
    have absent := h.valid.absent_of_notMem (fresh key List.mem_cons_self)
    have hput := h.valid.put_of_room absent (by rw [List.length_cons] at room; omega) [] 0
    have hperform : (CacheEngine.perform q (.put key [] 0)).2 = q.arrive key [] 0 :=
      congrArg Prod.snd hput
    have hsettled : (q.arrive key [] 0).Settled := hperform ▸ (h.put key [] 0).2.1
    have horder : (q.arrive key [] 0).order.length = q.order.length + 1 := List.length_append
    have hlisting : (q.arrive key [] 0).listing.length = q.listing.length + 1 := by
      rw [h.valid.listing_arrive absent, List.length_append, List.length_singleton]
    have hfresh : ∀ k ∈ rest, k ∉ (q.arrive key [] 0).keys := by
      intro k hk
      rw [h.valid.keys_arrive absent, List.mem_append, List.mem_singleton]
      rintro (hold | rfl)
      · exact fresh k (List.mem_cons_of_mem _ hk) hold
      · exact (List.nodup_cons.mp distinct).1 hk
    have hroom : (q.arrive key [] 0).listing.length + rest.length ≤ q.capacity := by
      rw [List.length_cons] at room
      omega
    obtain ⟨hlast, hlastOrder, hlastListing⟩ := ih hsettled distinct.of_cons hfresh hroom
    rw [List.map_cons, CacheEngine.performAll_cons, hperform, List.length_cons]
    dsimp only
    exact ⟨hlast, by omega, by omega⟩

/-- Keys of different lengths are different. -/
theorem nodup_fillings (count : Nat) :
    ((List.range count).map fun i => List.replicate i (0 : UInt8)).Nodup := by
  refine List.nodup_range.map fun i j h => ?_
  simpa only [List.length_replicate] using congrArg List.length h

/-- Rounds of one key, then writes of as many keys as there is room for. -/
theorem exists_calls_stale (capacity : Nat) :
    ∃ calls : List CacheCall,
      let q := (CacheEngine.performAll (empty capacity) calls).2
      q.stale.length = 2 * capacity % UInt64.size ∧
        q.order.length = 2 * capacity % UInt64.size + capacity := by
  let count := 2 * capacity % UInt64.size
  let keys : List Bytes := (List.range capacity).map fun i => List.replicate i 0
  have hkeys : keys.length = capacity := by simp [keys]
  obtain ⟨hsettled, hbare, hrounds, hcapacity⟩ :=
    (settled_empty capacity).rounds count rfl (Nat.le_of_eq (Nat.zero_add _))
  have hnothing : ∀ key ∈ keys,
      key ∉ (CacheEngine.performAll (empty capacity) (rounds count)).2.keys := by
    intro key _
    rw [← hsettled.valid.keys_listing, hbare]
    exact List.not_mem_nil
  have hroom : 0 + keys.length ≤ capacity := by omega
  obtain ⟨hlast, horder, hlisting⟩ := hsettled.fill keys (nodup_fillings capacity) hnothing
    (by rw [hbare, hcapacity]; exact hroom)
  have hlength := hlast.valid.length_order
  have hnone : (empty capacity).order.length = 0 := rfl
  rw [hbare, List.length_nil] at hlisting
  refine ⟨rounds count ++ keys.map fun key => .put key [] 0, ?_⟩
  rw [CacheEngine.performAll_append]
  dsimp only
  exact ⟨by omega, by omega⟩

/-- **Stale arrivals are few.** After every sequence of calls at most twice as many arrivals are
stale as the queue has capacity, and there is one more for each entry. Some sequence of calls leaves
just so many, as 64 bits have them, and a full queue beside them. -/
theorem stale_of_performAll (capacity : Nat) :
    (∀ calls : List CacheCall,
      let q := (CacheEngine.performAll (empty capacity) calls).2
      q.stale.length ≤ 2 * capacity ∧ q.order.length = q.stale.length + q.entries.size ∧
        q.order.length ≤ 2 * capacity + q.entries.size ∧
          2 * capacity + q.entries.size ≤ 3 * capacity) ∧
      ∃ calls : List CacheCall,
        let q := (CacheEngine.performAll (empty capacity) calls).2
        q.stale.length = 2 * capacity % UInt64.size ∧
          q.order.length = 2 * capacity % UInt64.size + capacity := by
  refine ⟨?_, exists_calls_stale capacity⟩
  intro calls q
  have htidy : q.Tidy ∧ q.capacity = capacity := by
    refine CacheEngine.performAll_keeps
      (I := fun u : ArrivalQueue => u.Tidy ∧ u.capacity = capacity)
      (fun u h call => ?_) calls _ ⟨tidy_empty capacity, rfl⟩
    exact ⟨h.1.perform call, (h.1.settled.capacity_perform call).trans h.2⟩
  obtain ⟨⟨hsettled, hfew⟩, hcapacity⟩ := htidy
  have hlength := hsettled.valid.length_order
  have hroom := hsettled.room
  rw [← hsettled.valid.size_entries] at hroom hlength
  have hthreshold : q.threshold ≤ 2 * q.capacity := Nat.mod_le _ _
  rw [hcapacity] at hthreshold hroom
  have hstale := Nat.le_trans hfew hthreshold
  exact ⟨hstale, hlength, by omega, by omega⟩

end TieredStore.ArrivalQueue
