import TieredStore.Proofs.Cache.Evictions
import TieredStore.Proofs.Cache.StaleArrivals

/-!
# Each entry has one live arrival

The arrivals of an arrival queue and its entries disagree on purpose: a removed entry leaves its
arrival behind, and a key that comes and goes leaves several. Whether an arrival is live is asked
anew each time that one is popped, listed or kept, and nothing would fail if the answers did not fit
together. A subtraction from the counter stops at zero, and the evictions after a write stop where
no arrival is live.

**The law** (`one_live_arrival`): after every sequence of calls the numbers of the arrivals ascend
and are past, every entry has its number in one arrival, and the counter shows the sum of the sizes
unless it has wrapped. So the live keys are the keys held, once each, whether or not the stale
arrivals are dropped; an eviction takes out the entry with the least number (`DropsFirst`); no
subtraction stops at zero before the counter has wrapped; and the evictions after a write end where
the entries fit the capacity and nowhere else (`Evictions`).
-/

namespace TieredStore.ArrivalQueue

/-- The entries, in the order of their keys. -/
def held (q : ArrivalQueue) : Listing :=
  q.entries.toList.map fun p => ⟨p.1, p.2.value, p.2.size⟩

/-- Whether there are more entries than the capacity. -/
def overfull (q : ArrivalQueue) : Bool := q.capacity < q.entries.size

/-- An entry that has one arrival in the list, and whose size comes off the counter whole unless that
has wrapped. -/
structure Accounted (q : ArrivalQueue) (key : Bytes) (e : ArrivalEntry) : Prop where
  once : q.order.count (e.seq, key) = 1
  past : e.seq < q.nextSeq
  removed : q.byteSize.wrapped = false →
    (q.remove key).byteSize.read + e.size = q.byteSize.read
  overwritten : ∀ value size, (q.put key value size).2.byteSize.wrapped = false →
    (q.put key value size).2.byteSize.read + e.size = q.byteSize.read + size

/-- An eviction that takes out the entry with the least number, and its size off the counter, whole
unless that has wrapped. -/
structure DropsFirst (q : ArrivalQueue) (key : Bytes) (e : ArrivalEntry) (u : ArrivalQueue) :
    Prop where
  dropped : q.dropOldest = (true, u)
  found : q.entries[key]? = some e
  least : ∀ (k : Bytes) (e' : ArrivalEntry), q.entries[k]? = some e' → k ≠ key → e.seq < e'.seq
  entries : ∀ k : Bytes, u.entries[k]? = if key = k then none else q.entries[k]?
  byteSize : q.byteSize.wrapped = false → u.byteSize.read + e.size = q.byteSize.read

variable {q : ArrivalQueue}

/-! ## What the calls find -/

/-- The sum is that of the entries, in whichever order they are added up. -/
theorem Valid.bytes_held (h : q.Valid) : q.byteSize.Counts (Listing.bytes q.held) := by
  rw [show Listing.bytes q.held = _ from Listing.bytes_perm (Listing.perm_toList h.indexed)]
  exact h.bytes

/-- What a removal takes off is in the sum, so the subtraction does not stop at zero. -/
theorem Valid.byteSize_forget (h : q.Valid) {key : Bytes} {e : ArrivalEntry}
    (he : q.entries[key]? = some e) (exact : q.byteSize.wrapped = false) :
    (q.forget key e).byteSize.read + e.size = q.byteSize.read := by
  obtain ⟨hvalid, hlisting⟩ := h.forget he
  rw [hvalid.bytes.read_eq exact, hlisting, h.bytes.read_eq exact]
  exact (Listing.bytes_without h.nodup (h.find_of_present he)).symm

/-- No arrival is in the list twice, since the numbers ascend. -/
theorem Valid.nodup_order (h : q.Valid) : q.order.Nodup := by
  refine h.ascending.imp ?_
  rintro a _ hlt rfl
  exact Nat.lt_irrefl _ hlt

/-- The same for each of the changes that take off the size of an entry. -/
theorem Valid.accounted (h : q.Valid) {key : Bytes} {e : ArrivalEntry}
    (he : q.entries[key]? = some e) : q.Accounted key e where
  once := List.count_eq_one_of_mem h.nodup_order (h.arrived key e he)
  past := h.past _ (h.arrived key e he)
  removed := by
    rw [remove_of_present he]
    split <;> exact h.byteSize_forget he
  overwritten value size exact := by
    rw [put_of_present he] at exact ⊢
    have hadded : ((q.forget key e).byteSize.add size).wrapped = false := exact
    obtain ⟨hexact, hfits⟩ := Counter.wrapped_add.mp hadded
    show ((q.forget key e).byteSize.add size).read + e.size = _
    rw [Counter.read_add, Nat.mod_eq_of_lt hfits, Nat.add_right_comm, h.byteSize_forget he hexact]

/-- The live keys are the keys held, once each. -/
theorem Valid.count_keys (h : q.Valid) (key : Bytes) :
    q.keys.count key = if q.has key then 1 else 0 := by
  have hmem : key ∈ q.keys ↔ q.has key = true := by
    rw [h.indexed.mem, lookup, Option.isSome_map, has, Std.TreeMap.contains_eq_isSome_getElem?]
  rw [h.indexed.nodup.count]
  simp only [hmem]

/-- A removal takes its key out of the live ones, whether or not stale arrivals are dropped with it.
-/
theorem Valid.keys_remove (h : q.Valid) (key : Bytes) :
    (q.remove key).keys = q.keys.filter fun k => k ≠ key := by
  obtain ⟨hvalid, hlisting⟩ := h.remove key
  rw [← hvalid.keys_listing, hlisting, Listing.keys_without, h.keys_listing]

/-- Dropping the stale arrivals leaves one for each entry. -/
theorem Valid.length_dropStale (h : q.Valid) : q.dropStale.order.length = q.entries.size := by
  obtain ⟨hvalid, hlisting⟩ := h.dropStale
  rw [hvalid.length_order, stale_dropStale, hlisting, h.size_entries, List.length_nil, Nat.zero_add]

/-! ## Evictions -/

/-- There is nothing to evict from a queue without entries. -/
theorem Valid.dropOldest_nil (h : q.Valid) (hl : q.listing = []) : q.dropOldest.1 = false := by
  rcases splitOldest_spec q.entries q.order with ⟨_, hnone⟩ | ⟨_, a, _, e, _, _, he, _, _⟩
  · simp only [ArrivalQueue.dropOldest, hnone]
  · -- a live arrival has an entry
    have hfind := h.find_of_present he
    rw [hl] at hfind
    cases hfind

/-- An eviction keeps the queue valid and leaves one entry less at least. -/
theorem Valid.of_dropOldest (h : q.Valid) {u : ArrivalQueue} (dropped : q.dropOldest = (true, u)) :
    u.Valid ∧ u.listing.length < q.listing.length := by
  cases hl : q.listing with
  | nil =>
    have hnone := h.dropOldest_nil hl
    rw [dropped] at hnone
    cases hnone
  | cons first rest =>
    obtain ⟨v, hv, hvalid, hrest, _⟩ := h.dropOldest hl
    cases dropped.symm.trans hv
    exact ⟨hvalid, hrest ▸ Nat.lt_succ_self _⟩

/-- The first live arrival has the least number of all entries: what comes before it is stale, and
what comes after it is later. -/
theorem Valid.exists_dropsFirst (h : q.Valid) (holds : q.entries.size ≠ 0) :
    ∃ key e u, q.DropsFirst key e u := by
  rcases splitOldest_spec q.entries q.order with
    ⟨hdead, _⟩ | ⟨stale, a, later, e, horder, hdead, he, hseq, hsplit⟩
  · have hkeys : q.keys = [] := by rw [keys, filter_dead hdead]; rfl
    rw [h.size_entries, ← Listing.length_keys, h.keys_listing, hkeys] at holds
    exact absurd rfl holds
  · have hascending := h.ascending
    rw [horder] at hascending
    refine ⟨a.2, e, { q.forget a.2 e with order := later }, ⟨?_, he, ?_, ?_, h.byteSize_forget he⟩⟩
    · simp only [ArrivalQueue.dropOldest, hsplit]
      rfl
    · intro k e' he' hne
      have hlive : isLive q.entries (e'.seq, k) = true := isLive_iff.mpr ⟨e', he', rfl⟩
      have hmem : (e'.seq, k) ∈ stale ++ a :: later := horder ▸ h.arrived k e' he'
      rcases List.mem_append.mp hmem with hstale | hrest
      · rw [hdead _ hstale] at hlive
        cases hlive
      · rcases List.mem_cons.mp hrest with hfirst | hlater
        · exact absurd (congrArg Prod.snd hfirst) hne
        · rw [hseq]
          exact (List.pairwise_cons.mp (List.pairwise_append.mp hascending).2.1).1 _ hlater
    · exact OrderedMap.getElem?_erase q.entries a.2

/-- The evictions that are made while there are too many entries are those of the run, if they are
allowed. -/
theorem shrink_of_evictions {evicts : ArrivalQueue → ArrivalQueue → Prop}
    (drops : ∀ {q u}, evicts q u → q.dropOldest = (true, u)) {u : ArrivalQueue} {n : Nat}
    (run : Evictions overfull evicts q n u) :
    ∀ fuel, n ≤ fuel → shrink fuel q = (decide (0 < n), u) := by
  induction run with
  | done within =>
    intro fuel _
    exact shrink_of_fits fuel (Nat.le_of_not_lt (of_decide_eq_false within))
  | next beyond evicted _ ih =>
    intro fuel hfuel
    cases fuel with
    | zero => exact absurd hfuel (Nat.not_succ_le_zero _)
    | succ fuel =>
      rw [shrink, if_pos (of_decide_eq_true beyond), drops evicted]
      dsimp only
      rw [ih fuel (Nat.le_of_succ_le_succ hfuel), decide_eq_true (Nat.succ_pos _)]

/-- A write to an absent key is followed by evictions that each take out the entry with the least
number, until the entries fit. -/
theorem Valid.put_evictions (h : q.Valid) {key : Bytes} (absent : q.entries[key]? = none)
    (value : Bytes) (size : Nat) :
    ∃ n u, q.put key value size = (decide (0 < n), u) ∧
      Evictions overfull (fun q u => ∃ key e, q.DropsFirst key e u) (q.arrive key value size) n u := by
  have hvalid := h.arrive absent value size
  have step : ∀ q : ArrivalQueue, q.Valid → q.overfull = true →
      ∃ u, (∃ key e, q.DropsFirst key e u) ∧ u.Valid ∧ u.listing.length < q.listing.length := by
    intro q hq hover
    have holds : q.entries.size ≠ 0 := Nat.ne_zero_of_lt (of_decide_eq_true hover)
    obtain ⟨key, e, u, hdrops⟩ := hq.exists_dropsFirst holds
    exact ⟨u, ⟨key, e, hdrops⟩, hq.of_dropOldest hdrops.dropped⟩
  obtain ⟨n, u, hrun, hn⟩ := exists_evictions (fun q => q.listing.length) step hvalid
  refine ⟨n, u, ?_, hrun⟩
  rw [put_of_absent absent]
  exact shrink_of_evictions (fun ⟨_, _, hdrops⟩ => hdrops.dropped) hrun _ (hvalid.size_entries ▸ hn)

/-- **Each entry has one live arrival.** After every sequence of calls the numbers of the arrivals
ascend and are past, every entry is accounted for, the live keys are the keys held, once each, and
the counter shows the sum of the sizes held unless it has wrapped. Dropping the stale arrivals
changes neither the entries nor the live keys. An eviction takes out the entry with the least number
unless there is no entry at all, and a write to an absent key is followed by such evictions until
the entries fit. -/
theorem one_live_arrival (capacity : Nat) (calls : List CacheCall) :
    let q := (CacheEngine.performAll (empty capacity) calls).2
    (q.order.Pairwise (fun a b => a.1 < b.1) ∧ ∀ a ∈ q.order, a.1 < q.nextSeq) ∧
      (∀ key e, q.entries[key]? = some e → q.Accounted key e) ∧
        (∀ key, q.keys.count key = if q.has key then 1 else 0) ∧
          q.byteSize.Counts (Listing.bytes q.held) ∧
            (q.dropStale.entries = q.entries ∧ q.dropStale.keys = q.keys ∧
              q.dropStale.order.length = q.entries.size ∧
                ∀ key, (q.remove key).keys = q.keys.filter fun k => k ≠ key) ∧
              (q.entries.size = 0 ∧ q.dropOldest.1 = false ∨ ∃ key e u, q.DropsFirst key e u) ∧
                ∀ key value size, q.entries[key]? = none →
                  ∃ n u, q.put key value size = (decide (0 < n), u) ∧
                    Evictions overfull (fun q u => ∃ key e, q.DropsFirst key e u)
                      (q.arrive key value size) n u := by
  intro q
  have hsettled : q.Settled :=
    CacheEngine.performAll_keeps (I := Settled) (fun _ h call => h.perform call) calls _
      (settled_empty capacity)
  have h := hsettled.valid
  refine ⟨⟨h.ascending, h.past⟩, fun _ _ => h.accounted, h.count_keys, h.bytes_held, ?_, ?_, ?_⟩
  · obtain ⟨hvalid, hlisting⟩ := h.dropStale
    have hkeys : q.dropStale.keys = q.keys := by
      rw [← hvalid.keys_listing, hlisting, h.keys_listing]
    exact ⟨rfl, hkeys, h.length_dropStale, h.keys_remove⟩
  · by_cases hsize : q.entries.size = 0
    · have hnone : q.dropOldest.1 = false :=
        h.dropOldest_nil (List.eq_nil_of_length_eq_zero (h.size_entries ▸ hsize))
      exact .inl ⟨hsize, hnone⟩
    · exact .inr (h.exists_dropsFirst hsize)
  · intro key value size absent
    exact h.put_evictions absent value size

/-- A key that left and came in again has two arrivals, and the later one is live. -/
example :
    let q := (CacheEngine.performAll (empty 2)
      [.put [1] [10] 1, .put [2] [20] 1, .remove [1], .put [1] [11] 1]).2
    q.order = [(0, [1]), (1, [2]), (2, [1])] ∧ q.keys = [[2], [1]] := by
  decide +kernel

end TieredStore.ArrivalQueue
