import TieredStore.Proofs.Cache.Bounds

/-!
# What was written last is held

A write evicts until the bounds hold, and it stops before it comes to the entry that it wrote: that
entry is the last to go, and by itself it fits, because every cache has room for one entry. Only an
entry larger than the whole byte budget does not fit by itself, and then the write leaves nothing
(`Cache.HasRoom.peek_put`, `Cache.HasRoom.peek_put_oversized`).

`Cache.HasRoom` is what the argument needs of a cache, and every call keeps it.
-/

namespace TieredStore

namespace RecencyList

/-- With room for one entry at least, a write holds what it wrote if that keeps to the budget. -/
theorem mem_put (r : RecencyList) (positive : 0 < r.capacity) {key value : Bytes} {size : Nat}
    (fitting : ∀ budget, r.budget = some budget → size ≤ budget) :
    ⟨key, value, size⟩ ∈ (r.put key value size).2.entries := by
  have alone : r.fits [⟨key, value, size⟩] = true := by
    rw [fits_iff]
    exact ⟨positive, fitting⟩
  cases hfind : (r.put key value size).2.entries.find key with
  | some e =>
    obtain ⟨he, hk⟩ := Listing.of_find hfind
    rcases r.of_mem_put he with rfl | ⟨_, hne⟩
    · exact he
    · exact absurd hk hne
  | none =>
    -- nothing stands behind the entry written, so it goes only if it does not fit alone
    have hsplit : r.written key value size =
        r.entries.without key ++ (⟨key, value, size⟩ : HeldEntry) :: [] := rfl
    have hover := r.not_fits_of_evicted hsplit hfind
    rw [alone] at hover
    cases hover

end RecencyList

namespace RecencyCache

variable {c : RecencyCache} {key value : Bytes} {size : Nat}

/-- What was just written is evicted last, so it stays if it fits alone. -/
theorem peek_put_self (h : c.table.Valid) (positive : 0 < c.capacity)
    (fitting : ∀ budget, c.budget = some budget → size ≤ budget) :
    (c.put key value size).2.peek key = some value := by
  obtain ⟨_, hvalid, hview⟩ := view_put h key value size
  have hnodup := nodup_view hvalid
  rw [hview] at hnodup
  rw [peek_eq_of_view hvalid hview, Listing.value_eq_some hnodup]
  exact ⟨size, c.view.mem_put positive fitting⟩

/-- An entry that does not fit alone drives out everything and then goes itself. -/
theorem peek_put_oversized (h : c.table.Valid) {budget : Nat} (hb : c.budget = some budget)
    (oversized : budget < size) (k : Bytes) : (c.put key value size).2.peek k = none := by
  obtain ⟨_, hvalid, hview⟩ := view_put h key value size
  rw [peek_eq_of_view hvalid hview, c.view.put_oversized hb key value oversized]
  rfl

end RecencyCache

/-- An arrival is at the end of the queue, and entries go from the front. -/
theorem ArrivalQueue.Settled.peek_put_self {q : ArrivalQueue} (h : q.Settled)
    (positive : 0 < q.capacity) (key value : Bytes) (size : Nat) :
    (q.put key value size).2.peek key = some value := by
  obtain ⟨_, hsettled, hview⟩ := h.put key value size
  have hmem := q.view.mem_put positive key value size
  rw [← hview] at hmem
  rw [hsettled.valid.peek_eq, Listing.value_eq_some hsettled.valid.nodup]
  exact ⟨size, hmem⟩

/-- The shard of the key keeps it. -/
theorem ShardedCache.InBounds.peek_put_self {c : ShardedCache} {part : Nat} (h : c.InBounds part)
    (positive : 0 < part) (nonempty : c.shards ≠ []) (key value : Bytes) (size : Nat) :
    (c.put key value size).2.peek key = some value := by
  obtain ⟨q, hq⟩ := exists_shard nonempty key
  have hpart : 0 < q.capacity := by
    rw [h.parts q (List.mem_of_getElem? hq)]
    exact positive
  rw [put_eq, peek, shard?_update, if_pos rfl, hq]
  exact (h.valid.settled _ q hq).peek_put_self hpart key value size

/-- The most bytes that a cache of these settings holds, if it counts them. -/
def CacheSettings.budget? (settings : CacheSettings) : Option Nat :=
  if settings.kind = .budgeted then some settings.byteBudget else none

/-- Only a budgeted cache has a byte budget. -/
theorem CacheSettings.budget?_eq_some {settings : CacheSettings} {budget : Nat} :
    settings.budget? = some budget ↔ settings.kind = .budgeted ∧ settings.byteBudget = budget := by
  unfold budget?
  split
  · next h => simp only [Option.some.injEq, h, true_and]
  · next h => simp only [reduceCtorEq, h, false_and]

namespace Cache

/-- A cache between two calls that has room for one entry, which may take the whole budget of the
settings. -/
def HasRoom (settings : CacheSettings) : Cache → Prop
  | lru c => c.table.Valid ∧ 0 < c.capacity ∧ c.budget = settings.budget?
  | fifo c => settings.budget? = none ∧ c.shards ≠ [] ∧ ∃ part, 0 < part ∧ c.InBounds part

variable {settings : CacheSettings} {c : Cache} {key value : Bytes} {size : Nat}

theorem HasRoom.valid (h : HasRoom settings c) : LawfulEngine.Valid c := by
  cases c with
  | lru c => exact h.1
  | fifo c =>
    obtain ⟨_, _, part, _, hbounds⟩ := h
    exact hbounds.valid

/-- Every call leaves the room. -/
theorem HasRoom.perform (h : HasRoom settings c) (call : CacheCall) :
    HasRoom settings (CacheEngine.perform c call).2 := by
  cases c with
  | lru c =>
    obtain ⟨hvalid, hpositive, hbudget⟩ := h
    obtain ⟨hcapacity', hbudget'⟩ := RecencyCache.bounds_perform hvalid call
    rw [perform_lru]
    refine ⟨(RecencyCache.perform_view hvalid call).2.1, ?_, hbudget'.trans hbudget⟩
    rw [hcapacity']
    exact hpositive
  | fifo c =>
    obtain ⟨hbudget, hnonempty, part, hpositive, hbounds⟩ := h
    rw [perform_fifo]
    refine ⟨hbudget, ?_, part, hpositive, hbounds.perform call⟩
    rw [← List.length_pos_iff, c.length_shards_perform call]
    exact List.length_pos_iff.mpr hnonempty

/-- A new cache has room: a capacity of zero is refused, and so are more shards than entries. -/
theorem hasRoom_of_ofSettings (built : ofSettings settings = .ok c) : HasRoom settings c := by
  cases described_of_ofSettings built with
  | counted hkind hpositive =>
    refine ⟨RecencyTable.valid_empty, hpositive, ?_⟩
    simp [CacheSettings.budget?, hkind]
  | budgeted hkind hpositive =>
    refine ⟨RecencyTable.valid_empty, hpositive, ?_⟩
    simp [CacheSettings.budget?, hkind]
  | sharded hkind hs =>
    obtain ⟨hshards, hroom, heq⟩ := ShardedCache.build_eq_ok hs
    refine ⟨?_, ?_, _, Nat.div_pos hroom hshards, ShardedCache.inBounds_of_build hs⟩
    · simp [CacheSettings.budget?, hkind]
    · rw [heq, ← List.length_pos_iff, List.length_replicate]
      exact hshards

/-- A write holds what it wrote if that keeps to the budget. -/
theorem HasRoom.peek_put (h : HasRoom settings c)
    (fitting : ∀ budget, settings.budget? = some budget → size ≤ budget) :
    CacheEngine.peek (CacheEngine.put c key value size).2 key = some value := by
  cases c with
  | lru c =>
    obtain ⟨hvalid, hpositive, hbudget⟩ := h
    rw [← hbudget] at fitting
    exact RecencyCache.peek_put_self hvalid hpositive fitting
  | fifo c =>
    obtain ⟨_, hnonempty, part, hpositive, hbounds⟩ := h
    exact hbounds.peek_put_self hpositive hnonempty key value size

/-- A write larger than the whole budget leaves nothing. -/
theorem HasRoom.peek_put_oversized (h : HasRoom settings c) {budget : Nat}
    (hb : settings.budget? = some budget) (oversized : budget < size) (k : Bytes) :
    CacheEngine.peek (CacheEngine.put c key value size).2 k = none := by
  cases c with
  | lru c =>
    obtain ⟨hvalid, _, hbudget⟩ := h
    exact RecencyCache.peek_put_oversized hvalid (hbudget.trans hb) oversized k
  | fifo c =>
    rw [h.1] at hb
    cases hb

end Cache

end TieredStore
