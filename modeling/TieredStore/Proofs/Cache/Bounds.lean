import TieredStore.Proofs.Cache.BySettings
import TieredStore.Proofs.Cache.Lanes

/-!
# Caches keep their bounds

The bounds of a recency cache are restored by a loop that ends when they hold, and also when there
is nothing left to evict. The second end is no way out, because a cache without entries keeps every
bound: `RecencyList.fits_perform` says that the entries fit after each call, by what the write drops
and because no other call adds to their number or their sizes. A shard of a first-in-first-out cache
is settled between two calls, so it holds no more than its part (`ShardedCache.InBounds`).

`Cache.WithinBounds` are the bounds as settings have them, and `Cache.Bounded` is the invariant that
implies them and that every call keeps.
-/

namespace TieredStore

namespace RecencyList

/-- Entries that are no more and no larger fit as well. -/
theorem fits_of_le (r : RecencyList) {l m : Listing} (fits : r.fits l = true)
    (length : m.length ≤ l.length) (bytes : Listing.bytes m ≤ Listing.bytes l) :
    r.fits m = true := by
  rw [fits_iff] at fits ⊢
  obtain ⟨hcapacity, hbudget⟩ := fits
  refine ⟨Nat.le_trans length hcapacity, ?_⟩
  intro budget hb
  exact Nat.le_trans bytes (hbudget budget hb)

/-- What is left of entries that fit, fits. -/
theorem fits_sublist (r : RecencyList) {l m : Listing} (fits : r.fits l = true)
    (sublist : m.Sublist l) : r.fits m = true :=
  r.fits_of_le fits sublist.length_le (Listing.bytes_sublist sublist)

/-- A read moves an entry and changes neither the number of entries nor their bytes. -/
theorem fits_get (r : RecencyList) (nodup : r.entries.keys.Nodup)
    (fits : r.fits r.entries = true) (key : Bytes) :
    r.fits (r.get key).2.entries = true := by
  unfold get
  split
  · exact fits
  · next e he =>
    have hlength := Listing.length_without_lt he
    have hbytes := Listing.bytes_without nodup he
    apply r.fits_of_le fits
    · rw [List.length_append, List.length_singleton]
      omega
    · rw [Listing.bytes_append, Listing.bytes, Listing.bytes]
      omega

/-- The entries fit after every call. -/
theorem fits_perform (r : RecencyList) (nodup : r.entries.keys.Nodup)
    (fits : r.fits r.entries = true) (call : CacheCall) :
    r.fits (CacheEngine.perform r call).2.entries = true := by
  cases call with
  | put key value size =>
    obtain ⟨n, hput, hfits, _⟩ := r.put_drops_least key value size
    show r.fits (r.put key value size).2.entries = true
    rw [hput]
    exact hfits
  | get key => exact r.fits_get nodup fits key
  | remove key => exact r.fits_sublist fits List.filter_sublist
  | clear => exact r.fits_nil
  | _ => exact fits

end RecencyList

namespace RecencyCache

/-- A cache between two calls: its maps fit together and its entries keep the bounds. -/
structure InBounds (c : RecencyCache) : Prop where
  valid : c.table.Valid
  fits : c.view.fits c.view.entries = true

variable {c : RecencyCache}

/-- The bounds of a cache are those that it was built with. -/
theorem bounds_perform (h : c.table.Valid) (call : CacheCall) :
    (CacheEngine.perform c call).2.capacity = c.capacity ∧
      (CacheEngine.perform c call).2.budget = c.budget := by
  obtain ⟨_, _, hview⟩ := perform_view h call
  obtain ⟨hcapacity, hbudget⟩ := c.view.bounds_perform call
  rw [← hview] at hcapacity hbudget
  exact ⟨hcapacity, hbudget⟩

theorem InBounds.perform (h : c.InBounds) (call : CacheCall) :
    (CacheEngine.perform c call).2.InBounds := by
  obtain ⟨_, hvalid, hview⟩ := perform_view h.valid call
  refine ⟨hvalid, ?_⟩
  have hfits := c.view.fits_perform (nodup_view h.valid) h.fits call
  obtain ⟨hcapacity, hbudget⟩ := c.view.bounds_perform call
  rw [hview, RecencyList.fits_iff, hcapacity, hbudget, ← RecencyList.fits_iff]
  exact hfits

/-- No bound is so small that an empty cache does not keep it. -/
theorem inBounds_empty (capacity : Nat) (budget : Option Nat) :
    InBounds ⟨capacity, budget, .empty⟩ where
  valid := RecencyTable.valid_empty
  fits := RecencyList.fits_nil _

/-- What a cache counts keeps its bounds. -/
theorem InBounds.size_le (h : c.InBounds) :
    c.size ≤ c.capacity ∧ ∀ budget, c.budget = some budget → c.byteSize ≤ budget := by
  have hfits := (c.view.fits_iff c.view.entries).mp h.fits
  rw [size, byteSize, h.valid.size_entries, h.valid.bytes]
  exact hfits

end RecencyCache

namespace ArrivalQueue

variable {q : ArrivalQueue}

theorem Settled.capacity_perform (h : q.Settled) (call : CacheCall) :
    (CacheEngine.perform q call).2.capacity = q.capacity := by
  cases call with
  | put key value size =>
    obtain ⟨_, _, hview⟩ := h.put key value size
    have hcapacity := q.view.capacity_put key value size
    rw [← hview] at hcapacity
    exact hcapacity
  | remove key => exact q.capacity_remove key
  | _ => rfl

/-- No call leaves a queue with more entries than its capacity. -/
theorem Settled.perform (h : q.Settled) (call : CacheCall) :
    (CacheEngine.perform q call).2.Settled := by
  cases call with
  | put key value size => exact (h.put key value size).2.1
  | remove key => exact (h.remove key).1
  | clear => exact q.settled_clear
  | _ => exact h

/-- A settled queue holds no more keys than its capacity, which is what a shard is asked for. -/
theorem Settled.size_le (h : q.Settled) : q.size ≤ q.capacity := by
  rw [size, h.valid.size_entries]
  exact h.room

end ArrivalQueue

namespace ShardedCache

/-- A cache between two calls, each of whose shards has room for a part of the entries. -/
structure InBounds (c : ShardedCache) (part : Nat) : Prop where
  valid : c.Valid
  parts : ∀ q ∈ c.shards, q.capacity = part

variable {c : ShardedCache} {part : Nat}

theorem capacity_perform (c : ShardedCache) (call : CacheCall) :
    (CacheEngine.perform c call).2.capacity = c.capacity := by
  cases call with
  | put key value size =>
    show (c.put key value size).2.capacity = c.capacity
    rw [put_eq]
    rfl
  | _ => rfl

theorem InBounds.perform (h : c.InBounds part) (call : CacheCall) :
    (CacheEngine.perform c call).2.InBounds part where
  valid := LawfulEngine.valid_perform (c := c) h.valid call
  parts := by
    intro q hq
    obtain ⟨i, hi⟩ := List.getElem?_of_mem hq
    -- the shard at this place before the call
    have hlt : i < c.shards.length := by
      rw [← c.length_shards_perform call]
      exact (List.getElem?_eq_some_iff.mp hi).1
    have hold := List.getElem?_eq_getElem hlt
    have hpart := h.parts _ (List.mem_of_getElem? hold)
    rw [(perform_shard hold call).1] at hi
    rw [← Option.some.inj hi]
    split
    · exact ((h.valid.settled i _ hold).capacity_perform call).trans hpart
    · exact hpart

/-- Each shard keeps within its part of the capacity. -/
theorem InBounds.size_shard_le (h : c.InBounds part) : ∀ q ∈ c.shards, q.size ≤ part := by
  intro q hq
  rw [← h.parts q hq]
  exact (h.valid.settled_of_mem hq).size_le

/-- Shards that each hold no more than a part hold together no more than all parts. -/
theorem foldr_size_le {shards : List ArrivalQueue} (each : ∀ q ∈ shards, q.size ≤ part) :
    shards.foldr (fun q total => q.size + total) 0 ≤ shards.length * part := by
  induction shards with
  | nil => exact Nat.zero_le _
  | cons q rest ih =>
    have hq := each q List.mem_cons_self
    have hrest := ih fun r hr => each r (List.mem_cons_of_mem q hr)
    rw [List.foldr_cons, List.length_cons, Nat.succ_mul]
    omega

/-- The shards of a new cache have equal parts of the capacity. -/
theorem inBounds_of_build {hash : Bytes → UInt64} {capacity shards : Nat}
    (built : build hash capacity shards = .ok c) : c.InBounds (capacity / shards) where
  valid := (fresh_of_build built).1
  parts := by
    rw [(build_eq_ok built).2.2]
    intro q hq
    rw [List.eq_of_mem_replicate hq]
    rfl

end ShardedCache

namespace Cache

/-- The bounds that settings put on a cache. -/
structure WithinBounds (settings : CacheSettings) (c : Cache) : Prop where
  capacity : CacheEngine.capacity c = settings.capacity
  size : CacheEngine.size c ≤ settings.capacity
  bytes : settings.kind = .budgeted → CacheEngine.byteSize c ≤ settings.byteBudget
  /-- Each shard holds no more than its part, and the parts no more than the capacity. -/
  shards : settings.kind = .sharded → ∃ s : ShardedCache, c = .fifo s ∧
    s.shards.length = settings.shards ∧
    (∀ q ∈ s.shards, q.size ≤ settings.capacity / settings.shards) ∧
    CacheEngine.size c ≤ settings.shards * (settings.capacity / settings.shards) ∧
    settings.shards * (settings.capacity / settings.shards) ≤ CacheEngine.capacity c

/-- The cache has the policy and the bounds of the settings, and keeps within them. -/
def Bounded (settings : CacheSettings) : Cache → Prop
  | lru c => settings.kind ≠ .sharded ∧ c.capacity = settings.capacity ∧
    (settings.kind = .budgeted → c.budget = some settings.byteBudget) ∧ c.InBounds
  | fifo c => settings.kind = .sharded ∧ c.capacity = settings.capacity ∧
    c.shards.length = settings.shards ∧ c.InBounds (settings.capacity / settings.shards)

variable {settings : CacheSettings} {c : Cache}

/-- The invariant implies the bounds; with shards it is the parts, rounded down, that add up to no
more than the capacity. -/
theorem Bounded.withinBounds (h : Bounded settings c) : WithinBounds settings c := by
  cases c with
  | lru c =>
    obtain ⟨hkind, hcapacity, hbudget, hbounds⟩ := h
    obtain ⟨hsize, hbytes⟩ := hbounds.size_le
    refine ⟨hcapacity, ?_, fun hk => hbytes _ (hbudget hk), fun hk => absurd hk hkind⟩
    rw [← hcapacity]
    exact hsize
  | fifo c =>
    obtain ⟨hkind, hcapacity, hlength, hbounds⟩ := h
    have hsize : c.size ≤ settings.shards * (settings.capacity / settings.shards) := by
      rw [← hlength]
      rw [← hlength] at hbounds
      exact ShardedCache.foldr_size_le hbounds.size_shard_le
    have hparts : settings.shards * (settings.capacity / settings.shards) ≤ settings.capacity :=
      Nat.mul_div_le settings.capacity settings.shards
    refine ⟨hcapacity, Nat.le_trans hsize hparts, ?_, ?_⟩
    · intro hk
      cases hkind.symm.trans hk
    · intro _
      refine ⟨c, rfl, hlength, hbounds.size_shard_le, hsize, ?_⟩
      rw [show CacheEngine.capacity (fifo c) = settings.capacity from hcapacity]
      exact hparts

/-- Every call keeps a cache within its bounds. -/
theorem Bounded.perform (h : Bounded settings c) (call : CacheCall) :
    Bounded settings (CacheEngine.perform c call).2 := by
  cases c with
  | lru c =>
    obtain ⟨hkind, hcapacity, hbudget, hbounds⟩ := h
    obtain ⟨hcapacity', hbudget'⟩ := RecencyCache.bounds_perform hbounds.valid call
    rw [perform_lru]
    refine ⟨hkind, hcapacity'.trans hcapacity, ?_, hbounds.perform call⟩
    intro hk
    exact hbudget'.trans (hbudget hk)
  | fifo c =>
    obtain ⟨hkind, hcapacity, hlength, hbounds⟩ := h
    rw [perform_fifo]
    exact ⟨hkind, (c.capacity_perform call).trans hcapacity,
      (c.length_shards_perform call).trans hlength, hbounds.perform call⟩

/-- A new cache is within its bounds. -/
theorem bounded_of_ofSettings (built : ofSettings settings = .ok c) : Bounded settings c := by
  cases described_of_ofSettings built with
  | counted hkind _ =>
    exact ⟨by simp [hkind], rfl, by simp [hkind], RecencyCache.inBounds_empty _ _⟩
  | budgeted hkind _ =>
    exact ⟨by simp [hkind], rfl, fun _ => rfl, RecencyCache.inBounds_empty _ _⟩
  | sharded hkind hs =>
    have hbounds := ShardedCache.inBounds_of_build hs
    obtain ⟨_, _, heq⟩ := ShardedCache.build_eq_ok hs
    refine ⟨hkind, ?_, ?_, hbounds⟩
    · rw [heq]
    · rw [heq]
      exact List.length_replicate

end Cache

end TieredStore
