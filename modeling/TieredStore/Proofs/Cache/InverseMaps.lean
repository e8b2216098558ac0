import TieredStore.Proofs.Cache.Evictions
import TieredStore.Proofs.Cache.RecencyList

/-!
# The maps of a recency table stay inverse

A recency table is changed in five ways, each of which changes the two maps and the sum of sizes one
by one. None of them would fail if these disagreed. A read that finds no key under the tick of its
entry leaves the order as it is, an eviction that finds no entry under the oldest key takes nothing
off the sum, a subtraction stops at zero, and the evictions after a write stop where nothing is left
to evict.

**The law** (`maps_inverse`): after every sequence of changes the maps are inverse to each other,
every tick in use is past, and the sum is that of the sizes. So every read and every eviction finds
what it looks up (`Accounted`, `DropsOldest`), no subtraction stops at zero, and the evictions after
a write end where the bounds hold and nowhere else (`Evictions`).
-/

namespace TieredStore.RecencyTable

/-- A change of a recency table. -/
inductive Change
  | touch (key : Bytes)
  | insert (key value : Bytes) (size : Nat)
  | remove (key : Bytes)
  | dropOldest
  | clear
  deriving DecidableEq, Repr

/-- The table after a change. A table without entries has none to evict and stays as it is. -/
def change (t : RecencyTable) : Change → RecencyTable
  | .touch key => (t.touch key).2
  | .insert key value size => t.insert key value size
  | .remove key => t.remove key
  | .dropOldest => t.dropOldest.getD t
  | .clear => t.clear

/-- The table after changes in turn. -/
def changeAll (t : RecencyTable) (changes : List Change) : RecencyTable :=
  changes.foldl change t

/-- The entries, in the order of their keys. -/
def held (t : RecencyTable) : Listing :=
  t.entries.toList.map fun p => ⟨p.1, p.2.value, p.2.size⟩

/-- An entry that every change finds in the order and in the sum: its key is under its tick, which
is past, and its size comes off the sum whole. -/
structure Accounted (t : RecencyTable) (key : Bytes) (e : RecencyEntry) : Prop where
  found : t.order[e.tick]? = some key
  past : e.tick < t.nextTick
  touched : (t.touch key).2.order = (t.order.erase e.tick).insert t.nextTick key
  removed : (t.remove key).byteSize + e.size = t.byteSize
  overwritten : ∀ value size, (t.insert key value size).byteSize + e.size = t.byteSize + size

/-- An eviction that finds the entry of the oldest key and takes it out: no other tick is as old,
and its size comes off the sum whole. -/
structure DropsOldest (t : RecencyTable) (key : Bytes) (e : RecencyEntry) (u : RecencyTable) :
    Prop where
  dropped : t.dropOldest = some u
  oldest : t.oldest? = some (e.tick, key)
  found : t.entries[key]? = some e
  least : ∀ (k : Bytes) (e' : RecencyEntry), t.entries[k]? = some e' → k ≠ key → e.tick < e'.tick
  entries : ∀ k : Bytes, u.entries[k]? = if key = k then none else t.entries[k]?
  byteSize : u.byteSize + e.size = t.byteSize

variable {t : RecencyTable}

/-! ## Every sequence of changes -/

/-- Touching is writing over with the value that is there. -/
theorem Valid.touch (h : t.Valid) (key : Bytes) : (t.touch key).2.Valid := by
  cases he : t.entries[key]? with
  | none => exact (h.touch_absent he).2.1
  | some e => exact (h.touch_present he).2.1

/-- An eviction keeps the maps inverse and leaves one entry less at least. -/
theorem Valid.of_dropOldest (h : t.Valid) {u : RecencyTable} (dropped : t.dropOldest = some u) :
    u.Valid ∧ u.listing.length < t.listing.length := by
  cases hl : t.listing with
  | nil => cases (h.dropOldest_nil hl).symm.trans dropped
  | cons e rest =>
    obtain ⟨v, hv, hvalid, hrest⟩ := h.dropOldest_cons hl
    cases dropped.symm.trans hv
    exact ⟨hvalid, hrest ▸ Nat.lt_succ_self _⟩

/-- Every change keeps what holds between the maps, the ticks and the sum. -/
theorem Valid.change (h : t.Valid) (c : Change) : (t.change c).Valid := by
  cases c with
  | touch key => exact h.touch key
  | insert key value size => exact h.insert key value size
  | remove key => exact h.remove key
  | dropOldest =>
    show (t.dropOldest.getD t).Valid
    cases hdropped : t.dropOldest with
    | none => exact h
    | some u => exact (h.of_dropOldest hdropped).1
  | clear => exact valid_clear t

/-- By induction on the changes: what one keeps, all keep. -/
theorem Valid.changeAll (changes : List Change) :
    ∀ {t : RecencyTable}, t.Valid → (t.changeAll changes).Valid := by
  induction changes with
  | nil => exact fun h => h
  | cons c rest ih => exact fun h => ih (h.change c)

/-! ## What the changes find -/

/-- The sum is that of the entries, in whichever order they are added up. -/
theorem Valid.bytes_held (h : t.Valid) : t.byteSize = Listing.bytes t.held := by
  rw [h.bytes]
  exact (Listing.bytes_perm (Listing.perm_toList h.indexed)).symm

/-- What a removal takes off is in the sum, so the subtraction does not stop at zero. -/
theorem Valid.byteSize_remove (h : t.Valid) {key : Bytes} {e : RecencyEntry}
    (he : t.entries[key]? = some e) : (t.remove key).byteSize + e.size = t.byteSize := by
  rw [(h.remove key).bytes, h.listing_remove, h.bytes]
  exact (Listing.bytes_without h.nodup (h.find_of_present he)).symm

/-- The same for each of the changes that take off the size of an entry. -/
theorem Valid.accounted (h : t.Valid) {key : Bytes} {e : RecencyEntry}
    (he : t.entries[key]? = some e) : t.Accounted key e where
  found := h.order_tick he
  past := h.past _ _ (h.order_tick he)
  touched := h.order_touch he
  removed := h.byteSize_remove he
  overwritten value size := by
    show (t.remove key).byteSize + size + e.size = _
    rw [Nat.add_right_comm, h.byteSize_remove he]

/-- The first pair of the order is the oldest key under the tick of its entry. -/
theorem Valid.exists_dropsOldest (h : t.Valid) (holds : t.entries.size ≠ 0) :
    ∃ key e u, t.DropsOldest key e u := by
  cases hl : t.order.toList with
  | nil =>
    rw [h.size_entries, h.length_listing, ← Std.TreeMap.length_toList, hl] at holds
    exact absurd rfl holds
  | cons p rest =>
    obtain ⟨e, he, ht⟩ := h.first_found hl
    have hascending := OrderedMap.toList_ascending t.order
    rw [hl] at hascending
    refine ⟨p.2, e, t.remove p.2, ⟨?_, ?_, he, ?_, t.entries_remove p.2, h.byteSize_remove he⟩⟩
    · rw [h.dropOldest_eq, keys, hl]
      rfl
    · rw [oldest?_eq, hl, ht]
      rfl
    · intro k e' he' hne
      have hmem : (e'.tick, k) ∈ p :: rest := hl ▸ OrderedMap.mem_toList.mpr (h.order_tick he')
      rcases List.mem_cons.mp hmem with hfirst | hlater
      · exact absurd (congrArg Prod.snd hfirst) hne
      · rw [ht]
        exact Nat.compare_eq_lt.mp ((List.pairwise_cons.mp hascending).1 _ hlater)

/-! ## Evictions after a write -/

/-- A write is seen at its key only, with the next tick. -/
theorem entries_insert (t : RecencyTable) (key value : Bytes) (size : Nat) (k : Bytes) :
    (t.insert key value size).entries[k]? =
      if key = k then some ⟨value, size, t.nextTick⟩ else t.entries[k]? := by
  show ((t.remove key).entries.insert key ⟨value, size, t.nextTick⟩)[k]? = _
  rw [OrderedMap.getElem?_insert, entries_remove]
  by_cases hk : key = k
  · rw [if_pos hk, if_pos hk]
  · rw [if_neg hk, if_neg hk, if_neg hk]

/-- The evictions that are made while a bound is exceeded are those of the run, if they are
allowed. -/
theorem shrink_of_evictions {exceeds : RecencyTable → Bool}
    {evicts : RecencyTable → RecencyTable → Prop}
    (drops : ∀ {t u}, evicts t u → t.dropOldest = some u) {u : RecencyTable} {n : Nat}
    (run : Evictions exceeds evicts t n u) :
    ∀ fuel, n ≤ fuel → shrink exceeds fuel t = (n, u) := by
  induction run with
  | done within =>
    intro fuel _
    cases fuel with
    | zero => rfl
    | succ fuel => rw [shrink, within, if_neg Bool.false_ne_true]
  | next beyond evicted _ ih =>
    intro fuel hfuel
    cases fuel with
    | zero => exact absurd hfuel (Nat.not_succ_le_zero _)
    | succ fuel =>
      rw [shrink, if_pos beyond, drops evicted]
      dsimp only
      rw [ih fuel (Nat.le_of_succ_le_succ hfuel)]

/-- A write to a cache is followed by evictions that each find the oldest key and its entry, until
the bounds hold. -/
theorem Valid.put_evictions (c : RecencyCache) (h : c.table.Valid) (key value : Bytes)
    (size : Nat) :
    ∃ n u, c.put key value size = (decide (0 < n), { c with table := u }) ∧
      Evictions c.exceeds (fun t u => ∃ key e, t.DropsOldest key e u)
        (c.table.insert key value size) n u := by
  have hwritten := h.insert key value size
  have step : ∀ t : RecencyTable, t.Valid → c.exceeds t = true →
      ∃ u, (∃ key e, t.DropsOldest key e u) ∧ u.Valid ∧ u.listing.length < t.listing.length := by
    intro t ht hexceeds
    -- a table without entries fits every bound
    have holds : t.entries.size ≠ 0 := by
      intro hsize
      have hnil : t.listing = [] := List.eq_nil_of_length_eq_zero (ht.size_entries ▸ hsize)
      rw [c.exceeds_eq ht, hnil, c.view.fits_nil] at hexceeds
      cases hexceeds
    obtain ⟨key, e, u, hdrops⟩ := ht.exists_dropsOldest holds
    exact ⟨u, ⟨key, e, hdrops⟩, ht.of_dropOldest hdrops.dropped⟩
  obtain ⟨n, u, hrun, hn⟩ := exists_evictions (fun t => t.listing.length) step hwritten
  have hshrink : (c.table.insert key value size).shrink c.exceeds
      (c.table.insert key value size).order.size = (n, u) :=
    shrink_of_evictions (fun ⟨_, _, hdrops⟩ => hdrops.dropped) hrun _ (hwritten.length_listing ▸ hn)
  refine ⟨n, u, ?_, hrun⟩
  simp only [RecencyCache.put, hshrink]

/-- **The maps of a recency table stay inverse.** After every sequence of changes a key is under a
tick just when its entry has this tick, every tick in use is past, and the sum of sizes is that of
the entries. Every entry is accounted for, and an eviction finds the entry of the oldest key unless
there is no entry at all. A write adds its entry and is followed by such evictions until the bounds
hold. -/
theorem maps_inverse (changes : List Change) :
    let t := empty.changeAll changes
    (∀ (tick : Nat) (key : Bytes), t.order[tick]? = some key ↔
        ∃ e : RecencyEntry, t.entries[key]? = some e ∧ e.tick = tick) ∧
      (∀ (tick : Nat) (key : Bytes), t.order[tick]? = some key → tick < t.nextTick) ∧
        t.byteSize = Listing.bytes t.held ∧
          (∀ key e, t.entries[key]? = some e → t.Accounted key e) ∧
            (t.entries.size = 0 ∧ t.dropOldest = none ∨ ∃ key e u, t.DropsOldest key e u) ∧
              ∀ capacity budget key value size,
                let c : RecencyCache := ⟨capacity, budget, t⟩
                let written := t.insert key value size
                (∀ k : Bytes, written.entries[k]? =
                    if key = k then some ⟨value, size, t.nextTick⟩ else t.entries[k]?) ∧
                  ∃ n u, c.put key value size = (decide (0 < n), { c with table := u }) ∧
                    Evictions c.exceeds (fun t u => ∃ key e, t.DropsOldest key e u) written n u := by
  intro t
  have h : t.Valid := valid_empty.changeAll changes
  refine ⟨h.inverse, h.past, h.bytes_held, fun _ _ => h.accounted, ?_, ?_⟩
  · by_cases hsize : t.entries.size = 0
    · have hnone : t.dropOldest = none :=
        h.dropOldest_nil (List.eq_nil_of_length_eq_zero (h.size_entries ▸ hsize))
      exact .inl ⟨hsize, hnone⟩
    · exact .inr (h.exists_dropsOldest hsize)
  · intro capacity budget key value size c written
    exact ⟨t.entries_insert key value size, Valid.put_evictions c h key value size⟩

/-- A read takes a tick whether or not it finds its key, and so does a key that is written over. -/
example :
    let t := empty.changeAll
      [.insert [1] [10] 3, .insert [2] [20] 4, .touch [1], .touch [9], .insert [2] [21] 5]
    t.order.toList = [(2, [1]), (4, [2])] ∧ t.nextTick = 5 ∧ t.byteSize = 8 := by
  decide +kernel

end TieredStore.RecencyTable
