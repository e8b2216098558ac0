import TieredStore.Cache.RecencyCache
import TieredStore.Proofs.Cache.Calls
import TieredStore.Proofs.Cache.RecencyTable

/-!
# The least-recently-used cache as a list

`RecencyList` is a cache that keeps nothing but its entries, in the order of their last uses. A
write takes the key's old entry out, adds the new one at the end, and drops the shortest beginning
whose loss makes the rest fit the bounds; a read that finds its key moves the entry to the end.

**The law** (`RecencyCache.answers_of_recencyList`): a recency cache gives the answers of the list
with the same bounds to every sequence of calls, with or without a byte budget. The ticks that it
takes, also for reads that find nothing, are never seen. Two consequences are part of the law: an
entry larger than the whole budget empties the cache, itself included, and an entry is evicted only
if it exceeds a bound together with all those used after it.
-/

namespace TieredStore

/-- A cache that keeps its entries in the order of their last uses, and nothing else. -/
structure RecencyList where
  capacity : Nat
  /-- The most bytes held, if they are counted. -/
  budget : Option Nat
  /-- The entries, the one left alone for longest first. -/
  entries : Listing := []

namespace RecencyList

/-- Whether entries keep the bounds. -/
def fits (r : RecencyList) (l : Listing) : Bool :=
  decide (l.length ≤ r.capacity) && r.budget.all fun budget => decide (Listing.bytes l ≤ budget)

/-- The entries with one written, before anything goes. -/
def written (r : RecencyList) (key value : Bytes) (size : Nat) : Listing :=
  r.entries.without key ++ [⟨key, value, size⟩]

/-- Writes a value, then drops the overflow. -/
def put (r : RecencyList) (key value : Bytes) (size : Nat) : Bool × RecencyList :=
  let written := r.written key value size
  let evicted := written.overflow r.fits
  (decide (0 < evicted), { r with entries := written.drop evicted })

/-- The value of a key, whose entry goes to the end. -/
def get (r : RecencyList) (key : Bytes) : Option Bytes × RecencyList :=
  match r.entries.find key with
  | none => (none, r)
  | some e => (some e.value, { r with entries := r.entries.without key ++ [e] })

instance : CacheEngine RecencyList where
  put := put
  get := get
  peek r key := r.entries.value key
  has r key := (r.entries.find key).isSome
  remove r key := { r with entries := r.entries.without key }
  clear r := { r with entries := [] }
  keys r := r.entries.keys
  size r := r.entries.length
  byteSize r := r.entries.bytes
  capacity := capacity

/-- A read gives the value, whatever it moves. -/
theorem get_fst (r : RecencyList) (key : Bytes) : (r.get key).1 = r.entries.value key := by
  rw [Listing.value, get]
  cases r.entries.find key <;> rfl

/-- A read drops no entry and adds none. -/
theorem mem_get (r : RecencyList) (nodup : r.entries.keys.Nodup) {key : Bytes} {e : HeldEntry} :
    e ∈ (r.get key).2.entries ↔ e ∈ r.entries := by
  cases hfind : r.entries.find key with
  | none => rw [get, hfind]
  | some found =>
    obtain ⟨hmem, hkey⟩ := (Listing.find_eq_some nodup).mp hfind
    simp only [get, hfind, List.mem_append, Listing.mem_without, List.mem_singleton]
    constructor
    · rintro (⟨he, _⟩ | rfl)
      · exact he
      · exact hmem
    · intro he
      by_cases hk : e.key = key
      · have same := (Listing.find_eq_some nodup).mpr ⟨he, hk⟩
        exact .inr (Option.some.inj (same.symm.trans hfind))
      · exact .inl ⟨he, hk⟩

/-- After a write there is nothing but the entry written and old ones of other keys. -/
theorem of_mem_put (r : RecencyList) {key value : Bytes} {size : Nat} {e : HeldEntry}
    (h : e ∈ (r.put key value size).2.entries) :
    e = ⟨key, value, size⟩ ∨ e ∈ r.entries ∧ e.key ≠ key := by
  rcases List.mem_append.mp (List.mem_of_mem_drop h) with he | he
  · exact .inr (Listing.mem_without.mp he)
  · exact .inl (List.mem_singleton.mp he)

/-- Nothing fits in every bound, so evicting always comes to an end. -/
theorem fits_nil (r : RecencyList) : r.fits [] = true := by
  cases h : r.budget <;> simp [fits, h, Listing.bytes]

/-- What a write drops is the shortest beginning whose loss makes the rest fit. -/
theorem put_drops_least (r : RecencyList) (key value : Bytes) (size : Nat) :
    ∃ n, r.put key value size =
        (decide (0 < n), { r with entries := (r.written key value size).drop n }) ∧
      r.fits ((r.written key value size).drop n) = true ∧
      ∀ m, m < n → r.fits ((r.written key value size).drop m) = false :=
  ⟨_, rfl, Listing.overflow_least r.fits_nil _⟩

/-- To fit is to be within the capacity, and within the budget if there is one. -/
theorem fits_iff (r : RecencyList) (l : Listing) :
    r.fits l = true ↔
      l.length ≤ r.capacity ∧ ∀ budget, r.budget = some budget → Listing.bytes l ≤ budget := by
  cases h : r.budget <;> simp [fits, h]

/-- Where only the number of entries counts, a write drops those beyond it. -/
theorem entries_put_of_counted (r : RecencyList) (counted : r.budget = none) (key value : Bytes)
    (size : Nat) :
    (r.put key value size).2.entries =
      (r.written key value size).drop ((r.written key value size).length - r.capacity) := by
  obtain ⟨n, hput, hfits, hleast⟩ := r.put_drops_least key value size
  have hfits_iff : ∀ l, r.fits l = true ↔ l.length ≤ r.capacity := by
    intro l
    simp [fits_iff, counted]
  rw [hfits_iff, List.length_drop] at hfits
  have hle : n ≤ (r.written key value size).length - r.capacity := by
    -- dropping no more than that makes the rest fit
    apply Nat.le_of_not_lt
    intro hlt
    have hover := hleast _ hlt
    rw [← Bool.not_eq_true, hfits_iff, List.length_drop] at hover
    omega
  have hn : n = (r.written key value size).length - r.capacity := by omega
  rw [hput, hn]

/-- An entry that is written or held before a write, and not held after it, does not fit together
with the entries behind it. -/
theorem not_fits_of_evicted (r : RecencyList) {key value : Bytes} {size : Nat}
    {before after : Listing} {e : HeldEntry}
    (split : r.written key value size = before ++ e :: after)
    (evicted : (r.put key value size).2.entries.find e.key = none) : r.fits (e :: after) = false := by
  obtain ⟨n, hput, _, hleast⟩ := r.put_drops_least key value size
  have here : (r.written key value size).drop before.length = e :: after := by
    rw [split, List.drop_left]
  rw [← here]
  refine hleast _ (Nat.lt_of_not_le fun hle => ?_)
  -- an entry behind what was dropped is still there
  have kept : e ∈ (r.put key value size).2.entries := by
    obtain ⟨d, hd⟩ := Nat.exists_eq_add_of_le hle
    rw [hd, ← List.drop_drop] at here
    rw [hput]
    exact List.mem_of_mem_drop (here ▸ List.mem_cons_self)
  exact Listing.find_eq_none.mp evicted (List.mem_map_of_mem kept)

/-- Entries of which one is larger than the budget do not fit. -/
theorem not_fits_of_oversized (r : RecencyList) {budget : Nat} (hb : r.budget = some budget)
    {l : Listing} {e : HeldEntry} (he : e ∈ l) (hsize : budget < e.size) : r.fits l = false := by
  have hle : e.size ≤ Listing.bytes l := by
    induction l with
    | nil => cases he
    | cons a l ih =>
      rw [Listing.bytes]
      rcases List.mem_cons.mp he with rfl | he
      · exact Nat.le_add_right _ _
      · exact Nat.le_trans (ih he) (Nat.le_add_left _ _)
  simp only [fits, hb, Option.all_some, Bool.and_eq_false_iff, decide_eq_false_iff_not, Nat.not_le]
  exact .inr (Nat.lt_of_lt_of_le hsize hle)

/-- A write larger than the whole budget leaves nothing. -/
theorem put_oversized (r : RecencyList) {budget : Nat} (hb : r.budget = some budget)
    (key value : Bytes) {size : Nat} (hsize : budget < size) :
    (r.put key value size).2.entries = [] := by
  obtain ⟨n, hput, hfits, _⟩ := r.put_drops_least key value size
  rw [hput]
  by_cases hn : n ≤ (r.entries.without key).length
  · have own : (⟨key, value, size⟩ : HeldEntry) ∈ (r.written key value size).drop n := by
      rw [written, List.drop_append_of_le_length hn]
      exact List.mem_append_right _ List.mem_cons_self
    rw [r.not_fits_of_oversized hb own hsize] at hfits
    cases hfits
  · refine List.drop_eq_nil_of_le ?_
    rw [written, List.length_append, List.length_singleton]
    omega

/-- No call changes the bounds. -/
theorem bounds_perform (r : RecencyList) (call : CacheCall) :
    (CacheEngine.perform r call).2.capacity = r.capacity ∧
      (CacheEngine.perform r call).2.budget = r.budget := by
  cases call with
  | get key =>
    simp only [CacheEngine.perform, CacheEngine.get, RecencyList.get]
    cases r.entries.find key <;> exact ⟨rfl, rfl⟩
  | _ => exact ⟨rfl, rfl⟩

/-- No call changes the bounds. -/
theorem bounds_performAll (r : RecencyList) (calls : List CacheCall) :
    (CacheEngine.performAll r calls).2.capacity = r.capacity ∧
      (CacheEngine.performAll r calls).2.budget = r.budget := by
  refine CacheEngine.performAll_keeps (I := fun s => s.capacity = r.capacity ∧ s.budget = r.budget)
    (fun s h call => ?_) calls r ⟨rfl, rfl⟩
  obtain ⟨hcapacity, hbudget⟩ := s.bounds_perform call
  exact ⟨hcapacity.trans h.1, hbudget.trans h.2⟩

end RecencyList

namespace RecencyCache

/-- The empty cache with the given bounds. -/
def ofBounds (capacity : Nat) : Option Nat → Except Failure RecencyCache
  | none => counted capacity
  | some budget => budgeted capacity budget

theorem counted_eq_ok {capacity : Nat} {c : RecencyCache} (h : counted capacity = .ok c) :
    c = ⟨capacity, none, .empty⟩ := by
  unfold counted at h
  split at h
  · cases h
  · exact (Except.ok.inj h).symm

theorem budgeted_eq_ok {capacity budget : Nat} {c : RecencyCache}
    (h : budgeted capacity budget = .ok c) : c = ⟨capacity, some budget, .empty⟩ := by
  unfold budgeted at h
  split at h
  · cases h
  · cases hc : counted capacity with
    | error f => rw [hc] at h; cases h
    | ok d =>
      rw [hc, counted_eq_ok hc] at h
      exact (Except.ok.inj h).symm

/-- A capacity of zero is refused. -/
theorem pos_of_counted {capacity : Nat} {c : RecencyCache} (h : counted capacity = .ok c) :
    0 < capacity := by
  unfold counted at h
  split at h
  · cases h
  · next hne => exact Nat.pos_of_ne_zero hne

theorem pos_of_budgeted {capacity budget : Nat} {c : RecencyCache}
    (h : budgeted capacity budget = .ok c) : 0 < capacity := by
  unfold budgeted at h
  split at h
  · cases h
  · cases hc : counted capacity with
    | error f => rw [hc] at h; cases h
    | ok d => exact pos_of_counted hc

/-- A cache that is built is empty. -/
theorem ofBounds_eq_ok {capacity : Nat} {budget : Option Nat} {c : RecencyCache}
    (h : ofBounds capacity budget = .ok c) : c = ⟨capacity, budget, .empty⟩ := by
  cases budget with
  | none => exact counted_eq_ok h
  | some budget => exact budgeted_eq_ok h

/-- The cache read as a list. -/
def view (c : RecencyCache) : RecencyList := ⟨c.capacity, c.budget, c.table.listing⟩

variable {c : RecencyCache}

/-- A table exceeds the bounds just when its entries do not fit. -/
theorem exceeds_eq (c : RecencyCache) {t : RecencyTable} (h : t.Valid) :
    c.exceeds t = !c.view.fits t.listing := by
  rw [exceeds, h.size_entries, h.bytes, RecencyList.fits]
  cases hb : c.budget <;> simp [view, hb, ← decide_not]

/-- A write to the cache is the write to its list, evictions included: the loop drops from the front
until the rest fits. -/
theorem view_put (h : c.table.Valid) (key value : Bytes) (size : Nat) :
    (c.put key value size).1 = (c.view.put key value size).1 ∧
      (c.put key value size).2.table.Valid ∧
        (c.put key value size).2.view = (c.view.put key value size).2 := by
  have hinsert := h.insert key value size
  obtain ⟨hcount, hvalid, hlisting⟩ := RecencyTable.Valid.shrink (fun u hu => c.exceeds_eq hu) _ _
    hinsert (Nat.le_of_eq hinsert.length_listing)
  rw [h.listing_insert] at hcount hlisting
  refine ⟨?_, hvalid, ?_⟩
  · show decide (0 < _) = _
    rw [hcount]
    rfl
  · show RecencyList.mk c.capacity c.budget (RecencyTable.shrink _ _ _).2.listing = _
    exact congrArg (RecencyList.mk c.capacity c.budget) hlisting

/-- A read of the cache is the read of its list: a hit moves to the end. -/
theorem view_get (h : c.table.Valid) (key : Bytes) :
    (c.get key).1 = (c.view.get key).1 ∧ (c.get key).2.table.Valid ∧
      (c.get key).2.view = (c.view.get key).2 := by
  have hfind := h.find_listing key
  cases he : c.table.entries[key]? with
  | none =>
    obtain ⟨hvalue, hvalid, hlisting⟩ := h.touch_absent he
    rw [RecencyTable.lookup, he] at hfind
    simp only [RecencyCache.get, view, RecencyList.get, hfind, Option.map_none, hvalue, hlisting]
    exact ⟨trivial, hvalid, trivial⟩
  | some e =>
    obtain ⟨hvalue, hvalid, hlisting⟩ := h.touch_present he
    rw [RecencyTable.lookup, he] at hfind
    simp only [RecencyCache.get, view, RecencyList.get, hfind, Option.map_some, hvalue, hlisting]
    exact ⟨trivial, hvalid, trivial⟩

/-- Looking moves nothing. -/
theorem view_peek (h : c.table.Valid) (key : Bytes) : c.peek key = c.view.entries.value key := by
  rw [Listing.value, view, h.find_listing, RecencyTable.lookup, Option.map_map]
  rfl

theorem view_has (h : c.table.Valid) (key : Bytes) :
    c.has key = (c.view.entries.find key).isSome := by
  rw [view, h.find_listing, RecencyTable.lookup, Option.isSome_map, has,
    Std.TreeMap.contains_eq_isSome_getElem?]

/-- A removal takes the entry out of the list, and evicts nothing. -/
theorem view_remove (h : c.table.Valid) (key : Bytes) :
    (c.remove key).view = { c.view with entries := c.view.entries.without key } := by
  rw [view, remove, h.listing_remove]
  rfl

/-- A call to a cache is the call to its list. -/
theorem perform_view (h : c.table.Valid) (call : CacheCall) :
    (CacheEngine.perform c call).1 = (CacheEngine.perform c.view call).1 ∧
      (CacheEngine.perform c call).2.table.Valid ∧
        (CacheEngine.perform c call).2.view = (CacheEngine.perform c.view call).2 := by
  cases call with
  | put key value size =>
    obtain ⟨hevicted, hvalid, hview⟩ := view_put h key value size
    exact ⟨congrArg CacheAnswer.evicted hevicted, hvalid, hview⟩
  | get key =>
    obtain ⟨hvalue, hvalid, hview⟩ := view_get h key
    exact ⟨congrArg CacheAnswer.value hvalue, hvalid, hview⟩
  | peek key => exact ⟨congrArg CacheAnswer.value (view_peek h key), h, rfl⟩
  | has key => exact ⟨congrArg CacheAnswer.held (view_has h key), h, rfl⟩
  | remove key => exact ⟨rfl, h.remove key, view_remove h key⟩
  | clear => exact ⟨rfl, RecencyTable.valid_clear c.table, rfl⟩
  | keys => exact ⟨congrArg CacheAnswer.keys h.keys_listing.symm, h, rfl⟩
  | size => exact ⟨congrArg CacheAnswer.count h.size_entries, h, rfl⟩
  | byteSize => exact ⟨congrArg CacheAnswer.count h.bytes, h, rfl⟩
  | capacity => exact ⟨rfl, h, rfl⟩

/-- Every sequence of calls to a cache is that sequence of calls to its list. -/
theorem performAll_view (h : c.table.Valid) (calls : List CacheCall) :
    (CacheEngine.performAll c calls).1 = (CacheEngine.performAll c.view calls).1 ∧
      (CacheEngine.performAll c calls).2.table.Valid ∧
        (CacheEngine.performAll c calls).2.view = (CacheEngine.performAll c.view calls).2 := by
  refine CacheEngine.performAll_agree (R := fun c r => c.table.Valid ∧ c.view = r) ?_ calls c c.view
    ⟨h, rfl⟩
  rintro c _ ⟨h, rfl⟩ call
  exact perform_view h call

/-- **A recency cache is a recency list.** It gives the list's answers to every sequence of calls;
a write to the list drops the shortest beginning whose loss makes the rest fit. So after any calls
an entry larger than the budget empties the cache, itself included, and an entry that a write evicts
exceeds a bound together with all those used after it. -/
theorem answers_of_recencyList {capacity : Nat} {budget : Option Nat} {cache : RecencyCache}
    (built : ofBounds capacity budget = .ok cache) (calls : List CacheCall) :
    let list : RecencyList := ⟨capacity, budget, []⟩
    let lastCache := (CacheEngine.performAll cache calls).2
    let lastList := (CacheEngine.performAll list calls).2
    (CacheEngine.performAll cache calls).1 = (CacheEngine.performAll list calls).1 ∧
      ∀ key value size,
        (∃ n, lastList.put key value size =
            (decide (0 < n),
              { lastList with entries := (lastList.written key value size).drop n }) ∧
          lastList.fits ((lastList.written key value size).drop n) = true ∧
          ∀ m, m < n → lastList.fits ((lastList.written key value size).drop m) = false) ∧
        ((∃ b, budget = some b ∧ b < size) →
          CacheEngine.keys (CacheEngine.put lastCache key value size).2 = []) ∧
        ∀ before e after, lastList.written key value size = before ++ e :: after →
          CacheEngine.has (CacheEngine.put lastCache key value size).2 e.key = false →
            lastList.fits (e :: after) = false := by
  intro list lastCache lastList
  obtain ⟨hanswers, hvalid, hview⟩ :=
    performAll_view (c := cache) (ofBounds_eq_ok built ▸ RecencyTable.valid_empty) calls
  have hlist : cache.view = list := by rw [ofBounds_eq_ok built]; rfl
  rw [hlist] at hanswers hview
  have hbudget : lastList.budget = budget := (list.bounds_performAll calls).2
  refine ⟨hanswers, fun key value size => ?_⟩
  obtain ⟨_, hputValid, hput⟩ := view_put hvalid key value size
  rw [hview] at hput
  refine ⟨lastList.put_drops_least key value size, ?_, ?_⟩
  · rintro ⟨b, hb, hsize⟩
    have hempty := lastList.put_oversized (hbudget.trans hb) key value hsize
    exact hputValid.keys_listing.symm.trans
      (congrArg Listing.keys ((congrArg RecencyList.entries hput).trans hempty))
  · intro before e after hsplit hgone
    refine lastList.not_fits_of_evicted hsplit ?_
    rw [← hput]
    exact Option.not_isSome_iff_eq_none.mp
      (by rw [← view_has hputValid]; exact Bool.eq_false_iff.mp hgone)

/-- With room for two entries and 1024 bytes, a read saves the older entry from the next write, and
a value larger than the budget takes everything along. -/
theorem answers_of_recencyList_budgeted :
    ∃ cache, ofBounds 2 (some 1024) = .ok cache ∧
      (CacheEngine.performAll cache
        [.put [1] [10] 600, .put [2] [20] 400, .get [1], .put [3] [30] 100, .keys, .byteSize,
          .put [4] [40] 1025, .keys]).1 =
        [.evicted false, .evicted false, .value (some [10]), .evicted true, .keys [[1], [3]],
          .count 700, .evicted true, .keys []] :=
  ⟨_, rfl, (@answers_of_recencyList 2 (some 1024) _ rfl _).1.trans (by decide)⟩

end RecencyCache

end TieredStore
