import TieredStore.Cache.RecencyTable
import TieredStore.Proofs.Cache.Listing
import TieredStore.Proofs.OrderedMap

/-!
# The recency table as a list

A recency table keeps two maps, the entries by key and the keys by tick, and a sum of sizes.
`RecencyTable.Valid` says what holds between them: the maps are inverse to each other, every tick
in use is past, and the sum is that of the entries. Each operation keeps it.

A valid table stands for its `listing`, the entries in the order of their ticks, and each operation
is told as a change of that list: `remove` takes an entry out, `insert` and a `touch` that finds its
key move one to the end, `dropOldest` removes the first, and `shrink` drops the overflow. Later
proofs do not open the two maps again, unless they are about the maps themselves.
-/

namespace TieredStore.RecencyTable

/-- The entry of a key as clients know it. -/
def lookup (t : RecencyTable) (key : Bytes) : Option HeldEntry :=
  t.entries[key]?.map fun e => ⟨key, e.value, e.size⟩

/-- The entries, the one left alone for longest first. -/
def listing (t : RecencyTable) : Listing := .of t.lookup t.keys

/-- What holds between the two maps, the ticks and the sum of sizes. -/
structure Valid (t : RecencyTable) : Prop where
  inverse : ∀ (tick : Nat) (key : Bytes),
    t.order[tick]? = some key ↔ ∃ e : RecencyEntry, t.entries[key]? = some e ∧ e.tick = tick
  past : ∀ (tick : Nat) (key : Bytes), t.order[tick]? = some key → tick < t.nextTick
  bytes : t.byteSize = Listing.bytes t.listing

variable {t : RecencyTable}

/-- The tick of an entry leads back to its key. -/
theorem Valid.order_tick (h : t.Valid) {key : Bytes} {e : RecencyEntry}
    (he : t.entries[key]? = some e) : t.order[e.tick]? = some key :=
  (h.inverse e.tick key).mpr ⟨e, he, rfl⟩

/-- The order of ticks lists every key of the table once. -/
theorem Valid.indexed (h : t.Valid) : Listing.Indexed t.lookup t.keys where
  nodup := by
    rw [keys, List.Nodup, List.pairwise_map]
    refine (OrderedMap.toList_ascending t.order).imp_of_mem ?_
    intro a b ha hb hab he
    obtain ⟨ea, hea, hta⟩ := (h.inverse _ _).mp (OrderedMap.mem_toList.mp ha)
    obtain ⟨eb, heb, htb⟩ := (h.inverse _ _).mp (OrderedMap.mem_toList.mp hb)
    rw [he, heb] at hea
    rw [← hta, ← htb, Option.some.inj hea] at hab
    cases (@Std.ReflCmp.compare_self Nat compare _ _).symm.trans hab
  mem key := by
    rw [lookup, Option.isSome_map, keys, List.mem_map]
    constructor
    · rintro ⟨p, hp, rfl⟩
      obtain ⟨e, he, _⟩ := (h.inverse _ _).mp (OrderedMap.mem_toList.mp hp)
      rw [he]
      rfl
    · intro hk
      obtain ⟨e, he⟩ := Option.isSome_iff_exists.mp hk
      exact ⟨(e.tick, key), OrderedMap.mem_toList.mpr (h.order_tick he), rfl⟩
  named key e he := by
    obtain ⟨r, _, rfl⟩ := Option.map_eq_some_iff.mp he
    rfl

/-- The listing has the keys in the order of their ticks. -/
theorem Valid.keys_listing (h : t.Valid) : Listing.keys t.listing = t.keys :=
  Listing.keys_of h.indexed

/-- A key has one tick, so it is listed once. -/
theorem Valid.nodup (h : t.Valid) : (Listing.keys t.listing).Nodup :=
  h.keys_listing ▸ h.indexed.nodup

/-- The listing has for each key what the map of entries has. -/
theorem Valid.find_listing (h : t.Valid) (key : Bytes) :
    Listing.find t.listing key = t.lookup key :=
  Listing.find_of h.indexed key

theorem Valid.find_of_present (h : t.Valid) {key : Bytes} {e : RecencyEntry}
    (he : t.entries[key]? = some e) :
    Listing.find t.listing key = some ⟨key, e.value, e.size⟩ := by
  rw [h.find_listing, lookup, he]
  rfl

theorem Valid.notMem_of_absent (h : t.Valid) {key : Bytes} (absent : t.entries[key]? = none) :
    key ∉ t.keys := by
  rw [h.indexed.mem, lookup, absent]
  exact Bool.false_ne_true

/-- The two maps and the listing are of one size. -/
theorem Valid.size_entries (h : t.Valid) : t.entries.size = t.listing.length := by
  rw [← Listing.length_keys, h.keys_listing]
  refine OrderedMap.size_eq_length h.indexed.nodup fun key => ?_
  rw [h.indexed.mem, lookup, Option.isSome_map]

theorem Valid.length_listing (h : t.Valid) : t.listing.length = t.order.size := by
  rw [← Listing.length_keys, h.keys_listing, keys, List.length_map, Std.TreeMap.length_toList]

/-- Tables with equal orders, look-ups and counters stand for the same list. -/
theorem Valid.congr {u : RecencyTable} (h : t.Valid) (order : u.order = t.order)
    (entries : ∀ key : Bytes, u.entries[key]? = t.entries[key]?) (nextTick : u.nextTick = t.nextTick)
    (byteSize : u.byteSize = t.byteSize) : u.Valid ∧ u.listing = t.listing := by
  have hlookup : u.lookup = t.lookup := funext fun key => by rw [lookup, entries, ← lookup]
  have hlisting : u.listing = t.listing := by rw [listing, listing, hlookup, keys, keys, order]
  refine ⟨⟨?_, ?_, by rw [byteSize, hlisting, h.bytes]⟩, hlisting⟩
  · intro tick key
    rw [order, entries, h.inverse]
  · intro tick key hk
    rw [nextTick]
    exact h.past tick key (order ▸ hk)

theorem valid_empty : empty.Valid where
  inverse tick key := by simp [empty]
  past tick key hk := by simp [empty] at hk
  bytes := rfl

/-- A table that was emptied keeps its ticks, which remain past. -/
theorem valid_clear (t : RecencyTable) : t.clear.Valid where
  inverse tick key := by simp [clear]
  past tick key hk := by simp [clear] at hk
  bytes := rfl

/-! ## Removing -/

theorem remove_of_absent {key : Bytes} (h : t.entries[key]? = none) : t.remove key = t := by
  simp only [remove, h]

/-- A removal takes the key out of one map and its tick out of the other. -/
theorem remove_of_present {key : Bytes} {e : RecencyEntry} (h : t.entries[key]? = some e) :
    t.remove key =
      { t with
        entries := t.entries.erase key
        order := t.order.erase e.tick
        byteSize := t.byteSize - e.size } := by
  simp only [remove, h]

theorem nextTick_remove (t : RecencyTable) (key : Bytes) :
    (t.remove key).nextTick = t.nextTick := by
  cases h : t.entries[key]? with
  | none => rw [remove_of_absent h]
  | some e => rw [remove_of_present h]

/-- A removal is seen at its key only. -/
theorem entries_remove (t : RecencyTable) (key k : Bytes) :
    (t.remove key).entries[k]? = if key = k then none else t.entries[k]? := by
  cases h : t.entries[key]? with
  | none =>
    rw [remove_of_absent h]
    split
    · next hk => rw [← hk, h]
    · rfl
  | some e =>
    rw [remove_of_present h]
    exact OrderedMap.getElem?_erase t.entries key k

/-- In the order too, as no other key has the tick that goes. -/
theorem Valid.order_remove (h : t.Valid) (key : Bytes) (tick : Nat) (k : Bytes) :
    (t.remove key).order[tick]? = some k ↔ k ≠ key ∧ t.order[tick]? = some k := by
  cases hk : t.entries[key]? with
  | none =>
    rw [remove_of_absent hk]
    refine ⟨fun ho => ⟨?_, ho⟩, And.right⟩
    rintro rfl
    obtain ⟨e, he, _⟩ := (h.inverse _ _).mp ho
    cases hk.symm.trans he
  | some e =>
    have own := h.order_tick hk
    rw [remove_of_present hk]
    show (t.order.erase e.tick)[tick]? = some k ↔ _
    rw [OrderedMap.getElem?_erase]
    by_cases ht : e.tick = tick
    · subst ht
      rw [if_pos rfl, own]
      simp [eq_comm]
    · rw [if_neg ht]
      refine ⟨fun ho => ⟨?_, ho⟩, And.right⟩
      rintro rfl
      obtain ⟨e', he', ht'⟩ := (h.inverse _ _).mp ho
      rw [hk] at he'
      exact ht (Option.some.inj he' ▸ ht')

theorem Valid.keys_remove (h : t.Valid) (key : Bytes) :
    (t.remove key).keys = t.keys.filter fun k => k ≠ key := by
  cases hk : t.entries[key]? with
  | none =>
    rw [remove_of_absent hk]
    refine (List.filter_eq_self.mpr fun k hmem => decide_eq_true ?_).symm
    exact fun he : k = key => h.notMem_of_absent hk (he ▸ hmem)
  | some e =>
    rw [remove_of_present hk, keys, keys, List.filter_map]
    refine congrArg _ ((OrderedMap.toList_erase t.order e.tick).trans (List.filter_congr ?_))
    intro p hp
    have hp := OrderedMap.mem_toList.mp hp
    -- a tick is the entry's own just when the key under it is the entry's
    have same : p.1 = e.tick ↔ p.2 = key := by
      constructor
      · intro ht
        rw [ht, h.order_tick hk] at hp
        exact (Option.some.inj hp).symm
      · intro hkey
        obtain ⟨e', he', ht'⟩ := (h.inverse _ _).mp hp
        rw [hkey, hk] at he'
        rw [← ht', Option.some.inj he']
    simp only [Function.comp_apply, ne_eq, same]

/-- To a client a removal takes the entry out and leaves the order of the others. -/
theorem Valid.listing_remove (h : t.Valid) (key : Bytes) :
    (t.remove key).listing = Listing.without t.listing key := by
  rw [listing, h.keys_remove]
  refine Listing.of_erase h.indexed fun k hne => ?_
  rw [lookup, lookup, entries_remove, if_neg hne]

/-- The maps fit together after a removal, and the sum has lost the size that went. -/
theorem Valid.remove (h : t.Valid) (key : Bytes) : (t.remove key).Valid where
  inverse tick k := by
    rw [h.order_remove, h.inverse, entries_remove]
    by_cases hk : key = k
    · subst hk
      simp
    · simp [hk, Ne.symm hk]
  past tick k hk := by
    rw [nextTick_remove]
    exact h.past tick k ((h.order_remove key tick k).mp hk).2
  bytes := by
    rw [h.listing_remove]
    cases hk : t.entries[key]? with
    | none =>
      have absent : key ∉ Listing.keys t.listing := h.keys_listing.symm ▸ h.notMem_of_absent hk
      rw [remove_of_absent hk, Listing.without_of_notMem absent, h.bytes]
    | some e =>
      rw [remove_of_present hk]
      show t.byteSize - e.size = _
      rw [h.bytes, Listing.bytes_without h.nodup (h.find_of_present hk), Nat.add_sub_cancel]

/-! ## Using -/

/-- The table with an absent key written at the end of the order. -/
def append (t : RecencyTable) (key value : Bytes) (size : Nat) : RecencyTable where
  entries := t.entries.insert key ⟨value, size, t.nextTick⟩
  order := t.order.insert t.nextTick key
  nextTick := t.nextTick + 1
  byteSize := t.byteSize + size

/-- A write removes what it replaces, so what is left to look at is the arrival of an absent key. -/
theorem insert_eq_append (t : RecencyTable) (key value : Bytes) (size : Nat) :
    t.insert key value size = (t.remove key).append key value size := by
  rw [insert, append, nextTick_remove]

/-- An arrival is seen at its key only. -/
theorem lookup_append (t : RecencyTable) (key value : Bytes) (size : Nat) (k : Bytes) :
    (t.append key value size).lookup k =
      if key = k then some ⟨key, value, size⟩ else t.lookup k := by
  rw [lookup, append, OrderedMap.getElem?_insert]
  split
  · next hk => rw [Option.map_some, hk]
  · rfl

/-- The tick of an arrival is the next one, so its key comes last. -/
theorem Valid.keys_append (h : t.Valid) (key value : Bytes) (size : Nat) :
    (t.append key value size).keys = t.keys ++ [key] := by
  have last := OrderedMap.toList_insert_last t.order t.nextTick key
    fun tick k hk => Nat.compare_eq_lt.mpr (h.past tick k hk)
  rw [keys, append, last, List.map_append]
  rfl

/-- To a client an arrival is an entry at the end. -/
theorem Valid.listing_append (h : t.Valid) {key : Bytes} (absent : key ∉ t.keys) (value : Bytes)
    (size : Nat) : (t.append key value size).listing = t.listing ++ [⟨key, value, size⟩] := by
  rw [listing, h.keys_append]
  exact Listing.of_insert ⟨key, value, size⟩ absent (t.lookup_append key value size)

/-- The maps fit together after an arrival, and the tick given out is past. -/
theorem Valid.append (h : t.Valid) {key : Bytes} (absent : key ∉ t.keys) (value : Bytes)
    (size : Nat) : (t.append key value size).Valid where
  inverse tick k := by
    have unheld : t.entries[key]? = none := by
      rw [h.indexed.mem, lookup, Option.isSome_map] at absent
      exact Option.not_isSome_iff_eq_none.mp absent
    have unused : t.order[t.nextTick]? = none :=
      Option.eq_none_iff_forall_ne_some.mpr fun k hk => Nat.lt_irrefl _ (h.past _ k hk)
    rw [RecencyTable.append, OrderedMap.getElem?_insert, OrderedMap.getElem?_insert]
    by_cases ht : t.nextTick = tick
    · rw [if_pos ht]
      by_cases hk : key = k
      · simp [hk, ht]
      · -- no older entry has the new tick
        simp only [Option.some.injEq, hk, false_iff, not_exists, not_and]
        intro e he heq
        rw [ht, ← heq, h.order_tick he] at unused
        cases unused
    · rw [if_neg ht, h.inverse]
      by_cases hk : key = k
      · simp [← hk, unheld, ht]
      · rw [if_neg hk]
  past tick k hk := by
    rw [RecencyTable.append, OrderedMap.getElem?_insert] at hk
    show tick < t.nextTick + 1
    split at hk
    · next ht => exact ht ▸ Nat.lt_succ_self _
    · exact Nat.lt_succ_of_lt (h.past tick k hk)
  bytes := by
    rw [h.listing_append absent, Listing.bytes_append, ← h.bytes]
    rfl

theorem Valid.notMem_remove (h : t.Valid) (key : Bytes) : key ∉ (t.remove key).keys := by
  rw [h.keys_remove, List.mem_filter]
  exact fun hk => of_decide_eq_true hk.2 rfl

/-- A write keeps the table valid, whether or not the key was there. -/
theorem Valid.insert (h : t.Valid) (key value : Bytes) (size : Nat) :
    (t.insert key value size).Valid := by
  rw [insert_eq_append]
  exact (h.remove key).append (h.notMem_remove key) value size

/-- Writing a key takes its entry out and adds the new one at the end. -/
theorem Valid.listing_insert (h : t.Valid) (key value : Bytes) (size : Nat) :
    (t.insert key value size).listing =
      Listing.without t.listing key ++ [⟨key, value, size⟩] := by
  rw [insert_eq_append, (h.remove key).listing_append (h.notMem_remove key), h.listing_remove]

/-- A miss changes no entry, but it takes a tick. -/
theorem touch_of_absent {key : Bytes} (h : t.entries[key]? = none) :
    t.touch key = (none, { t with nextTick := t.nextTick + 1 }) := by
  simp only [touch, h]

/-- A read that finds nothing changes neither map. -/
theorem Valid.touch_absent (h : t.Valid) {key : Bytes} (absent : t.entries[key]? = none) :
    (t.touch key).1 = none ∧ (t.touch key).2.Valid ∧ (t.touch key).2.listing = t.listing := by
  rw [touch_of_absent absent]
  exact ⟨rfl, ⟨h.inverse, fun tick k hk => Nat.lt_succ_of_lt (h.past tick k hk), h.bytes⟩, rfl⟩

/-- A read that finds its key finds the key under its tick, too, and moves it. -/
theorem Valid.order_touch (h : t.Valid) {key : Bytes} {e : RecencyEntry}
    (he : t.entries[key]? = some e) :
    (t.touch key).2.order = (t.order.erase e.tick).insert t.nextTick key := by
  simp only [touch, he, moveTick, h.order_tick he]

/-- A read that finds its key is a write of what is already there. -/
theorem Valid.touch_present (h : t.Valid) {key : Bytes} {e : RecencyEntry}
    (he : t.entries[key]? = some e) :
    (t.touch key).1 = some e.value ∧ (t.touch key).2.Valid ∧
      (t.touch key).2.listing = Listing.without t.listing key ++ [⟨key, e.value, e.size⟩] := by
  have hbytes : t.byteSize = t.byteSize - e.size + e.size := by
    rw [h.bytes, Listing.bytes_without h.nodup (h.find_of_present he), Nat.add_sub_cancel]
  have same : (t.touch key).2.Valid ∧
      (t.touch key).2.listing = (t.insert key e.value e.size).listing := by
    refine (h.insert key e.value e.size).congr ?_ (fun k => ?_) ?_ ?_
    · rw [h.order_touch he]
      simp only [RecencyTable.insert, remove_of_present he]
    · simp only [touch, he, RecencyTable.insert, remove_of_present he, OrderedMap.getElem?_insert,
        OrderedMap.getElem?_erase]
      by_cases hk : key = k
      · rw [if_pos hk, if_pos hk]
      · rw [if_neg hk, if_neg hk, if_neg hk]
    · simp only [touch, he, RecencyTable.insert]
    · simp only [touch, he, RecencyTable.insert, remove_of_present he]
      exact hbytes
  refine ⟨?_, same.1, same.2.trans (h.listing_insert key e.value e.size)⟩
  simp only [touch, he]

/-! ## Evicting -/

/-- The oldest key is the first one of the order. -/
theorem oldest?_eq (t : RecencyTable) : t.oldest? = t.order.toList.head? := by
  cases hl : t.order.toList with
  | nil => simp [oldest?, OrderedMap.minKey?_eq, hl]
  | cons p rest =>
    have hp : t.order[p.1]? = some p.2 := OrderedMap.mem_toList.mp (hl ▸ List.mem_cons_self)
    simp [oldest?, OrderedMap.minKey?_eq, hl, hp]

/-- The oldest tick leads to an entry, so an eviction finds what it looks for. -/
theorem Valid.first_found (h : t.Valid) {p : Nat × Bytes} {rest : List (Nat × Bytes)}
    (hl : t.order.toList = p :: rest) : ∃ e, t.entries[p.2]? = some e ∧ e.tick = p.1 :=
  (h.inverse _ _).mp (OrderedMap.mem_toList.mp (hl ▸ List.mem_cons_self))

/-- Evicting the oldest key is removing the first one. -/
theorem Valid.dropOldest_eq (h : t.Valid) : t.dropOldest = t.keys.head?.map t.remove := by
  cases hl : t.order.toList with
  | nil => simp [dropOldest, oldest?_eq, keys, hl]
  | cons p rest =>
    obtain ⟨e, he, ht⟩ := h.first_found hl
    simp [dropOldest, oldest?_eq, keys, hl, he, ht, remove_of_present he]

/-- The oldest key's table, where there is one. -/
theorem Valid.dropOldest_cons (h : t.Valid) {e : HeldEntry} {rest : Listing}
    (hl : t.listing = e :: rest) :
    ∃ u, t.dropOldest = some u ∧ u.Valid ∧ u.listing = rest := by
  have hkeys : t.keys = e.key :: Listing.keys rest := by rw [← h.keys_listing, hl]; rfl
  have hnodup := h.nodup
  rw [hl] at hnodup
  refine ⟨t.remove e.key, by rw [h.dropOldest_eq, hkeys]; rfl, h.remove e.key, ?_⟩
  rw [h.listing_remove, hl, Listing.without_head hnodup]

/-- There is nothing to evict from a table without entries. -/
theorem Valid.dropOldest_nil (h : t.Valid) (hl : t.listing = []) : t.dropOldest = none := by
  rw [h.dropOldest_eq, ← h.keys_listing, hl]
  rfl

/-- Evicting while a bound is exceeded drops the overflow and counts it. The allowance of steps is
never what ends it, as each eviction shortens the list. -/
theorem Valid.shrink {exceeds : RecencyTable → Bool} {fits : Listing → Bool}
    (bound : ∀ u : RecencyTable, u.Valid → exceeds u = !fits u.listing) :
    ∀ (fuel : Nat) (t : RecencyTable), t.Valid → t.listing.length ≤ fuel →
      (shrink exceeds fuel t).1 = Listing.overflow fits t.listing ∧
        (shrink exceeds fuel t).2.Valid ∧
          (shrink exceeds fuel t).2.listing =
            t.listing.drop (Listing.overflow fits t.listing) := by
  intro fuel
  induction fuel with
  | zero =>
    intro t h hlen
    have hl : t.listing = [] := List.eq_nil_of_length_eq_zero (Nat.le_zero.mp hlen)
    rw [RecencyTable.shrink, hl]
    exact ⟨rfl, h, rfl⟩
  | succ fuel ih =>
    intro t h hlen
    rw [RecencyTable.shrink, bound t h]
    cases hl : t.listing with
    | nil =>
      rw [h.dropOldest_nil hl, ite_self]
      exact ⟨rfl, h, hl⟩
    | cons e rest =>
      by_cases hfits : fits (e :: rest) = true
      · simp only [hfits, Bool.not_true, Bool.false_eq_true, if_false, Listing.overflow, if_true]
        exact ⟨trivial, h, hl⟩
      · obtain ⟨u, hu, hvalid, hrest⟩ := h.dropOldest_cons hl
        have hshort : u.listing.length ≤ fuel := by
          rw [hl, List.length_cons] at hlen
          rw [hrest]
          exact Nat.le_of_succ_le_succ hlen
        obtain ⟨hcount, hlast, hlist⟩ := ih u hvalid hshort
        simp only [Bool.not_eq_true] at hfits
        simp only [hfits, Bool.not_false, if_true, hu, Listing.overflow, Bool.false_eq_true,
          if_false, hcount, hrest, List.drop_succ_cons]
        exact ⟨trivial, hlast, by rw [hlist, hrest]⟩

end TieredStore.RecencyTable
