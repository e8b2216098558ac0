import TieredStore.Cache.ArrivalQueue
import TieredStore.Proofs.Cache.Listing
import TieredStore.Proofs.Counter
import TieredStore.Proofs.OrderedMap

/-!
# The arrival queue as a list

An arrival queue keeps a map of entries and a list of arrivals, of which those of removed entries
are stale. `ArrivalQueue.Valid` says what holds between them: the numbers of the arrivals ascend and
are past, the arrival that brought an entry in is in the list, and the counter counts the sizes of
the entries. Each operation keeps it.

A valid queue stands for its `listing`, the entries in the order of their live arrivals. A key that
comes in again gets a new number, so its older arrivals stay stale; that is why an arrival is live
for one entry only and dropping stale ones (`dropStale`) does not change the list.
-/

namespace TieredStore.ArrivalQueue

/-- The entry of a key as clients know it. -/
def lookup (q : ArrivalQueue) (key : Bytes) : Option HeldEntry :=
  q.entries[key]?.map fun e => ⟨key, e.value, e.size⟩

/-- The entries, the one that arrived first at the front. -/
def listing (q : ArrivalQueue) : Listing := .of q.lookup q.keys

/-- What holds between the entries, the arrivals and the counter. -/
structure Valid (q : ArrivalQueue) : Prop where
  ascending : q.order.Pairwise fun a b => a.1 < b.1
  past : ∀ a ∈ q.order, a.1 < q.nextSeq
  arrived : ∀ (key : Bytes) (e : ArrivalEntry), q.entries[key]? = some e → (e.seq, key) ∈ q.order
  bytes : q.byteSize.Counts (Listing.bytes q.listing)

/-- The keys of the live ones among some arrivals. -/
def liveKeys (entries : Std.TreeMap Bytes ArrivalEntry) (order : List (Nat × Bytes)) : List Bytes :=
  (order.filter (isLive entries)).map Prod.snd

theorem keys_eq_liveKeys (q : ArrivalQueue) : q.keys = liveKeys q.entries q.order := rfl

/-- An arrival is live if the entry of its key is the one that it brought in. -/
theorem isLive_iff {entries : Std.TreeMap Bytes ArrivalEntry} {a : Nat × Bytes} :
    isLive entries a = true ↔ ∃ e : ArrivalEntry, entries[a.2]? = some e ∧ e.seq = a.1 := by
  simp only [isLive, Option.any_eq_true, beq_iff_eq]

variable {q : ArrivalQueue}

/-- The live arrivals list every key of the queue once. -/
theorem Valid.indexed (h : q.Valid) : Listing.Indexed q.lookup q.keys where
  nodup := by
    rw [keys, List.Nodup, List.pairwise_map]
    refine (h.ascending.filter _).imp_of_mem ?_
    intro a b ha hb hab he
    obtain ⟨ea, hea, hsa⟩ := isLive_iff.mp (List.mem_filter.mp ha).2
    obtain ⟨eb, heb, hsb⟩ := isLive_iff.mp (List.mem_filter.mp hb).2
    rw [he, heb] at hea
    rw [← hsa, ← hsb, Option.some.inj hea] at hab
    exact Nat.lt_irrefl _ hab
  mem key := by
    rw [lookup, Option.isSome_map, keys, List.mem_map]
    constructor
    · rintro ⟨a, ha, rfl⟩
      obtain ⟨e, he, _⟩ := isLive_iff.mp (List.mem_filter.mp ha).2
      rw [he]
      rfl
    · intro hk
      obtain ⟨e, he⟩ := Option.isSome_iff_exists.mp hk
      have hlive : isLive q.entries (e.seq, key) = true := isLive_iff.mpr ⟨e, he, rfl⟩
      exact ⟨(e.seq, key), List.mem_filter.mpr ⟨h.arrived key e he, hlive⟩, rfl⟩
  named key e he := by
    obtain ⟨r, _, rfl⟩ := Option.map_eq_some_iff.mp he
    rfl

/-- The listing has the keys in the order of their live arrivals. -/
theorem Valid.keys_listing (h : q.Valid) : Listing.keys q.listing = q.keys :=
  Listing.keys_of h.indexed

/-- A key has one live arrival, so it is listed once. -/
theorem Valid.nodup (h : q.Valid) : (Listing.keys q.listing).Nodup :=
  h.keys_listing ▸ h.indexed.nodup

/-- The listing has for each key what the map of entries has. -/
theorem Valid.find_listing (h : q.Valid) (key : Bytes) :
    Listing.find q.listing key = q.lookup key :=
  Listing.find_of h.indexed key

theorem Valid.find_of_present (h : q.Valid) {key : Bytes} {e : ArrivalEntry}
    (he : q.entries[key]? = some e) :
    Listing.find q.listing key = some ⟨key, e.value, e.size⟩ := by
  rw [h.find_listing, lookup, he]
  rfl

theorem Valid.notMem_of_absent (h : q.Valid) {key : Bytes} (absent : q.entries[key]? = none) :
    key ∉ q.keys := by
  rw [h.indexed.mem, lookup, absent]
  exact Bool.false_ne_true

/-- There are as many entries as live arrivals. -/
theorem Valid.size_entries (h : q.Valid) : q.entries.size = q.listing.length := by
  rw [← Listing.length_keys, h.keys_listing]
  refine OrderedMap.size_eq_length h.indexed.nodup fun key => ?_
  rw [h.indexed.mem, lookup, Option.isSome_map]

/-- A value is looked up in the map, which has what the listing has. -/
theorem Valid.peek_eq (h : q.Valid) (key : Bytes) : q.peek key = Listing.value q.listing key := by
  rw [Listing.value, h.find_listing, lookup, Option.map_map]
  rfl

theorem Valid.has_eq (h : q.Valid) (key : Bytes) :
    q.has key = (Listing.find q.listing key).isSome := by
  rw [h.find_listing, lookup, Option.isSome_map, has, Std.TreeMap.contains_eq_isSome_getElem?]

theorem valid_empty (capacity : Nat) : (empty capacity).Valid where
  ascending := List.Pairwise.nil
  past a ha := absurd ha List.not_mem_nil
  arrived key e he := by simp [empty] at he
  bytes := Counter.counts_zero

/-- An emptied queue has no arrivals, so what it had given out is past. -/
theorem valid_clear (q : ArrivalQueue) : q.clear.Valid where
  ascending := List.Pairwise.nil
  past a ha := absurd ha List.not_mem_nil
  arrived key e he := by simp [clear] at he
  bytes := Counter.counts_zero

/-! ## Entries that go -/

/-- Without an entry its arrival is stale, and no other changes. -/
theorem liveKeys_erase (entries : Std.TreeMap Bytes ArrivalEntry) (order : List (Nat × Bytes))
    (key : Bytes) :
    liveKeys (entries.erase key) order = (liveKeys entries order).filter fun k => k ≠ key := by
  rw [liveKeys, liveKeys, List.filter_map, List.filter_filter]
  refine congrArg _ (List.filter_congr fun a _ => ?_)
  rw [isLive, isLive, OrderedMap.getElem?_erase]
  by_cases hk : key = a.2
  · simp [← hk]
  · simp [hk, Ne.symm hk]

/-- Dropping stale arrivals changes nothing that a client sees. -/
theorem Valid.restrict (h : q.Valid) {order : List (Nat × Bytes)} (sub : order.Sublist q.order)
    (live : order.filter (isLive q.entries) = q.order.filter (isLive q.entries)) :
    ({ q with order } : ArrivalQueue).Valid ∧
      ({ q with order } : ArrivalQueue).listing = q.listing := by
  have hlisting : ({ q with order } : ArrivalQueue).listing = q.listing :=
    congrArg (Listing.of q.lookup) (congrArg (List.map Prod.snd) live)
  refine ⟨⟨h.ascending.sublist sub, fun a ha => h.past a (sub.mem ha), ?_, ?_⟩, hlisting⟩
  · intro key e he
    have hmem : (e.seq, key) ∈ q.order.filter (isLive q.entries) :=
      List.mem_filter.mpr ⟨h.arrived key e he, isLive_iff.mpr ⟨e, he, rfl⟩⟩
    rw [← live] at hmem
    exact (List.mem_filter.mp hmem).1
  · rw [hlisting]
    exact h.bytes

/-- What is left are the live arrivals, so the listing is as it was. -/
theorem Valid.dropStale (h : q.Valid) : q.dropStale.Valid ∧ q.dropStale.listing = q.listing := by
  refine h.restrict List.filter_sublist ?_
  rw [List.filter_filter]
  simp only [Bool.and_self]

/-- The queue without the entry of a key, whose arrival stays behind. -/
def forget (q : ArrivalQueue) (key : Bytes) (e : ArrivalEntry) : ArrivalQueue :=
  { q with entries := q.entries.erase key, byteSize := q.byteSize.sub e.size }

/-- Without an entry its arrival is stale, and the sum has lost its size. -/
theorem Valid.forget (h : q.Valid) {key : Bytes} {e : ArrivalEntry}
    (he : q.entries[key]? = some e) :
    (q.forget key e).Valid ∧ (q.forget key e).listing = Listing.without q.listing key := by
  have hlisting : (q.forget key e).listing = Listing.without q.listing key := by
    rw [listing, keys_eq_liveKeys, ArrivalQueue.forget, liveKeys_erase]
    refine Listing.of_erase h.indexed fun k hne => ?_
    rw [lookup, lookup, OrderedMap.getElem?_erase, if_neg hne]
  refine ⟨⟨h.ascending, h.past, ?_, ?_⟩, hlisting⟩
  · intro k e' he'
    rw [ArrivalQueue.forget, OrderedMap.getElem?_erase] at he'
    split at he'
    · cases he'
    · exact h.arrived k e' he'
  · have hbytes := h.bytes
    rw [Listing.bytes_without h.nodup (h.find_of_present he)] at hbytes
    rw [hlisting]
    exact hbytes.sub

theorem remove_of_absent {key : Bytes} (h : q.entries[key]? = none) : q.remove key = q := by
  simp only [remove, h]

/-- A removal forgets the entry, and past the threshold it drops the stale arrivals too. -/
theorem remove_of_present {key : Bytes} {e : ArrivalEntry} (h : q.entries[key]? = some e) :
    q.remove key =
      if q.threshold < q.order.length then (q.forget key e).dropStale else q.forget key e := by
  simp only [remove, h]
  rfl

/-- Removing takes the key's entry out, whether or not the stale arrivals are dropped with it. -/
theorem Valid.remove (h : q.Valid) (key : Bytes) :
    (q.remove key).Valid ∧ (q.remove key).listing = Listing.without q.listing key := by
  cases he : q.entries[key]? with
  | none =>
    have absent : key ∉ Listing.keys q.listing := h.keys_listing.symm ▸ h.notMem_of_absent he
    rw [remove_of_absent he, Listing.without_of_notMem absent]
    exact ⟨h, rfl⟩
  | some e =>
    obtain ⟨hvalid, hlisting⟩ := h.forget he
    rw [remove_of_present he]
    split
    · exact ⟨hvalid.dropStale.1, hvalid.dropStale.2.trans hlisting⟩
    · exact ⟨hvalid, hlisting⟩

theorem capacity_remove (q : ArrivalQueue) (key : Bytes) :
    (q.remove key).capacity = q.capacity := by
  cases he : q.entries[key]? with
  | none => rw [remove_of_absent he]
  | some e =>
    rw [remove_of_present he]
    split <;> rfl

/-- A removal takes off and never adds. -/
theorem wrapped_remove (q : ArrivalQueue) (key : Bytes) :
    (q.remove key).byteSize.wrapped = q.byteSize.wrapped := by
  cases he : q.entries[key]? with
  | none => rw [remove_of_absent he]
  | some e =>
    rw [remove_of_present he]
    split <;> rfl

/-! ## Evicting -/

/-- The oldest live arrival, where there is one: everything before it is stale. -/
theorem splitOldest_spec (entries : Std.TreeMap Bytes ArrivalEntry) (order : List (Nat × Bytes)) :
    (∀ a ∈ order, isLive entries a = false) ∧ splitOldest entries order = none ∨
      ∃ stale a rest e, order = stale ++ a :: rest ∧ (∀ b ∈ stale, isLive entries b = false) ∧
        entries[a.2]? = some e ∧ e.seq = a.1 ∧
          splitOldest entries order = some (entries.erase a.2, rest, e.size) := by
  induction order with
  | nil => exact .inl ⟨fun a ha => absurd ha List.not_mem_nil, rfl⟩
  | cons b rest ih =>
    cases hlive : isLive entries b with
    | true =>
      obtain ⟨e, he, hseq⟩ := isLive_iff.mp hlive
      refine .inr ⟨[], b, rest, e, rfl, fun a ha => absurd ha List.not_mem_nil, he, hseq, ?_⟩
      simp only [splitOldest, he, hseq, beq_self_eq_true, if_true]
    | false =>
      have skip : splitOldest entries (b :: rest) = splitOldest entries rest := by
        rw [splitOldest]
        split
        · next e he =>
          rw [if_neg fun hseq => ?_]
          rw [isLive_iff.mpr ⟨e, he, eq_of_beq hseq⟩] at hlive
          cases hlive
        · rfl
      have first : ∀ stale : List (Nat × Bytes), (∀ a ∈ stale, isLive entries a = false) →
          ∀ a ∈ b :: stale, isLive entries a = false := by
        intro stale hstale a ha
        rcases List.mem_cons.mp ha with rfl | ha
        · exact hlive
        · exact hstale a ha
      rw [skip]
      rcases ih with ⟨hstale, hnone⟩ | ⟨stale, a, later, e, rfl, hstale, he, hseq, hsome⟩
      · exact .inl ⟨first rest hstale, hnone⟩
      · exact .inr ⟨b :: stale, a, later, e, rfl, first stale hstale, he, hseq, hsome⟩

/-- Among stale arrivals none is live. -/
theorem filter_dead {entries : Std.TreeMap Bytes ArrivalEntry} {order : List (Nat × Bytes)}
    (dead : ∀ a ∈ order, isLive entries a = false) : order.filter (isLive entries) = [] :=
  List.filter_eq_nil_iff.mpr fun a ha => Bool.eq_false_iff.mp (dead a ha)

/-- With the entry of the first live arrival gone, nothing up to that arrival is live. -/
theorem filter_erase_after {entries : Std.TreeMap Bytes ArrivalEntry}
    {stale later : List (Nat × Bytes)} {a : Nat × Bytes}
    (dead : ∀ b ∈ stale, isLive entries b = false) :
    later.filter (isLive (entries.erase a.2)) =
      (stale ++ a :: later).filter (isLive (entries.erase a.2)) := by
  have dead' : ∀ b ∈ stale ++ [a], isLive (entries.erase a.2) b = false := by
    intro b hb
    rw [isLive, OrderedMap.getElem?_erase]
    split
    · rfl
    · next hne =>
      rcases List.mem_append.mp hb with hb | hb
      · exact dead b hb
      · exact absurd (congrArg Prod.snd (List.mem_singleton.mp hb)).symm hne
  rw [List.append_cons, List.filter_append, filter_dead dead', List.nil_append]

/-- Evicting from a queue with entries takes the first one out. -/
theorem Valid.dropOldest (h : q.Valid) {first : HeldEntry} {rest : Listing}
    (hl : q.listing = first :: rest) :
    ∃ u, q.dropOldest = (true, u) ∧ u.Valid ∧ u.listing = rest ∧ u.capacity = q.capacity := by
  have hkeys : liveKeys q.entries q.order = first.key :: Listing.keys rest := by
    rw [← keys_eq_liveKeys, ← h.keys_listing, hl]
    rfl
  rcases splitOldest_spec q.entries q.order with
    ⟨hdead, _⟩ | ⟨stale, a, later, e, horder, hdead, he, hseq, hsplit⟩
  · -- a queue with a key has a live arrival
    rw [liveKeys, filter_dead hdead] at hkeys
    cases hkeys
  · have hkey : a.2 = first.key := by
      rw [horder, liveKeys, List.filter_append, filter_dead hdead, List.nil_append,
        List.filter_cons_of_pos (isLive_iff.mpr ⟨e, he, hseq⟩)] at hkeys
      exact (List.cons.inj hkeys).1
    have hlater : later.filter (isLive (q.forget a.2 e).entries) =
        (q.forget a.2 e).order.filter (isLive (q.forget a.2 e).entries) := by
      show _ = q.order.filter _
      rw [horder]
      exact filter_erase_after hdead
    have hsub : later.Sublist (q.forget a.2 e).order := by
      show later.Sublist q.order
      rw [horder, List.append_cons]
      exact List.sublist_append_right _ _
    have hnodup := h.nodup
    obtain ⟨hvalid, hlisting⟩ := h.forget he
    obtain ⟨hvalid', hlisting'⟩ := hvalid.restrict hsub hlater
    refine ⟨_, ?_, hvalid', ?_, rfl⟩
    · simp only [ArrivalQueue.dropOldest, hsplit]
      rfl
    · rw [hl] at hnodup
      rw [hlisting', hlisting, hl, hkey, Listing.without_head hnodup]

/-- Evicting while there are more entries than the capacity leaves the last ones, as many as the
capacity. The allowance of steps is never what ends it. -/
theorem Valid.shrink :
    ∀ (fuel : Nat) (q : ArrivalQueue), q.Valid → q.listing.length ≤ fuel →
      (shrink fuel q).1 = decide (q.capacity < q.listing.length) ∧ (shrink fuel q).2.Valid ∧
        (shrink fuel q).2.listing = q.listing.drop (q.listing.length - q.capacity) ∧
          (shrink fuel q).2.capacity = q.capacity := by
  intro fuel
  induction fuel with
  | zero =>
    intro q h hlen
    have hl : q.listing = [] := List.eq_nil_of_length_eq_zero (Nat.le_zero.mp hlen)
    rw [ArrivalQueue.shrink, hl]
    exact ⟨rfl, h, List.drop_nil.symm, rfl⟩
  | succ fuel ih =>
    intro q h hlen
    rw [ArrivalQueue.shrink, h.size_entries]
    by_cases hover : q.capacity < q.listing.length
    · rw [if_pos hover]
      cases hl : q.listing with
      | nil => rw [hl] at hover; cases hover
      | cons first rest =>
        obtain ⟨u, hu, hvalid, hrest, hcapacity⟩ := h.dropOldest hl
        rw [hl, List.length_cons] at hlen hover
        obtain ⟨_, hlast, hlisting, hcapacity'⟩ :=
          ih u hvalid (by rw [hrest]; exact Nat.le_of_succ_le_succ hlen)
        have hsub : rest.length + 1 - q.capacity = rest.length - q.capacity + 1 := by omega
        rw [hrest, hcapacity] at hlisting
        simp only [hu, List.length_cons, hover, decide_true, hlisting, hsub, List.drop_succ_cons]
        exact ⟨trivial, hlast, trivial, hcapacity'.trans hcapacity⟩
    · rw [if_neg hover, decide_eq_false hover, Nat.sub_eq_zero_of_le (Nat.le_of_not_lt hover)]
      exact ⟨rfl, h, rfl, rfl⟩

/-- Evicting takes off and never adds. -/
theorem wrapped_shrink (fuel : Nat) :
    ∀ q : ArrivalQueue, (shrink fuel q).2.byteSize.wrapped = q.byteSize.wrapped := by
  have hdrop : ∀ q : ArrivalQueue, q.dropOldest.2.byteSize.wrapped = q.byteSize.wrapped := by
    intro q
    unfold ArrivalQueue.dropOldest
    split <;> rfl
  induction fuel with
  | zero => exact fun _ => rfl
  | succ fuel ih =>
    intro q
    rw [ArrivalQueue.shrink, ← hdrop q]
    split
    · cases q.dropOldest with
      | mk dropped rest =>
        cases dropped with
        | true => exact ih rest
        | false => rfl
    · exact (hdrop q).symm

/-! ## Writing -/

/-- The entry under a key that was just written, and under any other. -/
theorem lookup_insert (entries : Std.TreeMap Bytes ArrivalEntry) (key : Bytes) (e : ArrivalEntry)
    (k : Bytes) :
    ((entries.insert key e)[k]?.map fun e => (⟨k, e.value, e.size⟩ : HeldEntry)) =
      if key = k then some ⟨key, e.value, e.size⟩
      else entries[k]?.map fun e => ⟨k, e.value, e.size⟩ := by
  rw [OrderedMap.getElem?_insert]
  split
  · next hk => rw [Option.map_some, hk]
  · rfl

/-- The queue with an entry written over; it keeps the number of its arrival. -/
def overwrite (q : ArrivalQueue) (key : Bytes) (e : ArrivalEntry) (value : Bytes) (size : Nat) :
    ArrivalQueue :=
  { q with
    entries := q.entries.insert key { e with value, size }
    byteSize := (q.byteSize.sub e.size).add size }

/-- To a client an overwriting changes an entry in its place. -/
theorem Valid.listing_overwrite (h : q.Valid) {key : Bytes} {e : ArrivalEntry}
    (he : q.entries[key]? = some e) (value : Bytes) (size : Nat) :
    (q.overwrite key e value size).listing = Listing.rewrite q.listing ⟨key, value, size⟩ := by
  -- with their numbers the same arrivals are live
  have hlive : isLive (q.entries.insert key { e with value, size }) = isLive q.entries := by
    funext a
    rw [isLive, isLive, OrderedMap.getElem?_insert]
    by_cases hk : key = a.2
    · rw [if_pos hk, ← hk, he]
      rfl
    · rw [if_neg hk]
  rw [listing, keys_eq_liveKeys, liveKeys, overwrite, hlive]
  exact Listing.of_rewrite h.indexed (lookup_insert q.entries key { e with value, size })

/-- An overwriting takes the old size off the sum and adds the new one. -/
theorem Valid.overwrite (h : q.Valid) {key : Bytes} {e : ArrivalEntry}
    (he : q.entries[key]? = some e) (value : Bytes) (size : Nat) :
    (q.overwrite key e value size).Valid where
  ascending := h.ascending
  past := h.past
  arrived k e' he' := by
    rw [ArrivalQueue.overwrite, OrderedMap.getElem?_insert] at he'
    by_cases hk : key = k
    · rw [if_pos hk] at he'
      rw [← Option.some.inj he', ← hk]
      exact h.arrived key e he
    · rw [if_neg hk] at he'
      exact h.arrived k e' he'
  bytes := by
    have hbytes := h.bytes
    rw [Listing.bytes_without h.nodup (h.find_of_present he)] at hbytes
    rw [h.listing_overwrite he, Listing.bytes_rewrite h.nodup (h.find_of_present he)]
    exact hbytes.sub.add size

theorem put_of_present {key : Bytes} {e : ArrivalEntry} (he : q.entries[key]? = some e)
    (value : Bytes) (size : Nat) :
    q.put key value size = (false, q.overwrite key e value size) := by
  simp only [put, he]
  rfl

/-- A write to a key that is present writes its entry over, in its place. -/
theorem Valid.put_present (h : q.Valid) {key : Bytes} {e : ArrivalEntry}
    (he : q.entries[key]? = some e) (value : Bytes) (size : Nat) :
    (q.put key value size).1 = false ∧ (q.put key value size).2.Valid ∧
      (q.put key value size).2.listing = Listing.rewrite q.listing ⟨key, value, size⟩ ∧
        (q.put key value size).2.capacity = q.capacity := by
  rw [put_of_present he]
  exact ⟨rfl, h.overwrite he value size, h.listing_overwrite he value size, rfl⟩

/-- The queue with an absent key arrived at the back, before any entry goes. -/
def arrive (q : ArrivalQueue) (key value : Bytes) (size : Nat) : ArrivalQueue :=
  { q with
    entries := q.entries.insert key ⟨value, size, q.nextSeq⟩
    order := q.order ++ [(q.nextSeq, key)]
    nextSeq := q.nextSeq + 1
    byteSize := q.byteSize.add size }

/-- An arrival is seen at its key only. -/
theorem lookup_arrive (q : ArrivalQueue) (key value : Bytes) (size : Nat) (k : Bytes) :
    (q.arrive key value size).lookup k =
      if key = k then some ⟨key, value, size⟩ else q.lookup k :=
  lookup_insert q.entries key ⟨value, size, q.nextSeq⟩ k

/-- A key that comes in is the last one, whatever older arrivals it has in the queue. -/
theorem Valid.keys_arrive (h : q.Valid) {key : Bytes} (absent : q.entries[key]? = none)
    (value : Bytes) (size : Nat) : (q.arrive key value size).keys = q.keys ++ [key] := by
  -- older arrivals of the key have older numbers and stay stale
  have hold : ∀ a ∈ q.order, isLive (q.arrive key value size).entries a = isLive q.entries a := by
    intro a ha
    rw [isLive, isLive, ArrivalQueue.arrive, OrderedMap.getElem?_insert]
    by_cases hk : key = a.2
    · rw [if_pos hk, ← hk, absent]
      exact beq_eq_false_iff_ne.mpr (Nat.ne_of_gt (h.past a ha))
    · rw [if_neg hk]
  have hnew : isLive (q.arrive key value size).entries (q.nextSeq, key) = true :=
    isLive_iff.mpr ⟨⟨value, size, q.nextSeq⟩, by
      rw [ArrivalQueue.arrive, OrderedMap.getElem?_insert, if_pos rfl], rfl⟩
  rw [keys, keys]
  show ((q.order ++ [(q.nextSeq, key)]).filter _).map Prod.snd = _
  rw [List.filter_append, List.filter_congr hold, List.filter_cons_of_pos hnew, List.map_append]
  rfl

/-- To a client an arrival is an entry at the end. -/
theorem Valid.listing_arrive (h : q.Valid) {key : Bytes} (absent : q.entries[key]? = none)
    (value : Bytes) (size : Nat) :
    (q.arrive key value size).listing = q.listing ++ [⟨key, value, size⟩] := by
  rw [listing, h.keys_arrive absent]
  exact Listing.of_insert ⟨key, value, size⟩ (h.notMem_of_absent absent)
    (q.lookup_arrive key value size)

/-- The number of an arrival is the next one, so the numbers ascend and are past. -/
theorem Valid.arrive (h : q.Valid) {key : Bytes} (absent : q.entries[key]? = none)
    (value : Bytes) (size : Nat) : (q.arrive key value size).Valid where
  ascending := by
    refine List.pairwise_append.mpr ⟨h.ascending, List.pairwise_singleton _ _, fun a ha b hb => ?_⟩
    rw [List.mem_singleton.mp hb]
    exact h.past a ha
  past a ha := by
    show a.1 < q.nextSeq + 1
    rcases List.mem_append.mp ha with ha | ha
    · exact Nat.lt_succ_of_lt (h.past a ha)
    · rw [List.mem_singleton.mp ha]
      exact Nat.lt_succ_self _
  arrived k e he := by
    rw [ArrivalQueue.arrive, OrderedMap.getElem?_insert] at he
    by_cases hk : key = k
    · rw [if_pos hk] at he
      rw [← Option.some.inj he, ← hk]
      exact List.mem_append_right _ List.mem_cons_self
    · rw [if_neg hk] at he
      exact List.mem_append_left _ (h.arrived k e he)
  bytes := by
    rw [h.listing_arrive absent, Listing.bytes_append]
    exact h.bytes.add size

theorem put_of_absent {key : Bytes} (absent : q.entries[key]? = none) (value : Bytes)
    (size : Nat) :
    q.put key value size =
      (q.arrive key value size).shrink (q.arrive key value size).entries.size := by
  simp only [put, absent]
  rfl

/-- A write to an absent key adds its entry at the end and leaves the last entries, as many as the
capacity. -/
theorem Valid.put_absent (h : q.Valid) {key : Bytes} (absent : q.entries[key]? = none)
    (value : Bytes) (size : Nat) :
    (q.put key value size).1 = decide (q.capacity < q.listing.length + 1) ∧
      (q.put key value size).2.Valid ∧
        (q.put key value size).2.listing =
          List.drop (q.listing.length + 1 - q.capacity) (q.listing ++ [⟨key, value, size⟩]) ∧
            (q.put key value size).2.capacity = q.capacity := by
  have hvalid := h.arrive absent value size
  have hlisting := h.listing_arrive absent value size
  have hlen : (q.arrive key value size).listing.length = q.listing.length + 1 := by
    rw [hlisting, List.length_append, List.length_singleton]
  obtain ⟨hany, hlast, hrest, hcapacity⟩ :=
    Valid.shrink _ _ hvalid (Nat.le_of_eq hvalid.size_entries.symm)
  rw [← put_of_absent absent] at hany hlast hrest hcapacity
  rw [hlen] at hany
  rw [hlen, hlisting] at hrest
  exact ⟨hany, hlast, hrest, hcapacity⟩

/-- A write does not wrap the counter if the sizes, that of the entry written among them, add up to
a number of 64 bits. -/
theorem Valid.wrapped_put (h : q.Valid) (exact : q.byteSize.wrapped = false) {key : Bytes}
    {size : Nat} (fits : Listing.bytes (Listing.without q.listing key) + size < UInt64.size)
    (value : Bytes) : (q.put key value size).2.byteSize.wrapped = false := by
  cases he : q.entries[key]? with
  | some e =>
    have hcounts := (h.forget he).1.bytes
    rw [(h.forget he).2] at hcounts
    have hread : (q.byteSize.sub e.size).read = _ := hcounts.read_eq exact
    rw [put_of_present he]
    show ((q.byteSize.sub e.size).add size).wrapped = false
    exact Counter.wrapped_add.mpr ⟨exact, by rw [hread]; exact fits⟩
  | none =>
    have absent : key ∉ Listing.keys q.listing := h.keys_listing.symm ▸ h.notMem_of_absent he
    rw [Listing.without_of_notMem absent, ← h.bytes.read_eq exact] at fits
    rw [put_of_absent he, wrapped_shrink]
    exact Counter.wrapped_add.mpr ⟨exact, fits⟩

end TieredStore.ArrivalQueue
