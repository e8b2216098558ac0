import TieredStore.Proofs.Cache.ListedEngine
import TieredStore.Proofs.Cache.Shards

/-!
# Shards read as their entries

The listing of a sharded cache is that of its first shard, then that of the next. An entry lies in
the shard of its key and in no other (`ShardedCache.Valid.mem_entries`), so no key is held twice
though no shard knows what the others hold, and what a write loses it loses in one shard only
(`ShardedCache.Valid.evicted_iff`).
-/

namespace TieredStore

/-- An arrival drives out the first entry just when the list was full, and only then is a key lost.
-/
theorem ArrivalList.evicted_iff (l : ArrivalList) (nodup : l.entries.keys.Nodup)
    (key value : Bytes) (size : Nat) :
    (l.put key value size).1 = true ↔
      ∃ k ∈ key :: l.entries.keys, k ∉ (l.put key value size).2.entries.keys := by
  cases hfind : l.entries.find key with
  | some old =>
    -- writing over in place loses no key
    obtain ⟨hold, rfl⟩ := (Listing.find_eq_some nodup).mp hfind
    rw [put_of_held hfind, Listing.keys_rewrite]
    refine ⟨nofun, ?_⟩
    rintro ⟨k, hk, hlost⟩
    rcases List.mem_cons.mp hk with rfl | hk
    · exact absurd (List.mem_map_of_mem hold) hlost
    · exact absurd hk hlost
  | none =>
    have hnodup : (Listing.keys (l.entries ++ [⟨key, value, size⟩])).Nodup :=
      Listing.nodup_concat nodup (Listing.find_eq_none.mp hfind)
    have hlost := Listing.lost_iff hnodup (List.append_ne_nil_of_right_ne_nil _ nofun)
    simp only [Listing.mem_keys_concat] at hlost
    by_cases hfull : l.entries.length = l.capacity
    · rw [put_of_full hfind hfull, ← List.drop_one]
      exact ⟨fun _ => (hlost 1).mp Nat.one_pos, fun _ => rfl⟩
    · rw [put_of_room hfind hfull]
      exact ⟨nofun, fun h => absurd ((hlost 0).mpr h) (Nat.lt_irrefl 0)⟩

/-- The queue tells of an eviction when its list does. -/
theorem ArrivalQueue.Settled.evicted_iff {q : ArrivalQueue} (h : q.Settled) (key value : Bytes)
    (size : Nat) :
    (q.put key value size).1 = true ↔
      ∃ k ∈ key :: q.keys, k ∉ (q.put key value size).2.keys := by
  obtain ⟨hevicted, hsettled, hview⟩ := h.put key value size
  have hkeys : (q.put key value size).2.keys = (q.view.put key value size).2.entries.keys :=
    hview ▸ hsettled.valid.keys_listing.symm
  rw [hevicted, hkeys, ← h.valid.keys_listing]
  exact q.view.evicted_iff h.valid.nodup key value size

namespace ShardedCache

variable {c : ShardedCache}

/-- The entries of the first shard, then those of the next. -/
def entries (c : ShardedCache) : Listing := c.shards.flatMap ArrivalQueue.listing

theorem entries_clear (c : ShardedCache) : c.clear.entries = [] := by
  refine List.flatMap_eq_nil_iff.mpr fun q hq => ?_
  obtain ⟨old, _, rfl⟩ := List.mem_map.mp hq
  rfl

theorem Valid.settled_of_mem (h : c.Valid) {q : ArrivalQueue} (hq : q ∈ c.shards) :
    q.Settled := by
  obtain ⟨i, hi⟩ := List.getElem?_of_mem hq
  exact h.settled i q hi

/-- The keys of the entries are those of the shards in turn. -/
theorem Valid.keys_entries (h : c.Valid) : c.entries.keys = c.keys := by
  rw [Listing.keys, entries, List.map_flatMap, keys]
  exact List.flatMap_congr fun q hq => (h.settled_of_mem hq).valid.keys_listing

/-- An entry of the cache lies in the shard of its key. -/
theorem Valid.mem_entries (h : c.Valid) {e : HeldEntry} :
    e ∈ c.entries ↔ ∃ q, c.shard? e.key = some q ∧ e ∈ q.listing := by
  rw [entries, List.mem_flatMap]
  constructor
  · rintro ⟨q, hq, he⟩
    obtain ⟨i, hi⟩ := List.getElem?_of_mem hq
    have hkey : e.key ∈ q.keys := by
      rw [← (h.settled i q hi).valid.keys_listing]
      exact List.mem_map_of_mem he
    refine ⟨q, ?_, he⟩
    rw [shard?, h.placed i q hi e.key hkey, hi]
  · rintro ⟨q, hq, he⟩
    exact ⟨q, List.mem_of_getElem? hq, he⟩

/-- A key is held just when the shard of its place holds it. -/
theorem Valid.mem_keys_shard (h : c.Valid) {key : Bytes} :
    key ∈ c.keys ↔ ∃ q, c.shard? key = some q ∧ key ∈ q.keys := by
  rw [h.mem_keys, peek, Option.isSome_bind, Option.any_eq_true]
  refine exists_congr fun q => and_congr_right fun hq => ?_
  exact ((h.settled _ q hq).valid.mem_keys key).symm

/-- No key is held twice: not in one shard, and not in two, as it has one place only. -/
theorem Valid.nodup (h : c.Valid) : c.keys.Nodup := by
  rw [keys, List.nodup_flatMap]
  constructor
  · exact fun q hq => (h.settled_of_mem hq).valid.indexed.nodup
  · rw [List.pairwise_iff_getElem]
    intro i j hi hj hij k hki hkj
    have hplace := h.placed i _ (List.getElem?_eq_getElem hi) k hki
    rw [h.placed j _ (List.getElem?_eq_getElem hj) k hkj] at hplace
    exact absurd hplace (Nat.ne_of_gt hij)

/-- A value is looked up in one shard, and found if it is among all entries. -/
theorem Valid.peek_entries (h : c.Valid) (key : Bytes) : c.peek key = c.entries.value key := by
  have hnodup : c.entries.keys.Nodup := h.keys_entries ▸ h.nodup
  refine Option.ext fun v => ?_
  rw [Listing.value_eq_some hnodup, peek, Option.bind_eq_some_iff]
  simp only [h.mem_entries]
  constructor
  · rintro ⟨q, hq, hv⟩
    have hvalid := (h.settled _ q hq).valid
    rw [hvalid.peek_eq, Listing.value_eq_some hvalid.nodup] at hv
    obtain ⟨size, hmem⟩ := hv
    exact ⟨size, q, hq, hmem⟩
  · rintro ⟨size, q, hq, hmem⟩
    have hvalid := (h.settled _ q hq).valid
    refine ⟨q, hq, ?_⟩
    rw [hvalid.peek_eq, Listing.value_eq_some hvalid.nodup]
    exact ⟨size, hmem⟩

/-- What is put together from the shards is about their entries together. -/
theorem foldr_listing {α : Type} {R : α → Listing → Prop} {zero : α} {add : α → α → α}
    {measure : ArrivalQueue → α} (nil : R zero [])
    (append : ∀ {a b : α} {l m : Listing}, R a l → R b m → R (add a b) (l ++ m))
    (shards : List ArrivalQueue) (each : ∀ q ∈ shards, R (measure q) q.listing) :
    R (shards.foldr (fun q total => add (measure q) total) zero)
      (shards.flatMap ArrivalQueue.listing) := by
  induction shards with
  | nil => exact nil
  | cons q rest ih =>
    rw [List.foldr_cons, List.flatMap_cons]
    exact append (each q List.mem_cons_self) (ih fun r hr => each r (List.mem_cons_of_mem q hr))

theorem Valid.size_entries (h : c.Valid) : c.size = c.entries.length := by
  refine foldr_listing (R := fun size (l : Listing) => size = l.length) rfl ?_ c.shards
    fun _ hq => (h.settled_of_mem hq).valid.size_entries
  rintro _ _ l m rfl rfl
  exact List.length_append.symm

/-- What the shards have counted together are the sizes of all entries. -/
theorem Valid.bytes_entries (h : c.Valid) : c.counter.Counts c.entries.bytes := by
  refine foldr_listing (R := fun (counted : Counter) (l : Listing) => counted.Counts l.bytes)
    Counter.counts_zero ?_ c.shards fun _ hq => (h.settled_of_mem hq).valid.bytes
  intro _ _ l m hl hm
  rw [Listing.bytes_append]
  exact hl.plus hm

/-- Putting together what the shards have counted wraps unless the sizes of all entries fit. -/
theorem wrapped_foldr (shards : List ArrivalQueue) (each : ∀ q ∈ shards, q.Valid) :
    (shards.foldr (fun (q : ArrivalQueue) total => q.byteSize.plus total) {}).wrapped = false ↔
      (∀ q ∈ shards, q.byteSize.wrapped = false) ∧
        Listing.bytes (shards.flatMap ArrivalQueue.listing) < UInt64.size := by
  induction shards with
  | nil => exact ⟨fun _ => ⟨fun q hq => absurd hq List.not_mem_nil, by decide⟩, fun _ => rfl⟩
  | cons q rest ih =>
    have hq := (each q List.mem_cons_self).bytes
    have heach : ∀ r ∈ rest, r.Valid := fun r hr => each r (List.mem_cons_of_mem q hr)
    have hrest := foldr_listing (R := fun (counted : Counter) (l : Listing) =>
      counted.Counts l.bytes) Counter.counts_zero
      (fun hl hm => (Listing.bytes_append _ _).symm ▸ hl.plus hm) rest
      fun r hr => (heach r hr).bytes
    rw [List.foldr_cons, List.flatMap_cons, Listing.bytes_append, List.forall_mem_cons,
      Counter.wrapped_plus, Counter.wrapped_add, ih heach]
    constructor
    · rintro ⟨⟨hexact, hfits⟩, hall⟩
      rw [hq.read_eq hexact, hrest.read_eq ((ih heach).mpr hall)] at hfits
      exact ⟨⟨hexact, hall.1⟩, hfits⟩
    · rintro ⟨⟨hexact, hall⟩, hfits⟩
      have hfits' := Nat.lt_of_le_of_lt (Nat.le_add_left _ _) hfits
      rw [hq.read_eq hexact, hrest.read_eq ((ih heach).mpr ⟨hall, hfits'⟩)]
      exact ⟨⟨hexact, hfits⟩, hall, hfits'⟩

/-- The byte size is exact just when that of every shard is and their sum fits. -/
theorem Valid.wrapped_iff (h : c.Valid) :
    c.counter.wrapped = false ↔
      (∀ q ∈ c.shards, q.byteSize.wrapped = false) ∧ c.entries.bytes < UInt64.size :=
  wrapped_foldr c.shards fun _ hq => (h.settled_of_mem hq).valid

/-- After a change to the shard of a key, an entry is one of the changed shard, or an old one of
another key. -/
theorem Valid.of_mem_update (h : c.Valid) {key : Bytes} {change : ArrivalQueue → ArrivalQueue}
    (h' : (c.update key change).Valid) {e : HeldEntry} (he : e ∈ (c.update key change).entries) :
    (∃ q, c.shard? e.key = some q ∧ e ∈ (change q).listing) ∨ e ∈ c.entries ∧ e.key ≠ key := by
  obtain ⟨q, hq, hmem⟩ := h'.mem_entries.mp he
  rw [shard?_update] at hq
  by_cases hplace : c.place key = c.place e.key
  · rw [if_pos hplace] at hq
    obtain ⟨old, hold, rfl⟩ := Option.map_eq_some_iff.mp hq
    exact .inl ⟨old, hold, hmem⟩
  · rw [if_neg hplace] at hq
    exact .inr ⟨h.mem_entries.mpr ⟨q, hq, hmem⟩, fun hk => hplace (hk ▸ rfl)⟩

/-- A write leaves entries of its own shard and of the others, and its own one is the only new one.
-/
theorem Valid.mem_put (h : c.Valid) {key value : Bytes} {size : Nat} {e : HeldEntry}
    (he : e ∈ (c.put key value size).2.entries) :
    e = ⟨key, value, size⟩ ∨ e ∈ c.entries ∧ e.key ≠ key := by
  have hput := h.put key value size
  rw [put_eq] at hput he
  rcases h.of_mem_update hput he with ⟨q, hq, hmem⟩ | hold
  · have hview := ((h.settled _ q hq).put key value size).2.2
    have hwritten : e ∈ (q.view.put key value size).2.entries := by
      rw [← hview]
      exact hmem
    rcases q.view.of_mem_put hwritten with rfl | ⟨hmem, hne⟩
    · exact .inl rfl
    · exact .inr ⟨h.mem_entries.mpr ⟨q, hq, hmem⟩, hne⟩
  · exact .inr hold

/-- A shard after a change to that of a key is an old one, or the changed one. -/
theorem of_mem_shards_update {key : Bytes} {change : ArrivalQueue → ArrivalQueue}
    {q : ArrivalQueue} (hq : q ∈ (c.update key change).shards) :
    q ∈ c.shards ∨ ∃ old ∈ c.shards, q = change old := by
  obtain ⟨i, hi⟩ := List.getElem?_of_mem hq
  rw [getElem?_update] at hi
  split at hi
  · obtain ⟨old, hold, rfl⟩ := Option.map_eq_some_iff.mp hi
    exact .inr ⟨old, List.mem_of_getElem? hold, rfl⟩
  · exact .inl (List.mem_of_getElem? hi)

/-- A write wraps no counter if its size and those of the entries fit together. -/
theorem Valid.wrapped_put (h : c.Valid) (exact : c.counter.wrapped = false) {size : Nat}
    (fits : c.entries.bytes + size < UInt64.size) (key value : Bytes) :
    (c.put key value size).2.counter.wrapped = false := by
  have hput := h.put key value size
  have hbytes : (c.put key value size).2.entries.bytes ≤ c.entries.bytes + size :=
    Listing.bytes_le_add (hput.keys_entries ▸ hput.nodup) fun e he =>
      List.mem_cons.mpr ((h.mem_put he).imp_right And.left)
  refine hput.wrapped_iff.mpr ⟨fun q hq => ?_, Nat.lt_of_le_of_lt hbytes fits⟩
  have hshards := (h.wrapped_iff.mp exact).1
  rw [put_eq] at hq
  rcases of_mem_shards_update hq with hq | ⟨old, hold, rfl⟩
  · exact hshards q hq
  · have hvalid := (h.settled_of_mem hold).valid
    have hnodup : (Listing.keys (Listing.without old.listing key)).Nodup :=
      Listing.keys_without old.listing key ▸ hvalid.nodup.filter _
    have hothers : Listing.bytes (Listing.without old.listing key) ≤ c.entries.bytes :=
      Listing.bytes_le_of_subset hnodup fun e he =>
        List.mem_flatMap.mpr ⟨old, hold, List.mem_of_mem_filter he⟩
    refine hvalid.wrapped_put (hshards old hold) ?_ value
    exact Nat.lt_of_le_of_lt (Nat.add_le_add_right hothers size) fits

/-- A removal leaves old entries of other keys. -/
theorem Valid.mem_remove (h : c.Valid) {key : Bytes} {e : HeldEntry}
    (he : e ∈ (c.remove key).entries) : e ∈ c.entries ∧ e.key ≠ key := by
  rcases h.of_mem_update (h.remove key) he with ⟨q, hq, hmem⟩ | hold
  · rw [((h.settled _ q hq).valid.remove key).2] at hmem
    obtain ⟨hmem, hne⟩ := Listing.mem_without.mp hmem
    exact ⟨h.mem_entries.mpr ⟨q, hq, hmem⟩, hne⟩
  · exact hold

/-- A removal wraps no counter. -/
theorem Valid.wrapped_remove (h : c.Valid) (exact : c.counter.wrapped = false) (key : Bytes) :
    (c.remove key).counter.wrapped = false := by
  have hremove := h.remove key
  obtain ⟨hshards, hfits⟩ := h.wrapped_iff.mp exact
  have hbytes : (c.remove key).entries.bytes ≤ c.entries.bytes :=
    Listing.bytes_le_of_subset (hremove.keys_entries ▸ hremove.nodup) fun e he =>
      (h.mem_remove he).1
  refine hremove.wrapped_iff.mpr ⟨fun q hq => ?_, Nat.lt_of_le_of_lt hbytes hfits⟩
  rcases of_mem_shards_update hq with hq | ⟨old, hold, rfl⟩
  · exact hshards q hq
  · rw [old.wrapped_remove]
    exact hshards old hold

/-- Where there is nothing to add up, nothing wraps. -/
theorem wrapped_clear (c : ShardedCache) : c.clear.counter.wrapped = false := by
  refine c.valid_clear.wrapped_iff.mpr ⟨fun q hq => ?_, ?_⟩
  · obtain ⟨old, _, rfl⟩ := List.mem_map.mp hq
    rfl
  · rw [c.entries_clear]
    decide

/-- A write loses keys in the shard of its key only. -/
theorem Valid.evicted_iff (h : c.Valid) (nonempty : c.shards ≠ []) (key value : Bytes)
    (size : Nat) :
    (c.put key value size).1 = true ↔
      ∃ k ∈ key :: c.keys, k ∉ (c.put key value size).2.keys := by
  obtain ⟨q, hq⟩ := exists_shard nonempty key
  have hany : (c.put key value size).1 = (q.put key value size).1 := by
    rw [put_eq, hq, Option.any_some]
  have hkept : ∀ k, k ∈ (c.put key value size).2.keys ↔
      if c.place key = c.place k then k ∈ (q.put key value size).2.keys else k ∈ c.keys := by
    intro k
    rw [(h.put key value size).mem_keys_shard, put_eq, shard?_update]
    by_cases hplace : c.place key = c.place k
    · rw [if_pos hplace, if_pos hplace, shard?, ← hplace, ← shard?, hq]
      simp only [Option.map_some, Option.some.injEq, exists_eq_left']
    · rw [if_neg hplace, if_neg hplace, h.mem_keys_shard]
  have hshard : ∀ k, c.place key = c.place k → (k ∈ key :: c.keys ↔ k ∈ key :: q.keys) := by
    intro k hplace
    rw [List.mem_cons, List.mem_cons, h.mem_keys_shard, shard?, ← hplace, ← shard?, hq]
    simp only [Option.some.injEq, exists_eq_left']
  rw [hany, (h.settled _ q hq).evicted_iff]
  constructor
  · rintro ⟨k, hk, hlost⟩
    have hplace : c.place key = c.place k := by
      rcases List.mem_cons.mp hk with rfl | hk
      · rfl
      · exact (h.placed _ q hq k hk).symm
    refine ⟨k, (hshard k hplace).mpr hk, fun h' => hlost ?_⟩
    rwa [hkept, if_pos hplace] at h'
  · rintro ⟨k, hk, hlost⟩
    by_cases hplace : c.place key = c.place k
    · rw [hkept, if_pos hplace] at hlost
      exact ⟨k, (hshard k hplace).mp hk, hlost⟩
    · rw [hkept, if_neg hplace] at hlost
      rcases List.mem_cons.mp hk with rfl | hk
      · exact absurd rfl hplace
      · exact absurd hk hlost

instance : ListedEngine ShardedCache where
  entries := entries
  Built c := c.shards ≠ []
  built_perform {c} h call := by
    rw [← List.length_pos_iff] at h ⊢
    rw [length_shards_perform]
    exact h
  keys_eq h := h.keys_entries.symm
  nodup h := h.keys_entries ▸ h.nodup
  peek_eq h key := h.peek_entries key
  size_eq h := h.size_entries
  wrapped c := c.counter.wrapped
  byteSize_le h := h.bytes_entries.read_le
  byteSize_eq h exact := h.bytes_entries.read_eq exact
  wrapped_perform {c} h exact call fits := by
    cases call with
    | put key value size => exact h.wrapped_put exact fits key value
    | remove key => exact h.wrapped_remove exact key
    | clear => exact c.wrapped_clear
    | _ => exact exact
  mem_get _ _ _ he := he
  mem_put h := h.mem_put
  evicted_iff h nonempty := h.evicted_iff nonempty
  mem_remove h := h.mem_remove
  entries_clear {c} _ := c.entries_clear

end ShardedCache

end TieredStore
