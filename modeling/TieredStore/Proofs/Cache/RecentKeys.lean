import Mathlib.Data.List.Dedup
import TieredStore.Proofs.Cache.Bounds

/-!
# The keys used last

`recent n uses` are the last `n` distinct members of a list of uses, in the order of their last
occurrences. A further use makes its key the last one and takes no other key out but perhaps the
first (`recent_concat`): to know the keys used last before it is enough, the uses that led to them
are not needed.

That is what a recency cache without a byte budget does to its keys, when it is written to and when
it is read with success (`RecencyCache.Counts.keys_put`, `RecencyCache.Counts.keys_get`).
-/

namespace TieredStore

section Recent

variable {α : Type} [DecidableEq α]

/-- The last `n` members of a list. -/
def lastOf (n : Nat) (l : List α) : List α := l.drop (l.length - n)

/-- The last `n` distinct members of a list of uses, each in the place of its last occurrence. -/
def recent (n : Nat) (uses : List α) : List α := lastOf n uses.dedup

/-- The keys after a use: its key comes last, and the others lose the first ones beyond `n`. -/
def used (n : Nat) (keys : List α) (key : α) : List α :=
  lastOf n (keys.filter (fun k => k ≠ key) ++ [key])

omit [DecidableEq α] in
theorem lastOf_of_length_le {n : Nat} {l : List α} (h : l.length ≤ n) : lastOf n l = l := by
  rw [lastOf, Nat.sub_eq_zero_of_le h, List.drop_zero]

omit [DecidableEq α] in
/-- The last ones are as many as asked for, or fewer. -/
theorem length_lastOf_le (n : Nat) (l : List α) : (lastOf n l).length ≤ n := by
  rw [lastOf, List.length_drop]
  omega

omit [DecidableEq α] in
/-- What stands before enough members does not count. -/
theorem lastOf_append {n : Nat} (before : List α) {l : List α} (h : n ≤ l.length) :
    lastOf n (before ++ l) = lastOf n l := by
  rw [lastOf, lastOf, List.length_append, Nat.add_sub_assoc h, List.drop_length_add_append]

theorem recent_nil (n : Nat) : recent n ([] : List α) = [] := List.drop_nil

/-- With one more at the end, its earlier occurrences are those that go. -/
theorem dedup_concat (l : List α) (a : α) :
    (l ++ [a]).dedup = l.dedup.filter (fun k => k ≠ a) ++ [a] := by
  induction l with
  | nil => rfl
  | cons b l ih =>
    have hmem : b ∈ l ++ [a] ↔ b ∈ l ∨ b = a := by
      rw [List.mem_append, List.mem_singleton]
    rw [List.cons_append]
    by_cases hb : b ∈ l
    · rw [List.dedup_cons_of_mem (hmem.mpr (.inl hb)), List.dedup_cons_of_mem hb, ih]
    · rw [List.dedup_cons_of_notMem hb, List.filter_cons]
      by_cases ha : b = a
      · rw [List.dedup_cons_of_mem (hmem.mpr (.inr ha)), ih]
        simp [ha]
      · rw [List.dedup_cons_of_notMem (fun h => (hmem.mp h).elim hb ha), ih]
        simp [ha]

/-- Among distinct members a filter for one value takes out no more than one. -/
theorem length_le_filter_ne {l : List α} (nodup : l.Nodup) (a : α) :
    l.length ≤ (l.filter fun k => k ≠ a).length + 1 := by
  have herase : l.erase a = l.filter fun k => k ≠ a := by
    rw [nodup.erase_eq_filter]
    apply List.filter_congr
    intro k _
    exact decide_not.symm
  have hlength := List.le_length_erase (a := a) (l := l)
  rw [herase] at hlength
  omega

/-- A further use changes the keys used last as it would if they were all that was used. -/
theorem recent_concat (n : Nat) (uses : List α) (key : α) :
    recent n (uses ++ [key]) = used n (recent n uses) key := by
  rw [recent, dedup_concat, used, recent]
  by_cases hshort : uses.dedup.length ≤ n
  · rw [lastOf_of_length_le hshort]
  · -- enough keys stay even if the one used is among them
    have hnodup : (lastOf n uses.dedup).Nodup :=
      (List.nodup_dedup uses).sublist (List.drop_sublist _ _)
    have hlength : (lastOf n uses.dedup).length = n := by
      rw [lastOf, List.length_drop]
      omega
    have henough := length_le_filter_ne hnodup key
    have hsplit : uses.dedup =
        uses.dedup.take (uses.dedup.length - n) ++ lastOf n uses.dedup :=
      (List.take_append_drop _ _).symm
    rw [hsplit, List.filter_append, List.append_assoc, ← hsplit]
    apply lastOf_append
    rw [List.length_append, List.length_singleton]
    omega

end Recent

namespace RecencyCache

/-- A cache between two calls that counts entries only, and has room for `n` of them. -/
structure Counts (n : Nat) (c : RecencyCache) : Prop where
  valid : c.table.Valid
  capacity : c.capacity = n
  budget : c.budget = none

variable {n : Nat} {c : RecencyCache}

/-- A cache that only counts entries has no budget that could evict more. -/
theorem counts_of_counted (built : counted n = .ok c) : c.Counts n := by
  rw [counted_eq_ok built]
  exact ⟨RecencyTable.valid_empty, rfl, rfl⟩

/-- Calls do not give a cache a budget. -/
theorem Counts.perform (h : c.Counts n) (call : CacheCall) :
    (CacheEngine.perform c call).2.Counts n := by
  obtain ⟨_, hvalid, _⟩ := perform_view h.valid call
  obtain ⟨hcapacity, hbudget⟩ := bounds_perform h.valid call
  exact ⟨hvalid, hcapacity.trans h.capacity, hbudget.trans h.budget⟩

/-- A write is a use. -/
theorem Counts.keys_put (h : c.Counts n) (key value : Bytes) (size : Nat) :
    CacheEngine.keys (CacheEngine.put c key value size).2 = used n (CacheEngine.keys c) key := by
  obtain ⟨_, hvalid, hview⟩ := view_put h.valid key value size
  have hentries := c.view.entries_put_of_counted h.budget key value size
  have hwritten : (c.view.written key value size).keys =
      c.view.entries.keys.filter (fun k => k ≠ key) ++ [key] := by
    rw [RecencyList.written, Listing.keys_append, Listing.keys_without]
    rfl
  show (c.put key value size).2.keys = used n c.keys key
  rw [keys_view hvalid, hview, hentries, Listing.keys, List.map_drop, keys_view h.valid, used,
    lastOf, ← hwritten, Listing.length_keys, ← h.capacity]
  rfl

/-- A read that finds its key is a use. -/
theorem Counts.keys_get (h : c.Counts n) {key : Bytes} (held : key ∈ CacheEngine.keys c)
    (room : (CacheEngine.keys c).length ≤ n) :
    CacheEngine.keys (CacheEngine.get c key).2 = used n (CacheEngine.keys c) key := by
  obtain ⟨_, hvalid, hview⟩ := view_get h.valid key
  rw [show CacheEngine.keys c = _ from keys_view h.valid] at held room ⊢
  rw [Listing.mem_keys_iff, Listing.isSome_value] at held
  obtain ⟨e, he⟩ := Option.isSome_iff_exists.mp held
  have hkey := ((Listing.find_eq_some (nodup_view h.valid)).mp he).2
  have hkeys : (c.view.entries.without key ++ [e]).keys =
      c.view.entries.keys.filter (fun k => k ≠ key) ++ [key] := by
    rw [Listing.keys_append, Listing.keys_without, ← hkey]
    rfl
  show (c.get key).2.keys = _
  rw [keys_view hvalid, hview]
  simp only [RecencyList.get, he]
  rw [hkeys, used, lastOf_of_length_le]
  -- the entry taken out leaves room for it at the end
  have hshorter := Listing.length_without_lt he
  rw [← Listing.length_keys, ← Listing.length_keys, Listing.keys_without] at hshorter
  rw [List.length_append, List.length_singleton]
  omega

/-- A read that finds nothing is none. -/
theorem Counts.keys_get_absent (h : c.Counts n) {key : Bytes}
    (absent : key ∉ CacheEngine.keys c) :
    CacheEngine.keys (CacheEngine.get c key).2 = CacheEngine.keys c := by
  obtain ⟨_, hvalid, hview⟩ := view_get h.valid key
  rw [show CacheEngine.keys c = _ from keys_view h.valid] at absent ⊢
  show (c.get key).2.keys = _
  rw [keys_view hvalid, hview]
  simp only [RecencyList.get, Listing.find_eq_none.mpr absent]

end RecencyCache

end TieredStore
