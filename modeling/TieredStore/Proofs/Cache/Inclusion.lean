import TieredStore.Proofs.Cache.LawfulEngine

/-!
# A larger cache loses no hit

Two caches that count entries only go through the same calls, one with room for no more entries than
the other. All that the smaller one holds, the larger one holds too, and in the same order. That
alone is not kept by a write: if only the larger cache were full, it could evict what the smaller
one keeps. Removals do fill the two to different degrees, and a read that only the larger cache
answers moves an entry there and nothing in the other.

What is kept is `RecencyList.Included`: the one list is a sublist of the other and has no more room
left than it. So a write that evicts from the larger list evicts at least as many from the smaller.

**The law** (`RecencyCache.keys_sublist_of_capacity_le`): after every sequence of calls the keys of
the smaller cache are a sublist of those of the larger one, with the same values, and whatever is
found in the smaller cache is found in the larger.
-/

namespace TieredStore

/-- Of two lists, the shorter one loses no more to a filter. -/
theorem length_filter_add_le {α : Type} {l m : List α} (h : l.Sublist m) (p : α → Bool) :
    (m.filter p).length + l.length ≤ (l.filter p).length + m.length := by
  have hlost := h.countP_le (p := fun a => decide (¬p a = true))
  have hl := List.length_eq_countP_add_countP p (l := l)
  have hm := List.length_eq_countP_add_countP p (l := m)
  rw [← List.countP_eq_length_filter, ← List.countP_eq_length_filter]
  omega

namespace RecencyList

/-- A list within another, both counting entries only: its entries are some of the other's, in the
same order, and it has no more room left. -/
structure Included (r s : RecencyList) : Prop where
  counted : r.budget = none ∧ s.budget = none
  nodup : s.entries.keys.Nodup
  sublist : r.entries.Sublist s.entries
  room : s.entries.length + r.capacity ≤ r.entries.length + s.capacity

variable {r s : RecencyList}

theorem Included.nodup_left (h : Included r s) : r.entries.keys.Nodup :=
  h.nodup.sublist (h.sublist.map HeldEntry.key)

/-- What the inner list finds, the outer list finds. -/
theorem Included.find_eq_some (h : Included r s) {key : Bytes} {e : HeldEntry}
    (found : r.entries.find key = some e) : s.entries.find key = some e := by
  rw [Listing.find_eq_some h.nodup_left] at found
  rw [Listing.find_eq_some h.nodup]
  exact ⟨h.sublist.mem found.1, found.2⟩

/-- What the smaller list finds, the larger one finds. -/
theorem Included.value_eq_some (h : Included r s) {key v : Bytes}
    (found : r.entries.value key = some v) : s.entries.value key = some v := by
  obtain ⟨e, he, rfl⟩ := Option.map_eq_some_iff.mp found
  rw [Listing.value, h.find_eq_some he]
  rfl

/-- A key leaves both lists. -/
theorem Included.without (h : Included r s) (key : Bytes) :
    Included { r with entries := r.entries.without key }
      { s with entries := s.entries.without key } where
  counted := h.counted
  nodup := Listing.keys_without s.entries key ▸ h.nodup.filter _
  sublist := h.sublist.filter _
  room := by
    have hroom := h.room
    have hlost := length_filter_add_le h.sublist fun e => decide (e.key ≠ key)
    simp only [Listing.without]
    omega

/-- An entry of an absent key enters both lists at the end. -/
theorem Included.concat (h : Included r s) {e : HeldEntry} (absent : e.key ∉ s.entries.keys) :
    Included { r with entries := r.entries ++ [e] } { s with entries := s.entries ++ [e] } where
  counted := h.counted
  nodup := Listing.nodup_concat h.nodup absent
  sublist := h.sublist.append (List.Sublist.refl [e])
  room := by
    have hroom := h.room
    simp only [List.length_append, List.length_singleton]
    omega

/-- Each list keeps as many of its last entries as it has room for. The inner list, which has no
more room left, loses at least as many. -/
theorem Included.drop (h : Included r s) :
    Included { r with entries := r.entries.drop (r.entries.length - r.capacity) }
      { s with entries := s.entries.drop (s.entries.length - s.capacity) } where
  counted := h.counted
  nodup := h.nodup.sublist ((List.drop_sublist _ s.entries).map HeldEntry.key)
  sublist := by
    have hroom := h.room
    have hless : s.entries.length - s.capacity ≤ r.entries.length - r.capacity := by omega
    exact (List.drop_sublist_drop_left r.entries hless).trans (h.sublist.drop _)
  room := by
    have hroom := h.room
    simp only [List.length_drop]
    omega

/-- A write drops entries from the front of both lists, and from the larger one none that the
smaller one keeps. -/
theorem Included.put (h : Included r s) (key value : Bytes) (size : Nat) :
    Included (r.put key value size).2 (s.put key value size).2 := by
  have habsent := s.entries.notMem_keys_without key
  have hwritten := (h.without key).concat (e := ⟨key, value, size⟩) habsent
  have hr : (r.put key value size).2 = { r with entries := (r.put key value size).2.entries } := rfl
  have hs : (s.put key value size).2 = { s with entries := (s.put key value size).2.entries } := rfl
  rw [hr, hs, r.entries_put_of_counted h.counted.1, s.entries_put_of_counted h.counted.2]
  exact hwritten.drop

/-- A read that only the outer list answers moves an entry there, which the inner one does not
have. -/
theorem Included.get (h : Included r s) (key : Bytes) :
    Included (r.get key).2 (s.get key).2 := by
  cases hs : s.entries.find key with
  | none =>
    have hr : r.entries.find key = none := by
      apply Option.eq_none_iff_forall_ne_some.mpr
      intro e he
      rw [h.find_eq_some he] at hs
      cases hs
    simp only [RecencyList.get, hr, hs]
    exact h
  | some e =>
    have hkey : e.key = key := ((Listing.find_eq_some h.nodup).mp hs).2
    have habsent : e.key ∉ (s.entries.without key).keys := hkey ▸ s.entries.notMem_keys_without key
    have hmoved := (h.without key).concat habsent
    cases hr : r.entries.find key with
    | some e' =>
      rw [h.find_eq_some hr] at hs
      cases hs
      simp only [RecencyList.get, hr, h.find_eq_some hr]
      exact hmoved
    | none =>
      have hroom := h.room
      have hshort := Listing.length_without_lt hs
      have hsame : r.entries.without key = r.entries :=
        Listing.without_of_notMem (Listing.find_eq_none.mp hr)
      have hsublist := (h.without key).sublist
      simp only [hsame] at hsublist
      simp only [RecencyList.get, hr, hs]
      refine ⟨h.counted, hmoved.nodup, hsublist.trans (List.sublist_append_left _ _), ?_⟩
      simp only [List.length_append, List.length_singleton]
      omega

theorem Included.clear (h : Included r s) :
    Included { r with entries := [] } { s with entries := [] } where
  counted := h.counted
  nodup := List.nodup_nil
  sublist := List.Sublist.refl []
  room := by
    have hroom := h.room
    have hlength := h.sublist.length_le
    simp only [List.length_nil]
    omega

/-- Every call keeps the one list within the other. -/
theorem Included.perform (h : Included r s) (call : CacheCall) :
    Included (CacheEngine.perform r call).2 (CacheEngine.perform s call).2 := by
  cases call with
  | put key value size => exact h.put key value size
  | get key => exact h.get key
  | remove key => exact h.without key
  | clear => exact h.clear
  | _ => exact h

theorem included_empty {n m : Nat} (le : n ≤ m) : Included ⟨n, none, []⟩ ⟨m, none, []⟩ where
  counted := ⟨rfl, rfl⟩
  nodup := List.nodup_nil
  sublist := List.Sublist.refl []
  room := Nat.add_le_add_left le 0

/-- By the step for one call, which asks nothing of the answers. -/
theorem Included.performAll (h : Included r s) (calls : List CacheCall) :
    Included (CacheEngine.performAll r calls).2 (CacheEngine.performAll s calls).2 :=
  CacheEngine.performAll_relate (fun _ _ h call => h.perform call) calls r s h

end RecencyList

namespace RecencyCache

/-- The keys after a run are those of the list after it. -/
theorem keys_performAll {c : RecencyCache} (h : c.table.Valid) (calls : List CacheCall) :
    CacheEngine.keys (CacheEngine.performAll c calls).2 =
      CacheEngine.keys (CacheEngine.performAll c.view calls).2 := by
  obtain ⟨_, hvalid, hview⟩ := performAll_view h calls
  rw [← hview]
  exact keys_view hvalid

/-- The list of the smaller cache stays within that of the larger one. -/
theorem included_of_counted {n m : Nat} {small large : RecencyCache}
    (builtSmall : counted n = .ok small) (builtLarge : counted m = .ok large) (le : n ≤ m)
    (calls : List CacheCall) :
    (CacheEngine.performAll small calls).2.table.Valid ∧
      (CacheEngine.performAll large calls).2.table.Valid ∧
        RecencyList.Included (CacheEngine.performAll small calls).2.view
          (CacheEngine.performAll large calls).2.view := by
  have hsmall := performAll_view (c := small)
    (counted_eq_ok builtSmall ▸ RecencyTable.valid_empty) calls
  have hlarge := performAll_view (c := large)
    (counted_eq_ok builtLarge ▸ RecencyTable.valid_empty) calls
  refine ⟨hsmall.2.1, hlarge.2.1, ?_⟩
  rw [hsmall.2.2, hlarge.2.2, counted_eq_ok builtSmall, counted_eq_ok builtLarge]
  exact (RecencyList.included_empty le).performAll calls

/-- Values carry over from the lists to the caches that read as them. -/
theorem peek_of_included {s l : RecencyCache} (hs : s.table.Valid) (hl : l.table.Valid)
    (included : RecencyList.Included s.view l.view) {key value : Bytes}
    (found : CacheEngine.peek s key = some value) : CacheEngine.peek l key = some value := by
  refine (view_peek hl key).trans (included.value_eq_some ?_)
  exact (view_peek hs key).symm.trans found

/-- **A larger cache loses no hit.** Of two caches that count entries only, let one have room for at
least as many as the other, and let both go through the same calls. Then the keys of the smaller one
are some of those of the larger one, in the same order and with the same values; and whatever a call
finds in the smaller cache, it finds in the larger. -/
theorem keys_sublist_of_capacity_le {n m : Nat} {small large : RecencyCache}
    (builtSmall : counted n = .ok small) (builtLarge : counted m = .ok large) (le : n ≤ m)
    (calls : List CacheCall) :
    let s := (CacheEngine.performAll small calls).2
    let l := (CacheEngine.performAll large calls).2
    (CacheEngine.keys s).Sublist (CacheEngine.keys l) ∧
      (∀ key ∈ CacheEngine.keys s, CacheEngine.peek l key = CacheEngine.peek s key) ∧
      ∀ key value,
        ((CacheEngine.get s key).1 = some value → (CacheEngine.get l key).1 = some value) ∧
        (CacheEngine.peek s key = some value → CacheEngine.peek l key = some value) ∧
        (CacheEngine.has s key = true → CacheEngine.has l key = true) := by
  intro s l
  obtain ⟨hs, hl, hincluded⟩ := included_of_counted builtSmall builtLarge le calls
  have hpeek : ∀ {key value}, CacheEngine.peek s key = some value →
      CacheEngine.peek l key = some value := peek_of_included hs hl hincluded
  refine ⟨?_, ?_, fun key value => ⟨?_, hpeek, ?_⟩⟩
  · show s.keys.Sublist l.keys
    rw [keys_view hs, keys_view hl]
    exact hincluded.sublist.map HeldEntry.key
  · intro key hkey
    rw [LawfulEngine.mem_keys hs] at hkey
    obtain ⟨value, found⟩ := Option.isSome_iff_exists.mp hkey
    rw [found, hpeek found]
  · rw [LawfulEngine.get_fst hs, LawfulEngine.get_fst hl]
    exact hpeek
  · rw [LawfulEngine.has_eq hs, LawfulEngine.has_eq hl]
    intro held
    obtain ⟨value, found⟩ := Option.isSome_iff_exists.mp held
    rw [hpeek found]
    rfl

/-- With room for one entry and for two, a read that only the larger cache answers moves a key
there, and a removal leaves the two filled differently. -/
theorem keys_sublist_of_capacity_le_reordered :
    ∃ small large, counted 1 = .ok small ∧ counted 2 = .ok large ∧
      let calls : List CacheCall := [.put [1] [10] 1, .put [2] [20] 1, .get [1], .remove [2],
        .put [3] [30] 1]
      let s := (CacheEngine.performAll small calls).2
      let l := (CacheEngine.performAll large calls).2
      CacheEngine.keys s = [[3]] ∧ CacheEngine.keys l = [[1], [3]] ∧
        (CacheEngine.keys s).Sublist (CacheEngine.keys l) := by
  refine ⟨_, _, rfl, rfl, ?_⟩
  intro calls s l
  refine ⟨?_, ?_, ?_⟩
  · exact (keys_performAll RecencyTable.valid_empty calls).trans (by decide)
  · exact (keys_performAll RecencyTable.valid_empty calls).trans (by decide)
  · exact (@keys_sublist_of_capacity_le 1 2 _ _ rfl rfl (by decide) calls).1

end RecencyCache

end TieredStore
