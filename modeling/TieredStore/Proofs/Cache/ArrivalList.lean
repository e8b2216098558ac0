import TieredStore.Proofs.Cache.ArrivalQueue
import TieredStore.Proofs.Cache.Calls

/-!
# The arrival queue is a list

`ArrivalList` is a cache that keeps nothing but its entries, in the order in which their keys came
in. A write to a key that is held writes its entry over in its place; any other write adds an entry
at the end, and the first entry goes if there is then one too many. Reads change nothing.

**The law** (`ArrivalQueue.Settled.put`): a write to an arrival queue whose entries fit its capacity
is the write to its list, and the entries still fit.
-/

namespace TieredStore

/-- A cache that keeps its entries in the order of their arrival, and nothing else. -/
structure ArrivalList where
  capacity : Nat
  /-- The entries, the one that arrived first at the front. -/
  entries : Listing := []

namespace ArrivalList

/-- Writes a value: in its place if the key is held, at the end otherwise. -/
def put (l : ArrivalList) (key value : Bytes) (size : Nat) : Bool × ArrivalList :=
  match l.entries.find key with
  | some _ => (false, { l with entries := l.entries.rewrite ⟨key, value, size⟩ })
  | none =>
    let arrived : Listing := l.entries ++ [⟨key, value, size⟩]
    if arrived.length = l.capacity + 1 then (true, { l with entries := arrived.tail })
    else (false, { l with entries := arrived })

instance : CacheEngine ArrivalList where
  put := put
  get l key := (l.entries.value key, l)
  peek l key := l.entries.value key
  has l key := (l.entries.find key).isSome
  remove l key := { l with entries := l.entries.without key }
  clear l := { l with entries := [] }
  keys l := l.entries.keys
  size l := l.entries.length
  byteSize l := l.entries.bytes
  capacity := capacity

/-- What the sizes add up to while a call is carried out: an entry that comes in is counted before
another goes. -/
def peak (l : ArrivalList) : CacheCall → Nat
  | .put key _ size => (l.entries.without key).bytes + size
  | _ => l.entries.bytes

/-- The sizes never add up to more than 64 bits hold. -/
def Countable (l : ArrivalList) : List CacheCall → Prop
  | [] => True
  | call :: rest => l.peak call < UInt64.size ∧ (CacheEngine.perform l call).2.Countable rest

instance decidableCountable :
    (l : ArrivalList) → (calls : List CacheCall) → Decidable (l.Countable calls)
  | _, [] => inferInstanceAs (Decidable True)
  | l, call :: rest =>
    have := decidableCountable (CacheEngine.perform l call).2 rest
    inferInstanceAs (Decidable (l.peak call < UInt64.size ∧ _))

variable {l : ArrivalList} {key : Bytes}

/-- A key that is held keeps its place. -/
theorem put_of_held {e : HeldEntry} (held : l.entries.find key = some e) (value : Bytes)
    (size : Nat) :
    l.put key value size = (false, { l with entries := l.entries.rewrite ⟨key, value, size⟩ }) := by
  simp only [put, held]

/-- The entry that goes is the first one. -/
theorem put_of_full (absent : l.entries.find key = none) (full : l.entries.length = l.capacity)
    (value : Bytes) (size : Nat) :
    l.put key value size =
      (true, { l with entries := List.tail (l.entries ++ [⟨key, value, size⟩]) }) := by
  simp only [put, absent, List.length_append, List.length_singleton, full, if_true]

/-- With room an arrival drives out nothing. -/
theorem put_of_room (absent : l.entries.find key = none) (room : l.entries.length ≠ l.capacity)
    (value : Bytes) (size : Nat) :
    l.put key value size = (false, { l with entries := l.entries ++ [⟨key, value, size⟩] }) := by
  simp only [put, absent, List.length_append, List.length_singleton, Nat.add_right_cancel_iff, room,
    if_false]

theorem capacity_put (l : ArrivalList) (key value : Bytes) (size : Nat) :
    (l.put key value size).2.capacity = l.capacity := by
  unfold put
  split
  · rfl
  · dsimp only
    split <;> rfl

/-- No call changes the capacity. -/
theorem capacity_performAll (l : ArrivalList) (calls : List CacheCall) :
    (CacheEngine.performAll l calls).2.capacity = l.capacity := by
  refine CacheEngine.performAll_keeps (I := fun m => m.capacity = l.capacity)
    (fun m hm call => ?_) calls l rfl
  cases call with
  | put key value size => exact (m.capacity_put key value size).trans hm
  | _ => exact hm

/-- With room for one entry at least, an entry that comes in is the last one. -/
theorem put_of_absent (absent : l.entries.find key = none) (positive : 0 < l.capacity)
    (value : Bytes) (size : Nat) :
    ∃ older, (l.put key value size).2.entries = older ++ [⟨key, value, size⟩] := by
  by_cases hfull : l.entries.length = l.capacity
  · -- the entry that goes is an older one
    rw [put_of_full absent hfull]
    cases hl : l.entries with
    | nil => rw [hl] at hfull; exact absurd hfull (Nat.ne_of_lt positive)
    | cons e rest => exact ⟨rest, rfl⟩
  · rw [put_of_room absent hfull]
    exact ⟨l.entries, rfl⟩

/-- With room for one entry at least, a write holds what it wrote. -/
theorem mem_put (l : ArrivalList) (positive : 0 < l.capacity) (key value : Bytes) (size : Nat) :
    ⟨key, value, size⟩ ∈ (l.put key value size).2.entries := by
  cases hfind : l.entries.find key with
  | some e =>
    obtain ⟨he, hk⟩ := Listing.of_find hfind
    rw [put_of_held hfind]
    exact List.mem_map.mpr ⟨e, he, if_pos hk⟩
  | none =>
    obtain ⟨older, holder⟩ := put_of_absent hfind positive value size
    rw [holder]
    exact List.mem_append_right _ List.mem_cons_self

/-- After a write there is nothing but the entry written and old ones of other keys. -/
theorem of_mem_put (l : ArrivalList) {key value : Bytes} {size : Nat} {e : HeldEntry}
    (h : e ∈ (l.put key value size).2.entries) :
    e = ⟨key, value, size⟩ ∨ e ∈ l.entries ∧ e.key ≠ key := by
  cases hfind : l.entries.find key with
  | some old =>
    rw [put_of_held hfind] at h
    obtain ⟨o, ho, rfl⟩ := List.mem_map.mp h
    by_cases hk : o.key = key
    · exact .inl (if_pos hk)
    · rw [if_neg hk]
      exact .inr ⟨ho, hk⟩
  | none =>
    have harrived : e ∈ l.entries ++ [⟨key, value, size⟩] := by
      by_cases hfull : l.entries.length = l.capacity
      · rw [put_of_full hfind hfull] at h
        exact List.mem_of_mem_tail h
      · rw [put_of_room hfind hfull] at h
        exact h
    rcases List.mem_append.mp harrived with he | he
    · refine .inr ⟨he, fun hk => Listing.find_eq_none.mp hfind ?_⟩
      exact hk ▸ List.mem_map_of_mem he
    · exact .inl (List.mem_singleton.mp he)

end ArrivalList

namespace ArrivalQueue

/-- The queue read as a list. -/
def view (q : ArrivalQueue) : ArrivalList := ⟨q.capacity, q.listing⟩

/-- A queue between two calls: its maps fit together and its entries fit its capacity. -/
structure Settled (q : ArrivalQueue) : Prop where
  valid : q.Valid
  room : q.listing.length ≤ q.capacity

variable {q : ArrivalQueue}

/-- A new queue holds nothing, whatever its capacity. -/
theorem settled_empty (capacity : Nat) : (empty capacity).Settled where
  valid := valid_empty capacity
  room := Nat.zero_le _

theorem settled_clear (q : ArrivalQueue) : q.clear.Settled where
  valid := valid_clear q
  room := Nat.zero_le _

/-- A removal leaves no more entries than before, and reads as a removal from the list. -/
theorem Settled.remove (h : q.Settled) (key : Bytes) :
    (q.remove key).Settled ∧
      (q.remove key).view = { q.view with entries := Listing.without q.view.entries key } := by
  obtain ⟨hvalid, hlisting⟩ := h.valid.remove key
  have hcapacity := q.capacity_remove key
  refine ⟨⟨hvalid, ?_⟩, ?_⟩
  · rw [hlisting, hcapacity]
    exact Nat.le_trans (List.length_filter_le _ _) h.room
  · rw [view, hlisting, hcapacity]
    rfl

/-- A write to a queue is the write to its list. -/
theorem Settled.put (h : q.Settled) (key value : Bytes) (size : Nat) :
    (q.put key value size).1 = (q.view.put key value size).1 ∧
      (q.put key value size).2.Settled ∧
        (q.put key value size).2.view = (q.view.put key value size).2 := by
  have hroom := h.room
  have hfind : q.view.entries.find key = q.lookup key := h.valid.find_listing key
  cases he : q.entries[key]? with
  | some e =>
    obtain ⟨hany, hvalid, hlisting, hcapacity⟩ := h.valid.put_present he value size
    rw [lookup, he] at hfind
    rw [ArrivalList.put_of_held hfind]
    refine ⟨hany, ⟨hvalid, ?_⟩, by rw [view, hlisting, hcapacity]; rfl⟩
    rw [hlisting, hcapacity, Listing.rewrite, List.length_map]
    exact hroom
  | none =>
    obtain ⟨hany, hvalid, hlisting, hcapacity⟩ := h.valid.put_absent he value size
    rw [lookup, he] at hfind
    by_cases hfull : q.listing.length = q.capacity
    · -- one entry is over, so one goes
      have hover : q.listing.length + 1 - q.capacity = 1 := by omega
      rw [hover, List.drop_one] at hlisting
      rw [ArrivalList.put_of_full hfind hfull]
      refine ⟨hany.trans (decide_eq_true (by omega)), ⟨hvalid, ?_⟩, ?_⟩
      · rw [hlisting, hcapacity, List.length_tail, List.length_append, List.length_singleton]
        exact hroom
      · rw [view, hlisting, hcapacity]
        rfl
    · have hover : q.listing.length + 1 - q.capacity = 0 := by omega
      rw [hover, List.drop_zero] at hlisting
      rw [ArrivalList.put_of_room hfind hfull]
      refine ⟨hany.trans (decide_eq_false (by omega)), ⟨hvalid, ?_⟩, ?_⟩
      · rw [hlisting, hcapacity, List.length_append, List.length_singleton]
        omega
      · rw [view, hlisting, hcapacity]
        rfl

end ArrivalQueue

end TieredStore
