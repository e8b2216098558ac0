import Mathlib.Data.List.Nodup
import Mathlib.Data.List.Perm.Subperm
import TieredStore.Bytes
import TieredStore.Proofs.OrderedMap

/-!
# Caches as lists of entries

To a client a cache is a list of entries with distinct keys, those that go first at the front.
`Listing` is such a list, with the few changes that a cache makes to it: an entry is taken out,
added at the end or written over in its place, and entries go from the front.

The caches themselves keep a map of entries and, apart from it, an order of keys. `Indexed` says
that the two fit together, and `Listing.of` is the list that they stand for. Each change of the map
and the order is then a change of the list.
-/

namespace TieredStore

/-- An entry as clients of a cache know it. -/
structure HeldEntry where
  key : Bytes
  value : Bytes
  /-- What the entry counts for in the cache's byte size. -/
  size : Nat
  deriving DecidableEq, Repr

/-- Entries, the one that goes first at the front. -/
abbrev Listing := List HeldEntry

namespace Listing

/-- The keys, in the order of the entries. -/
def keys (l : Listing) : List Bytes := l.map HeldEntry.key

/-- The entry of a key. -/
def find (l : Listing) (key : Bytes) : Option HeldEntry := l.find? fun e => e.key == key

/-- The value of a key. -/
def value (l : Listing) (key : Bytes) : Option Bytes := (l.find key).map HeldEntry.value

/-- The entries but that of a key. -/
def without (l : Listing) (key : Bytes) : Listing := l.filter fun e => e.key ≠ key

/-- The entries with one written over in its place. -/
def rewrite (l : Listing) (entry : HeldEntry) : Listing :=
  l.map fun e => if e.key = entry.key then entry else e

/-- The sum of the sizes. -/
def bytes : Listing → Nat
  | [] => 0
  | e :: rest => e.size + bytes rest

/-- How many entries go from the front, one by one, until the rest fits. -/
def overflow (fits : Listing → Bool) : Listing → Nat
  | [] => 0
  | e :: rest => if fits (e :: rest) then 0 else overflow fits rest + 1

/-! ## Taking out and adding -/

theorem keys_append (l m : Listing) : keys (l ++ m) = keys l ++ keys m :=
  List.map_append

theorem length_keys (l : Listing) : (keys l).length = l.length :=
  List.length_map _

/-- An entry added at the end adds its key. -/
theorem mem_keys_concat {l : Listing} {e : HeldEntry} {k : Bytes} :
    k ∈ keys (l ++ [e]) ↔ k ∈ e.key :: keys l := by
  rw [keys_append, List.mem_append, List.mem_cons, or_comm]
  exact or_congr_left List.mem_singleton

/-- An absent key can be added without repeating one. -/
theorem nodup_concat {l : Listing} (nodup : (keys l).Nodup) {e : HeldEntry}
    (absent : e.key ∉ keys l) : (keys (l ++ [e])).Nodup := by
  rw [keys_append]
  refine List.nodup_append.mpr ⟨nodup, List.nodup_singleton e.key, ?_⟩
  intro a ha b hb he
  exact absent (List.mem_singleton.mp hb ▸ he ▸ ha)

theorem keys_without (l : Listing) (key : Bytes) :
    keys (l.without key) = (keys l).filter fun k => k ≠ key := by
  rw [keys, keys, without, List.filter_map]
  rfl

/-- An entry stays unless it has the key. -/
theorem mem_without {l : Listing} {key : Bytes} {e : HeldEntry} :
    e ∈ l.without key ↔ e ∈ l ∧ e.key ≠ key := by
  simp only [without, List.mem_filter, ne_eq, decide_eq_true_eq]

/-- Taking out an absent key changes nothing. -/
theorem without_of_notMem {l : Listing} {key : Bytes} (h : key ∉ keys l) : l.without key = l := by
  refine List.filter_eq_self.mpr fun e he => decide_eq_true fun hk => h ?_
  exact hk ▸ List.mem_map_of_mem he

/-- Taking the first entry out leaves the others. -/
theorem without_head {e : HeldEntry} {l : Listing} (nodup : (keys (e :: l)).Nodup) :
    without (e :: l) e.key = l := by
  rw [without, List.filter_cons_of_neg (by simp only [ne_eq, not_true_eq_false, decide_false,
    Bool.false_eq_true, not_false_eq_true])]
  exact without_of_notMem (List.nodup_cons.mp nodup).1

/-- What a key finds is an entry with this key. -/
theorem of_find {l : Listing} {key : Bytes} {e : HeldEntry} (h : l.find key = some e) :
    e ∈ l ∧ e.key = key :=
  ⟨List.mem_of_find?_eq_some h, by simpa only [beq_iff_eq] using List.find?_some h⟩

/-- A key that finds an entry takes one out at least. -/
theorem length_without_lt {l : Listing} {key : Bytes} {e : HeldEntry} (h : l.find key = some e) :
    (l.without key).length < l.length := by
  apply List.length_filter_lt_length_iff_exists.mpr
  obtain ⟨he, hk⟩ := of_find h
  refine ⟨e, he, ?_⟩
  simp [hk]

/-- A key finds nothing if it is not among the keys. -/
theorem find_eq_none {l : Listing} {key : Bytes} : l.find key = none ↔ key ∉ keys l := by
  simp only [find, keys, List.find?_eq_none, beq_iff_eq, List.mem_map, not_exists, not_and]

/-- A key that was taken out finds nothing. -/
theorem find_without (l : Listing) (key : Bytes) : (l.without key).find key = none := by
  rw [find_eq_none, keys_without, List.mem_filter]
  rintro ⟨_, hk⟩
  exact of_decide_eq_true hk rfl

theorem notMem_keys_without (l : Listing) (key : Bytes) : key ∉ keys (l.without key) :=
  find_eq_none.mp (l.find_without key)

/-- Among distinct keys an entry is the one that its key finds. -/
theorem find_eq_some {l : Listing} (nodup : (keys l).Nodup) {key : Bytes} {e : HeldEntry} :
    l.find key = some e ↔ e ∈ l ∧ e.key = key := by
  constructor
  · exact of_find
  · rintro ⟨he, rfl⟩
    induction l with
    | nil => cases he
    | cons a l ih =>
      obtain ⟨ha, hl⟩ := List.nodup_cons.mp nodup
      rw [find, List.find?_cons]
      rcases List.mem_cons.mp he with rfl | he
      · rw [beq_self_eq_true]
      · have hne : a.key ≠ e.key := fun hk => ha (hk ▸ List.mem_map_of_mem he)
        rw [beq_eq_false_iff_ne.mpr hne]
        exact ih hl he

theorem isSome_value (l : Listing) (key : Bytes) : (l.value key).isSome = (l.find key).isSome :=
  Option.isSome_map

theorem mem_keys_iff (l : Listing) (key : Bytes) : key ∈ keys l ↔ (l.value key).isSome := by
  rw [isSome_value, Option.isSome_iff_ne_none, ne_eq, find_eq_none, Classical.not_not]

/-- Among distinct keys a value is found just when there is an entry with it. -/
theorem value_eq_some {l : Listing} (nodup : (keys l).Nodup) {key v : Bytes} :
    l.value key = some v ↔ ∃ size, ⟨key, v, size⟩ ∈ l := by
  rw [value, Option.map_eq_some_iff]
  constructor
  · rintro ⟨e, he, rfl⟩
    obtain ⟨hmem, rfl⟩ := (find_eq_some nodup).mp he
    exact ⟨e.size, hmem⟩
  · rintro ⟨size, hmem⟩
    exact ⟨_, (find_eq_some nodup).mpr ⟨hmem, rfl⟩, rfl⟩

/-- Entries that are the same but for their order give the same values. -/
theorem value_congr {l m : Listing} (nodup : (keys l).Nodup) (nodup' : (keys m).Nodup)
    (same : ∀ e, e ∈ m ↔ e ∈ l) (key : Bytes) : m.value key = l.value key := by
  refine Option.ext fun v => ?_
  simp only [value_eq_some nodup, value_eq_some nodup', same]

/-- Taking a key out is seen at that key only. -/
theorem value_without {l : Listing} (nodup : (keys l).Nodup) (key k : Bytes) :
    (l.without key).value k = if key = k then none else l.value k := by
  by_cases hk : key = k
  · rw [if_pos hk, ← hk, value, find_without]
    rfl
  · have nodup' : (keys (l.without key)).Nodup := keys_without l key ▸ nodup.filter _
    rw [if_neg hk]
    refine Option.ext fun v => ?_
    simp only [value_eq_some nodup, value_eq_some nodup', mem_without, Ne.symm hk, ne_eq,
      not_false_eq_true, and_true]

/-- A write leaves no value but the one written and the old ones of other keys. -/
theorem value_of_written {l m : Listing} (nodup : (keys l).Nodup) (nodup' : (keys m).Nodup)
    {entry : HeldEntry} (written : ∀ e ∈ m, e = entry ∨ e ∈ l ∧ e.key ≠ entry.key) {key v : Bytes}
    (h : m.value key = some v) :
    key = entry.key ∧ v = entry.value ∨ key ≠ entry.key ∧ l.value key = some v := by
  obtain ⟨size, hmem⟩ := (value_eq_some nodup').mp h
  rcases written _ hmem with rfl | ⟨hold, hne⟩
  · exact .inl ⟨rfl, rfl⟩
  · exact .inr ⟨hne, (value_eq_some nodup).mpr ⟨size, hold⟩⟩

theorem bytes_append (l m : Listing) : bytes (l ++ m) = bytes l + bytes m := by
  induction l with
  | nil => exact (Nat.zero_add _).symm
  | cons e l ih => rw [List.cons_append, bytes, bytes, ih, Nat.add_assoc]

/-- Some of the entries count for no more than all of them. -/
theorem bytes_sublist {l m : Listing} (h : l.Sublist m) : bytes l ≤ bytes m := by
  induction h with
  | slnil => exact Nat.le_refl _
  | cons e _ ih =>
    rw [bytes]
    omega
  | cons_cons e _ ih =>
    rw [bytes, bytes]
    omega

/-- The order of the entries does not matter to their sum. -/
theorem bytes_perm {l m : Listing} (h : l.Perm m) : bytes l = bytes m := by
  induction h with
  | nil => rfl
  | cons e _ ih => rw [bytes, bytes, ih]
  | swap a b l =>
    simp only [bytes]
    omega
  | trans _ _ ih ih' => exact ih.trans ih'

/-- Entries with distinct keys count for no more than any that they are among. -/
theorem bytes_le_of_subset {l m : Listing} (nodup : (keys l).Nodup) (subset : l ⊆ m) :
    bytes l ≤ bytes m := by
  obtain ⟨_, perm, sublist⟩ := List.subperm_of_subset nodup.of_map subset
  rw [← bytes_perm perm]
  exact bytes_sublist sublist

/-- Entries of which at most one is new count for no more than the old ones and that one. -/
theorem bytes_le_add {l m : Listing} {e : HeldEntry} (nodup : (keys l).Nodup)
    (subset : l ⊆ e :: m) : bytes l ≤ bytes m + e.size := by
  have hle := bytes_le_of_subset nodup subset
  rw [bytes, Nat.add_comm] at hle
  exact hle

/-- Taking an entry out takes its size off the sum. -/
theorem bytes_without {l : Listing} (nodup : (keys l).Nodup) {key : Bytes} {e : HeldEntry}
    (h : l.find key = some e) : bytes l = bytes (l.without key) + e.size := by
  obtain ⟨he, rfl⟩ := (find_eq_some nodup).mp h
  clear h
  induction l with
  | nil => cases he
  | cons a l ih =>
    obtain ⟨ha, hl⟩ := List.nodup_cons.mp nodup
    by_cases hk : a.key = e.key
    · have hae : a = e := by
        rcases List.mem_cons.mp he with h | h
        · exact h.symm
        · exact absurd (hk ▸ List.mem_map_of_mem h) ha
      subst hae
      rw [without_head nodup, bytes, Nat.add_comm]
    · have rest : without (a :: l) e.key = a :: without l e.key :=
        List.filter_cons_of_pos (decide_eq_true hk)
      have hmem : e ∈ l := (List.mem_cons.mp he).resolve_left fun h => hk (h ▸ rfl)
      rw [rest, bytes, bytes, ih hl hmem, Nat.add_assoc]

/-- Writing over keeps the keys and their order. -/
theorem keys_rewrite (l : Listing) (entry : HeldEntry) : keys (l.rewrite entry) = keys l := by
  rw [keys, rewrite, List.map_map]
  refine List.map_congr_left fun e _ => ?_
  by_cases h : e.key = entry.key
  · rw [Function.comp_apply, if_pos h, h]
  · rw [Function.comp_apply, if_neg h]

/-- Writing over and taking out is taking out. -/
theorem without_rewrite (l : Listing) (entry : HeldEntry) :
    (l.rewrite entry).without entry.key = l.without entry.key := by
  induction l with
  | nil => rfl
  | cons a l ih =>
    simp only [without, rewrite, List.map_cons, List.filter_cons] at ih ⊢
    rw [ih]
    by_cases hk : a.key = entry.key
    · have gone : decide (entry.key ≠ entry.key) = false := decide_eq_false (fun h => h rfl)
      rw [if_pos hk, hk, gone]
      rfl
    · rw [if_neg hk]

/-- Writing an entry over puts its size in the place of the old one. -/
theorem bytes_rewrite {l : Listing} (nodup : (keys l).Nodup) {old entry : HeldEntry}
    (h : l.find entry.key = some old) :
    bytes (l.rewrite entry) = bytes (l.without entry.key) + entry.size := by
  have found : (l.rewrite entry).find entry.key = some entry := by
    obtain ⟨he, hk⟩ := (find_eq_some nodup).mp h
    refine (find_eq_some (keys_rewrite l entry ▸ nodup)).mpr ⟨?_, rfl⟩
    exact List.mem_map.mpr ⟨old, he, if_pos hk⟩
  rw [bytes_without (keys_rewrite l entry ▸ nodup) found, without_rewrite]

/-! ## Going from the front -/

/-- Dropping the overflow leaves a rest that fits, and dropping fewer does not: what goes is the
shortest beginning whose loss makes the rest fit. -/
theorem overflow_least {fits : Listing → Bool} (empty : fits [] = true) (l : Listing) :
    fits (l.drop (l.overflow fits)) = true ∧
      ∀ n, n < l.overflow fits → fits (l.drop n) = false := by
  induction l with
  | nil => exact ⟨empty, fun n hn => absurd hn (Nat.not_lt_zero n)⟩
  | cons e rest ih =>
    by_cases h : fits (e :: rest) = true
    · simp only [overflow, if_pos h]
      exact ⟨h, fun n hn => absurd hn (Nat.not_lt_zero n)⟩
    · simp only [overflow, if_neg h]
      refine ⟨ih.1, fun n hn => ?_⟩
      cases n with
      | zero => exact eq_false_of_ne_true h
      | succ n => exact ih.2 n (Nat.lt_of_succ_lt_succ hn)

/-- A listing of distinct keys loses one of them just when something is dropped from its front. -/
theorem lost_iff {l : Listing} (nodup : (keys l).Nodup) (nonempty : l ≠ []) (n : Nat) :
    0 < n ↔ ∃ k ∈ keys l, k ∉ keys (l.drop n) := by
  cases n with
  | zero =>
    refine ⟨fun h => absurd h (Nat.lt_irrefl 0), ?_⟩
    rintro ⟨k, hk, hlost⟩
    exact absurd hk hlost
  | succ n =>
    refine ⟨fun _ => ?_, fun _ => Nat.succ_pos n⟩
    obtain ⟨e, rest, rfl⟩ := List.exists_cons_of_ne_nil nonempty
    refine ⟨e.key, List.mem_cons_self, fun hkept => (List.nodup_cons.mp nodup).1 ?_⟩
    exact ((List.drop_sublist n rest).map HeldEntry.key).mem hkept

/-! ## A map of entries and an order of keys -/

/-- The entries that keys look up, in the order of the keys. -/
def of (lookup : Bytes → Option HeldEntry) (order : List Bytes) : Listing :=
  order.filterMap lookup

/-- The order has the keys of the map, each once, and the map's entries know their keys. -/
structure Indexed (lookup : Bytes → Option HeldEntry) (order : List Bytes) : Prop where
  nodup : order.Nodup
  mem : ∀ key, key ∈ order ↔ (lookup key).isSome
  named : ∀ key e, lookup key = some e → e.key = key

section Indexed

variable {lookup : Bytes → Option HeldEntry} {order : List Bytes}

/-- Every key of the order has an entry, so the listing has the keys in that order. -/
theorem keys_of (h : Indexed lookup order) : keys (of lookup order) = order := by
  rw [keys, of, List.map_filterMap]
  refine (List.filterMap_congr fun k hk => ?_).trans List.filterMap_some
  obtain ⟨e, he⟩ := Option.isSome_iff_exists.mp ((h.mem k).mp hk)
  rw [he, Option.map_some, h.named k e he]

/-- The entries of the listing are those that can be looked up. -/
theorem mem_of (h : Indexed lookup order) {e : HeldEntry} :
    e ∈ of lookup order ↔ lookup e.key = some e := by
  constructor
  · intro he
    obtain ⟨key, _, hk⟩ := List.mem_filterMap.mp he
    rw [h.named key e hk, hk]
  · intro he
    exact List.mem_filterMap.mpr ⟨e.key, (h.mem _).mpr (by rw [he]; rfl), he⟩

/-- Looking up in the listing is looking up. -/
theorem find_of (h : Indexed lookup order) (key : Bytes) :
    (of lookup order).find key = lookup key := by
  have nodup : (keys (of lookup order)).Nodup := (keys_of h).symm ▸ h.nodup
  cases hk : lookup key with
  | none =>
    rw [find_eq_none, keys_of h, h.mem, hk]
    exact Bool.false_ne_true
  | some e =>
    have named := h.named key e hk
    exact (find_eq_some nodup).mpr ⟨(mem_of h).mpr (named ▸ hk), named⟩

/-- Only the keys of the order are looked up. -/
theorem of_congr {other : Bytes → Option HeldEntry} (h : ∀ key ∈ order, lookup key = other key) :
    of lookup order = of other order :=
  List.filterMap_congr h

/-- A key that leaves the map and the order takes its entry along. -/
theorem of_erase (h : Indexed lookup order) {other : Bytes → Option HeldEntry} {key : Bytes}
    (same : ∀ k, key ≠ k → other k = lookup k) :
    of other (order.filter fun k => k ≠ key) = (of lookup order).without key := by
  rw [of, without, of, List.filterMap_filter, List.filter_filterMap]
  refine List.filterMap_congr fun k hk => ?_
  obtain ⟨e, he⟩ := Option.isSome_iff_exists.mp ((h.mem k).mp hk)
  rw [he, Option.filter_some, h.named k e he]
  by_cases hkey : k = key
  · simp only [hkey, ne_eq, not_true_eq_false, decide_false, Bool.false_eq_true, if_false]
  · simp only [ne_eq, hkey, not_false_eq_true, decide_true, if_true, same k (Ne.symm hkey), he]

/-- A key that enters the map and the end of the order brings its entry. -/
theorem of_insert {other : Bytes → Option HeldEntry} (entry : HeldEntry)
    (absent : entry.key ∉ order)
    (insert : ∀ k, other k = if entry.key = k then some entry else lookup k) :
    of other (order ++ [entry.key]) = of lookup order ++ [entry] := by
  rw [of, List.filterMap_append]
  refine congrArg₂ _ (of_congr fun k hk => ?_) ?_
  · rw [insert, if_neg fun he : entry.key = k => absent (he ▸ hk)]
  · rw [List.filterMap_cons, insert, if_pos rfl]
    rfl

/-- Writing over the entry of a key that stays in its place in the order. -/
theorem of_rewrite (h : Indexed lookup order) {other : Bytes → Option HeldEntry}
    {entry : HeldEntry} (insert : ∀ k, other k = if entry.key = k then some entry else lookup k) :
    of other order = (of lookup order).rewrite entry := by
  rw [of, rewrite, of, List.map_filterMap]
  refine List.filterMap_congr fun k hk => ?_
  obtain ⟨e, he⟩ := Option.isSome_iff_exists.mp ((h.mem k).mp hk)
  rw [insert, he, Option.map_some, h.named k e he]
  by_cases hkey : entry.key = k
  · rw [if_pos hkey, if_pos hkey.symm]
  · rw [if_neg hkey, if_neg (Ne.symm hkey)]

/-- The entries of a map in the order of its keys are those in any other order. -/
theorem perm_toList {ε : Type} {m : Std.TreeMap Bytes ε} {entry : Bytes → ε → HeldEntry}
    (h : Indexed (fun key => m[key]?.map (entry key)) order) :
    (m.toList.map fun p => entry p.1 p.2).Perm (of (fun key => m[key]?.map (entry key)) order) := by
  have looked : ∀ p ∈ m.toList, m[p.1]?.map (entry p.1) = some (entry p.1 p.2) := by
    intro p hp
    rw [OrderedMap.mem_toList.mp hp]
    rfl
  have named : ∀ p ∈ m.toList, (entry p.1 p.2).key = p.1 := fun p hp => h.named _ _ (looked p hp)
  have nodup : (keys (m.toList.map fun p => entry p.1 p.2)).Nodup := by
    have fst : keys (m.toList.map fun p => entry p.1 p.2) = m.toList.map Prod.fst :=
      List.map_map.trans (List.map_congr_left named)
    rw [fst]
    exact OrderedMap.nodup_keys m
  have nodup' : (keys (of (fun key => m[key]?.map (entry key)) order)).Nodup :=
    (keys_of h).symm ▸ h.nodup
  refine (List.perm_ext_iff_of_nodup nodup.of_map nodup'.of_map).mpr fun e => ?_
  rw [mem_of h, List.mem_map]
  constructor
  · rintro ⟨p, hp, rfl⟩
    rw [named p hp]
    exact looked p hp
  · intro he
    obtain ⟨r, hr, hentry⟩ := Option.map_eq_some_iff.mp he
    exact ⟨(e.key, r), OrderedMap.mem_toList.mpr hr, hentry⟩

end Indexed

end Listing

end TieredStore
