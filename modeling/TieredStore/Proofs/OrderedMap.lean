import Std.Data.TreeMap.Lemmas

/-!
# Ordered maps read as lists

The caches keep their entries in ordered maps and show them as lists. A list is the reading of a
map when it is in strict key order and has the map's pairs, and no other list is
(`toList_eq_of_mem_iff`). From that follow the readings after a pair is erased, after one is added
behind all others, and the pair of the least key. Whoever has the keys in another order gets back to
the reading by sorting them (`mergeSort_keys`).
-/

namespace TieredStore.OrderedMap

open Std

variable {α β : Type} {cmp : α → α → Ordering} [TransCmp cmp]

/-- The pairs of a map stand in strict key order. -/
theorem toList_ascending (m : TreeMap α β cmp) :
    m.toList.Pairwise fun a b => cmp a.1 b.1 = .lt :=
  m.ordered_keys_toList

/-- The reading has every key once. -/
theorem nodup_keys (m : TreeMap α β cmp) : (m.toList.map Prod.fst).Nodup := by
  rw [List.Nodup, List.pairwise_map]
  apply (toList_ascending m).imp
  intro a b hab he
  rw [he] at hab
  cases (@ReflCmp.compare_self _ cmp _ _).symm.trans hab

variable [LawfulEqCmp cmp]

/-- A look-up after an insertion, by equality of the keys. -/
theorem getElem?_insert (m : TreeMap α β cmp) [DecidableEq α] (k a : α) (v : β) :
    (m.insert k v)[a]? = if k = a then some v else m[a]? := by
  rw [TreeMap.getElem?_insert]
  simp only [LawfulEqCmp.compare_eq_iff_eq]

/-- A look-up after an erasure, by equality of the keys. -/
theorem getElem?_erase (m : TreeMap α β cmp) [DecidableEq α] (k a : α) :
    (m.erase k)[a]? = if k = a then none else m[a]? := by
  rw [TreeMap.getElem?_erase]
  simp only [LawfulEqCmp.compare_eq_iff_eq]

theorem mem_toList {m : TreeMap α β cmp} {p : α × β} : p ∈ m.toList ↔ m[p.1]? = some p.2 :=
  TreeMap.mem_toList_iff_getElem?_eq_some (k := p.1) (v := p.2)

omit [LawfulEqCmp cmp] in
private theorem ascending_nodup {l : List (α × β)}
    (h : l.Pairwise fun a b => cmp a.1 b.1 = .lt) : l.Nodup := by
  apply h.imp
  intro a b hab he
  subst he
  cases (@ReflCmp.compare_self _ cmp _ _).symm.trans hab

/-- The reading of a map is the only list in strict key order with the map's pairs. -/
theorem toList_eq_of_mem_iff {m : TreeMap α β cmp} {l : List (α × β)}
    (sorted : l.Pairwise fun a b => cmp a.1 b.1 = .lt)
    (mem : ∀ p, p ∈ l ↔ m[p.1]? = some p.2) : m.toList = l := by
  have perm : m.toList.Perm l :=
    (List.perm_ext_iff_of_nodup (ascending_nodup (toList_ascending m)) (ascending_nodup sorted)).mpr
      fun p => mem_toList.trans (mem p).symm
  refine List.Perm.eq_of_pairwise ?_ (toList_ascending m) sorted perm
  intro a b _ _ hab hba
  rw [@OrientedCmp.eq_swap _ cmp, hab] at hba
  cases hba

/-- The keys of a map in any order, once sorted, are the keys of its reading. -/
theorem mergeSort_keys {m : TreeMap α β cmp} {keys : List α} (perm : keys.Perm m.keys) :
    (keys.mergeSort fun a b => (cmp a b).isLE) = m.keys := by
  have total (a b : α) : ((cmp a b).isLE || (cmp b a).isLE) = true := by
    rw [@OrientedCmp.eq_swap _ cmp _ b a]
    cases cmp a b <;> rfl
  have hsorted := List.pairwise_mergeSort (fun _ _ _ => TransCmp.isLE_trans) total keys
  have hkeys : m.keys.Pairwise fun a b => (cmp a b).isLE :=
    m.ordered_keys.imp Ordering.isLE_of_eq_lt
  refine List.Perm.eq_of_pairwise ?_ hsorted hkeys ((List.mergeSort_perm keys _).trans perm)
  intro a b _ _ hab hba
  exact LawfulEqCmp.eq_of_compare (OrientedCmp.isLE_antisymm hab hba)

/-- Erasing a key takes its pair out of the reading. -/
theorem toList_erase (m : TreeMap α β cmp) [DecidableEq α] (k : α) :
    (m.erase k).toList = m.toList.filter fun p => p.1 ≠ k := by
  apply toList_eq_of_mem_iff ((toList_ascending m).filter _)
  intro p
  rw [List.mem_filter, mem_toList, getElem?_erase]
  by_cases h : k = p.1
  · simp [h]
  · simp [h, Ne.symm h]

/-- A key behind all others is added at the end of the reading. -/
theorem toList_insert_last (m : TreeMap α β cmp) [DecidableEq α] (k : α) (v : β)
    (last : ∀ a b, m[a]? = some b → cmp a k = .lt) :
    (m.insert k v).toList = m.toList ++ [(k, v)] := by
  have absent : m[k]? = none := by
    cases h : m[k]? with
    | none => rfl
    | some b =>
      cases (@ReflCmp.compare_self _ cmp _ _).symm.trans (last k b h)
  apply toList_eq_of_mem_iff
  · refine List.pairwise_append.mpr ⟨toList_ascending m, List.pairwise_singleton _ _, ?_⟩
    intro p hp q hq
    rw [List.mem_singleton.mp hq]
    exact last p.1 p.2 (mem_toList.mp hp)
  · rintro ⟨a, b⟩
    rw [List.mem_append, mem_toList, List.mem_singleton, getElem?_insert]
    by_cases h : k = a
    · subst h
      simp [absent, eq_comm]
    · simp [h, Ne.symm h]

/-- The least key is that of the reading's first pair. -/
theorem minKey?_eq (m : TreeMap α β cmp) : m.minKey? = m.toList.head?.map Prod.fst := by
  cases h : m.toList with
  | nil =>
    have empty : m.isEmpty = true := by
      rw [← TreeMap.isEmpty_toList, h]
      rfl
    rw [TreeMap.minKey?_of_isEmpty empty]
    rfl
  | cons p rest =>
    have sorted := toList_ascending m
    rw [h] at sorted
    have first : m[p.1]? = some p.2 := mem_toList.mp (h ▸ List.mem_cons_self)
    rw [List.head?_cons, Option.map_some, TreeMap.minKey?_eq_some_iff_mem_and_forall]
    refine ⟨TreeMap.mem_iff_isSome_getElem?.mpr (by rw [first]; rfl), ?_⟩
    intro k hk
    obtain ⟨v, hv⟩ := Option.isSome_iff_exists.mp (TreeMap.mem_iff_isSome_getElem?.mp hk)
    have mem : (k, v) ∈ p :: rest := h ▸ mem_toList.mpr hv
    rcases List.mem_cons.mp mem with he | hr
    · rw [← he, ReflCmp.isLE_rfl]
    · rw [(List.pairwise_cons.mp sorted).1 _ hr]
      rfl

/-- Maps with the same keys list them alike, whatever is under them. -/
theorem keys_eq_iff {γ : Type} {m : TreeMap α β cmp} {n : TreeMap α γ cmp} :
    m.keys = n.keys ↔ ∀ k, k ∈ m ↔ k ∈ n := by
  constructor
  · intro h k
    rw [← TreeMap.mem_keys, h, TreeMap.mem_keys]
  · intro h
    have perm : m.keys.Perm n.keys :=
      (List.perm_ext_iff_of_nodup TreeMap.nodup_keys TreeMap.nodup_keys).mpr fun k =>
        TreeMap.mem_keys.trans ((h k).trans TreeMap.mem_keys.symm)
    refine List.Perm.eq_of_pairwise ?_ TreeMap.ordered_keys TreeMap.ordered_keys perm
    intro a b _ _ hab hba
    rw [@OrientedCmp.eq_swap _ cmp, hab] at hba
    cases hba

/-- Keys without repetition that are those of a map are as many as the map has. -/
theorem size_eq_length {m : TreeMap α β cmp} {l : List α} (nodup : l.Nodup)
    (mem : ∀ k, k ∈ l ↔ (m[k]?).isSome) : m.size = l.length := by
  have perm : m.keys.Perm l :=
    (List.perm_ext_iff_of_nodup TreeMap.nodup_keys nodup).mpr fun k =>
      TreeMap.mem_keys.trans (TreeMap.mem_iff_isSome_getElem?.trans (mem k).symm)
  rw [← TreeMap.length_keys, perm.length_eq]

end TieredStore.OrderedMap
