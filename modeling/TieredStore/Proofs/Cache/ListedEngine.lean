import TieredStore.Proofs.Cache.LawfulEngine

/-!
# Caches read as their entries

`LawfulEngine` speaks of values only. What a cache counts and what it reports as evicted is told by
its entries: `ListedEngine` is a lawful cache read as the `Listing` of what it holds. Its keys, its
number of entries and, unless adding it up has `wrapped`, its byte size are those of the listing; a
write leaves nothing but the entry written and old ones of other keys, and its flag says whether a
key was lost; no other call brings an entry in. Adding up wraps in no other case than that the
sizes of the entries, and of the one that is written, come to more than 64 bits hold.

Here the recency cache is read so. What a write to it loses is a beginning of the listing, and a
beginning is lost just when some key is (`Listing.lost_iff`).
-/

namespace TieredStore

/-- The size that a call brings in. -/
def CacheCall.counted : CacheCall → Nat
  | put _ _ bytes => bytes
  | _ => 0

/-- The laws of a cache of type `κ` read as its entries. -/
class ListedEngine (κ : Type) [CacheEngine κ] [LawfulEngine κ] where
  /-- The entries, in the order of the keys. -/
  entries : κ → Listing
  /-- What a cache is built with, beyond what is valid, and keeps. -/
  Built : κ → Prop
  built_perform : ∀ {c : κ}, Built c → ∀ call, Built (CacheEngine.perform c call).2
  keys_eq : ∀ {c : κ}, LawfulEngine.Valid c → CacheEngine.keys c = (entries c).keys
  nodup : ∀ {c : κ}, LawfulEngine.Valid c → (entries c).keys.Nodup
  peek_eq : ∀ {c : κ}, LawfulEngine.Valid c → ∀ key,
    CacheEngine.peek c key = (entries c).value key
  size_eq : ∀ {c : κ}, LawfulEngine.Valid c → CacheEngine.size c = (entries c).length
  /-- Whether an addition on the way to the byte size has left 64 bits. -/
  wrapped : κ → Bool
  byteSize_le : ∀ {c : κ}, LawfulEngine.Valid c → CacheEngine.byteSize c ≤ (entries c).bytes
  byteSize_eq : ∀ {c : κ}, LawfulEngine.Valid c → wrapped c = false →
    CacheEngine.byteSize c = (entries c).bytes
  /-- It takes more than 64 bits hold to leave them, before any entry goes for the one written. -/
  wrapped_perform : ∀ {c : κ}, LawfulEngine.Valid c → wrapped c = false → ∀ call : CacheCall,
    (entries c).bytes + call.counted < UInt64.size → wrapped (CacheEngine.perform c call).2 = false
  mem_get : ∀ {c : κ}, LawfulEngine.Valid c → ∀ key {e},
    e ∈ entries (CacheEngine.get c key).2 → e ∈ entries c
  mem_put : ∀ {c : κ}, LawfulEngine.Valid c → ∀ {key value size e},
    e ∈ entries (CacheEngine.put c key value size).2 →
      e = ⟨key, value, size⟩ ∨ e ∈ entries c ∧ e.key ≠ key
  /-- An entry was evicted just when one of the keys held, or the one written, is not held now. -/
  evicted_iff : ∀ {c : κ}, LawfulEngine.Valid c → Built c → ∀ key value size,
    (CacheEngine.put c key value size).1 = true ↔
      ∃ k ∈ key :: CacheEngine.keys c, k ∉ CacheEngine.keys (CacheEngine.put c key value size).2
  mem_remove : ∀ {c : κ}, LawfulEngine.Valid c → ∀ {key e},
    e ∈ entries (CacheEngine.remove c key) → e ∈ entries c ∧ e.key ≠ key
  entries_clear : ∀ {c : κ}, LawfulEngine.Valid c → entries (CacheEngine.clear c) = []

/-- An empty cache lists and counts nothing. -/
theorem ListedEngine.of_empty {κ : Type} [CacheEngine κ] [LawfulEngine κ] [ListedEngine κ] {c : κ}
    (valid : LawfulEngine.Valid c) (empty : ∀ key, CacheEngine.peek c key = none) :
    entries c = [] ∧ CacheEngine.keys c = [] ∧ CacheEngine.size c = 0 ∧
      CacheEngine.byteSize c = 0 := by
  have hkeys := LawfulEngine.keys_eq_nil valid empty
  have hentries : entries c = [] := List.map_eq_nil_iff.mp ((keys_eq valid).symm.trans hkeys)
  refine ⟨hentries, hkeys, ?_, ?_⟩
  · rw [size_eq valid, hentries, List.length_nil]
  · have hbytes := byteSize_le valid
    rw [hentries] at hbytes
    exact Nat.le_zero.mp hbytes

namespace RecencyList

/-- Before anything is evicted the key written is held, and no key is lost. -/
theorem mem_keys_written (r : RecencyList) {key value : Bytes} {size : Nat} {k : Bytes} :
    k ∈ (r.written key value size).keys ↔ k ∈ key :: r.entries.keys := by
  rw [written, Listing.mem_keys_concat, Listing.keys_without, List.mem_cons, List.mem_cons]
  by_cases hk : k = key
  · simp only [hk, true_or]
  · simp [hk]

theorem nodup_written (r : RecencyList) (nodup : r.entries.keys.Nodup) (key value : Bytes)
    (size : Nat) : (r.written key value size).keys.Nodup := by
  refine Listing.nodup_concat (Listing.keys_without r.entries key ▸ nodup.filter _) ?_
  exact r.entries.notMem_keys_without key

/-- A write evicts a beginning of what is there when the value has been added, so it evicts
something just when some key is lost, its own included. -/
theorem evicted_iff (r : RecencyList) (nodup : r.entries.keys.Nodup) (key value : Bytes)
    (size : Nat) :
    (r.put key value size).1 = true ↔
      ∃ k ∈ key :: r.entries.keys, k ∉ (r.put key value size).2.entries.keys := by
  have nonempty : r.written key value size ≠ [] := List.append_ne_nil_of_right_ne_nil _ nofun
  have hlost := Listing.lost_iff (r.nodup_written nodup key value size) nonempty
  simp only [put, decide_eq_true_eq, hlost, mem_keys_written]

end RecencyList

namespace RecencyCache

variable {c : RecencyCache}

instance : ListedEngine RecencyCache where
  entries c := c.view.entries
  Built _ := True
  built_perform _ _ := trivial
  keys_eq h := keys_view h
  nodup h := nodup_view h
  peek_eq h key := view_peek h key
  size_eq h := h.size_entries
  wrapped _ := false
  byteSize_le h := Nat.le_of_eq h.bytes
  byteSize_eq h _ := h.bytes
  wrapped_perform _ _ _ _ := rfl
  mem_get {c} h key e he := by
    rw [show (CacheEngine.get c key).2.view = _ from (view_get h key).2.2] at he
    exact (c.view.mem_get (nodup_view h)).mp he
  mem_put {c} h {key value size e} he := by
    rw [show (CacheEngine.put c key value size).2.view = _ from
      (view_put h key value size).2.2] at he
    exact c.view.of_mem_put he
  evicted_iff {c} h _ key value size := by
    obtain ⟨hevicted, hvalid, hview⟩ := view_put h key value size
    show (c.put key value size).1 = true ↔
      ∃ k ∈ key :: c.keys, k ∉ (c.put key value size).2.keys
    rw [hevicted, keys_view h, keys_view hvalid, hview]
    exact c.view.evicted_iff (nodup_view h) key value size
  mem_remove {c} h {key e} he := by
    rw [show (CacheEngine.remove c key).view = _ from view_remove h key] at he
    exact Listing.mem_without.mp he
  entries_clear _ := rfl

end RecencyCache

end TieredStore
