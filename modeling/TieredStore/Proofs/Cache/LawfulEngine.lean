import TieredStore.Proofs.Cache.RecencyList

/-!
# What every cache keeps to

A cache may drop entries whenever it is written to, but it never makes one up. `LawfulEngine` says
so in terms of `peek`: after a write a cache holds nothing but the value written and old values of
other keys; a removal takes one key away and a read takes none; what `get`, `has` and `keys` answer
is what `peek` does. The laws hold between two calls, which is when a cache is `Valid`.

Nothing more is needed for a cache to stand in front of a store unseen. Here the recency cache is
shown to be lawful.
-/

namespace TieredStore

/-- The laws of a cache of type `κ`. -/
class LawfulEngine (κ : Type) [CacheEngine κ] where
  /-- What holds of a cache between two calls. -/
  Valid : κ → Prop
  mem_keys : ∀ {c : κ}, Valid c → ∀ key,
    key ∈ CacheEngine.keys c ↔ (CacheEngine.peek c key).isSome
  has_eq : ∀ {c : κ}, Valid c → ∀ key, CacheEngine.has c key = (CacheEngine.peek c key).isSome
  get_fst : ∀ {c : κ}, Valid c → ∀ key, (CacheEngine.get c key).1 = CacheEngine.peek c key
  valid_get : ∀ {c : κ}, Valid c → ∀ key, Valid (CacheEngine.get c key).2
  peek_get : ∀ {c : κ}, Valid c → ∀ key k,
    CacheEngine.peek (CacheEngine.get c key).2 k = CacheEngine.peek c k
  valid_put : ∀ {c : κ}, Valid c → ∀ key value size, Valid (CacheEngine.put c key value size).2
  peek_put : ∀ {c : κ}, Valid c → ∀ {key value size k v},
    CacheEngine.peek (CacheEngine.put c key value size).2 k = some v →
      k = key ∧ v = value ∨ k ≠ key ∧ CacheEngine.peek c k = some v
  valid_remove : ∀ {c : κ}, Valid c → ∀ key, Valid (CacheEngine.remove c key)
  peek_remove : ∀ {c : κ}, Valid c → ∀ key k,
    CacheEngine.peek (CacheEngine.remove c key) k =
      if key = k then none else CacheEngine.peek c k
  valid_clear : ∀ {c : κ}, Valid c → Valid (CacheEngine.clear c)
  peek_clear : ∀ {c : κ}, Valid c → ∀ k, CacheEngine.peek (CacheEngine.clear c) k = none

namespace LawfulEngine

variable {κ : Type} [CacheEngine κ] [LawfulEngine κ] {c : κ}

/-- Every call keeps a cache valid. -/
theorem valid_perform (h : Valid c) (call : CacheCall) :
    Valid (CacheEngine.perform c call).2 := by
  cases call with
  | put key value size => exact valid_put h key value size
  | get key => exact valid_get h key
  | remove key => exact valid_remove h key
  | clear => exact valid_clear h
  | _ => exact h

/-- What is held after a removal was held before it, under another key. -/
theorem of_peek_remove (h : Valid c) {key k v : Bytes}
    (held : CacheEngine.peek (CacheEngine.remove c key) k = some v) :
    key ≠ k ∧ CacheEngine.peek c k = some v := by
  rw [peek_remove h] at held
  split at held
  · cases held
  · next hne => exact ⟨hne, held⟩

/-- What is held after a write was taken back was held before it, under another key. -/
theorem of_peek_remove_put (h : Valid c) {key value k v : Bytes} {size : Nat}
    (held : CacheEngine.peek (CacheEngine.remove (CacheEngine.put c key value size).2 key) k =
      some v) :
    key ≠ k ∧ CacheEngine.peek c k = some v := by
  obtain ⟨hne, hput⟩ := of_peek_remove (valid_put h key value size) held
  rcases peek_put h hput with ⟨rfl, _⟩ | ⟨_, hold⟩
  · exact absurd rfl hne
  · exact ⟨hne, hold⟩

/-- A cache without values lists no keys. -/
theorem keys_eq_nil (h : Valid c) (empty : ∀ key, CacheEngine.peek c key = none) :
    CacheEngine.keys c = [] := by
  refine List.eq_nil_iff_forall_not_mem.mpr fun key hkey => ?_
  rw [mem_keys h, empty] at hkey
  cases hkey

end LawfulEngine

namespace RecencyCache

variable {c : RecencyCache}

/-- The keys of the table are those of its listing. -/
theorem keys_view (h : c.table.Valid) : c.keys = c.view.entries.keys :=
  h.keys_listing.symm

theorem nodup_view (h : c.table.Valid) : c.view.entries.keys.Nodup := h.nodup

/-- Values are looked up in the listing that a cache is known to read as. -/
theorem peek_eq_of_view {d : RecencyCache} (h : d.table.Valid) {r : RecencyList} (hr : d.view = r)
    (key : Bytes) : d.peek key = r.entries.value key := by
  rw [view_peek h, hr]

instance : LawfulEngine RecencyCache where
  Valid c := c.table.Valid
  mem_keys {c} h key := by
    show key ∈ c.keys ↔ (c.peek key).isSome = true
    rw [keys_view h, view_peek h, Listing.mem_keys_iff]
  has_eq h key := (view_has h key).trans (by rw [← Listing.isSome_value, ← view_peek h]; rfl)
  get_fst {c} h key := by
    refine (view_get h key).1.trans (Eq.trans ?_ (view_peek h key).symm)
    exact c.view.get_fst key
  valid_get h key := (view_get h key).2.1
  peek_get {c} h key k := by
    obtain ⟨_, hvalid, hview⟩ := view_get h key
    have hnodup := nodup_view hvalid
    rw [hview] at hnodup
    refine (peek_eq_of_view hvalid hview k).trans (Eq.trans ?_ (view_peek h k).symm)
    exact Listing.value_congr h.nodup hnodup (fun e => c.view.mem_get h.nodup) k
  valid_put h key value size := (view_put h key value size).2.1
  peek_put {c} h {key value size k v} hv := by
    obtain ⟨_, hvalid, hview⟩ := view_put h key value size
    have hnodup := nodup_view hvalid
    have hpeek := (peek_eq_of_view hvalid hview k).symm.trans hv
    rw [hview] at hnodup
    rw [show CacheEngine.peek c k = _ from view_peek h k]
    exact Listing.value_of_written h.nodup hnodup (fun e => c.view.of_mem_put) hpeek
  valid_remove h key := h.remove key
  peek_remove {c} h key k := by
    refine (peek_eq_of_view (h.remove key) (view_remove h key) k).trans ?_
    refine (Listing.value_without h.nodup key k).trans ?_
    rw [show CacheEngine.peek c k = _ from view_peek h k]
    rfl
  valid_clear {c} _ := c.table.valid_clear
  peek_clear _ _ := rfl

end RecencyCache

end TieredStore
