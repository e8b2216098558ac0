import TieredStore.Cache
import TieredStore.Proofs.Cache.ShardEntries

/-!
# Caches by their settings are lawful

A cache of one of the policies keeps to the laws because each policy does, and reads as its entries
for the same reason. Settings lead to a cache of their kind (`Described`), which starts out valid
and empty (`fresh_of_ofSettings`, `listed_of_ofSettings`), whatever the policy and the bounds.
-/

namespace TieredStore.Cache

/-- What holds of a cache between two calls, as its policy has it. -/
def Valid : Cache → Prop
  | lru c => LawfulEngine.Valid c
  | fifo c => LawfulEngine.Valid c

instance : LawfulEngine Cache where
  Valid := Valid
  mem_keys {c} h := by
    cases c with
    | lru c => exact LawfulEngine.mem_keys (c := c) h
    | fifo c => exact LawfulEngine.mem_keys (c := c) h
  has_eq {c} h := by
    cases c with
    | lru c => exact LawfulEngine.has_eq (c := c) h
    | fifo c => exact LawfulEngine.has_eq (c := c) h
  get_fst {c} h := by
    cases c with
    | lru c => exact LawfulEngine.get_fst (c := c) h
    | fifo c => exact LawfulEngine.get_fst (c := c) h
  valid_get {c} h := by
    cases c with
    | lru c => exact LawfulEngine.valid_get (c := c) h
    | fifo c => exact LawfulEngine.valid_get (c := c) h
  peek_get {c} h := by
    cases c with
    | lru c => exact LawfulEngine.peek_get (c := c) h
    | fifo c => exact LawfulEngine.peek_get (c := c) h
  valid_put {c} h := by
    cases c with
    | lru c => exact LawfulEngine.valid_put (c := c) h
    | fifo c => exact LawfulEngine.valid_put (c := c) h
  peek_put {c} h := by
    cases c with
    | lru c => exact LawfulEngine.peek_put (c := c) h
    | fifo c => exact LawfulEngine.peek_put (c := c) h
  valid_remove {c} h := by
    cases c with
    | lru c => exact LawfulEngine.valid_remove (c := c) h
    | fifo c => exact LawfulEngine.valid_remove (c := c) h
  peek_remove {c} h := by
    cases c with
    | lru c => exact LawfulEngine.peek_remove (c := c) h
    | fifo c => exact LawfulEngine.peek_remove (c := c) h
  valid_clear {c} h := by
    cases c with
    | lru c => exact LawfulEngine.valid_clear (c := c) h
    | fifo c => exact LawfulEngine.valid_clear (c := c) h
  peek_clear {c} h := by
    cases c with
    | lru c => exact LawfulEngine.peek_clear (c := c) h
    | fifo c => exact LawfulEngine.peek_clear (c := c) h

/-- A call to a cache of a policy is the call to the cache of that policy. -/
theorem perform_lru (c : RecencyCache) (call : CacheCall) :
    (CacheEngine.perform (lru c) call).2 = lru (CacheEngine.perform c call).2 := by
  cases call <;> rfl

theorem perform_fifo (c : ShardedCache) (call : CacheCall) :
    (CacheEngine.perform (fifo c) call).2 = fifo (CacheEngine.perform c call).2 := by
  cases call <;> rfl

instance : ListedEngine Cache where
  entries
    | lru c => ListedEngine.entries c
    | fifo c => ListedEngine.entries c
  Built
    | lru c => ListedEngine.Built c
    | fifo c => ListedEngine.Built c
  built_perform {c} h call := by
    cases c with
    | lru c =>
      rw [perform_lru]
      exact ListedEngine.built_perform (c := c) h call
    | fifo c =>
      rw [perform_fifo]
      exact ListedEngine.built_perform (c := c) h call
  keys_eq {c} h := by
    cases c with
    | lru c => exact ListedEngine.keys_eq (c := c) h
    | fifo c => exact ListedEngine.keys_eq (c := c) h
  nodup {c} h := by
    cases c with
    | lru c => exact ListedEngine.nodup (c := c) h
    | fifo c => exact ListedEngine.nodup (c := c) h
  peek_eq {c} h := by
    cases c with
    | lru c => exact ListedEngine.peek_eq (c := c) h
    | fifo c => exact ListedEngine.peek_eq (c := c) h
  size_eq {c} h := by
    cases c with
    | lru c => exact ListedEngine.size_eq (c := c) h
    | fifo c => exact ListedEngine.size_eq (c := c) h
  wrapped
    | lru c => ListedEngine.wrapped c
    | fifo c => ListedEngine.wrapped c
  byteSize_le {c} h := by
    cases c with
    | lru c => exact ListedEngine.byteSize_le (c := c) h
    | fifo c => exact ListedEngine.byteSize_le (c := c) h
  byteSize_eq {c} h exact := by
    cases c with
    | lru c => exact ListedEngine.byteSize_eq (c := c) h exact
    | fifo c => exact ListedEngine.byteSize_eq (c := c) h exact
  wrapped_perform {c} h exact call fits := by
    cases c with
    | lru c =>
      rw [perform_lru]
      exact ListedEngine.wrapped_perform (c := c) h exact call fits
    | fifo c =>
      rw [perform_fifo]
      exact ListedEngine.wrapped_perform (c := c) h exact call fits
  mem_get {c} h key := by
    cases c with
    | lru c => exact ListedEngine.mem_get (c := c) h key
    | fifo c => exact ListedEngine.mem_get (c := c) h key
  mem_put {c} h := by
    cases c with
    | lru c => exact ListedEngine.mem_put (c := c) h
    | fifo c => exact ListedEngine.mem_put (c := c) h
  evicted_iff {c} h := by
    cases c with
    | lru c => exact ListedEngine.evicted_iff (c := c) h
    | fifo c => exact ListedEngine.evicted_iff (c := c) h
  mem_remove {c} h := by
    cases c with
    | lru c => exact ListedEngine.mem_remove (c := c) h
    | fifo c => exact ListedEngine.mem_remove (c := c) h
  entries_clear {c} h := by
    cases c with
    | lru c => exact ListedEngine.entries_clear (c := c) h
    | fifo c => exact ListedEngine.entries_clear (c := c) h

theorem eq_ok_of_map {α β ε : Type} {f : α → β} {x : Except ε α} {b : β}
    (h : x.map f = .ok b) : ∃ a, x = .ok a ∧ f a = b := by
  cases x with
  | error e => cases h
  | ok a => exact ⟨a, rfl, Except.ok.inj h⟩

/-- The caches that settings describe, by their kind. -/
inductive Described (settings : CacheSettings) : Cache → Prop
  | counted (kind : settings.kind = .counted) (positive : 0 < settings.capacity) :
      Described settings (.lru ⟨settings.capacity, none, .empty⟩)
  | budgeted (kind : settings.kind = .budgeted) (positive : 0 < settings.capacity) :
      Described settings (.lru ⟨settings.capacity, some settings.byteBudget, .empty⟩)
  | sharded {s : ShardedCache} (kind : settings.kind = .sharded)
      (built : ShardedCache.build Digest.SipHash.ofKey settings.capacity settings.shards = .ok s) :
      Described settings (.fifo s)

/-- Settings that are accepted describe the cache that is built. -/
theorem described_of_ofSettings {settings : CacheSettings} {c : Cache}
    (built : ofSettings settings = .ok c) : Described settings c := by
  unfold ofSettings at built
  split at built
  · next hkind =>
    split at built
    · cases built
    · obtain ⟨r, hr, rfl⟩ := eq_ok_of_map built
      rw [RecencyCache.counted_eq_ok hr]
      exact .counted hkind (RecencyCache.pos_of_counted hr)
  · next hkind =>
    obtain ⟨r, hr, rfl⟩ := eq_ok_of_map built
    rw [RecencyCache.budgeted_eq_ok hr]
    exact .budgeted hkind (RecencyCache.pos_of_budgeted hr)
  · next hkind =>
    obtain ⟨s, hs, rfl⟩ := eq_ok_of_map built
    exact .sharded hkind hs

/-- A new cache is valid, and it is empty. -/
theorem fresh_of_ofSettings {settings : CacheSettings} {c : Cache}
    (built : ofSettings settings = .ok c) : c.Valid ∧ ∀ key, CacheEngine.peek c key = none := by
  cases described_of_ofSettings built with
  | counted | budgeted => exact ⟨RecencyTable.valid_empty, fun _ => rfl⟩
  | sharded _ hs => exact ShardedCache.fresh_of_build hs

/-- A new sharded cache is one that was built with its settings' shards. -/
theorem build_of_ofSettings {settings : CacheSettings} {s : ShardedCache}
    (built : ofSettings settings = .ok (.fifo s)) :
    ShardedCache.build Digest.SipHash.ofKey settings.capacity settings.shards = .ok s := by
  cases described_of_ofSettings built with
  | sharded _ hs => exact hs

/-- A new cache reads as no entries. -/
theorem listed_of_ofSettings {settings : CacheSettings} {c : Cache}
    (built : ofSettings settings = .ok c) :
    ListedEngine.Built c ∧ ListedEngine.entries c = [] := by
  obtain ⟨hvalid, hempty⟩ := fresh_of_ofSettings built
  refine ⟨?_, (ListedEngine.of_empty hvalid hempty).1⟩
  cases c with
  | lru r => exact trivial
  | fifo s =>
    obtain ⟨hpositive, _, rfl⟩ := ShardedCache.build_eq_ok (build_of_ofSettings built)
    exact fun hnil => Nat.ne_of_gt hpositive (List.replicate_eq_nil_iff _ |>.mp hnil)

end TieredStore.Cache
