import TieredStore.Proofs.Cache.BySettings
import TieredStore.Proofs.Cache.Calls
import TieredStore.Proofs.Cache.ShardEntries
import TieredStore.Proofs.LookBack

/-!
# What a cache shows is what was put last

A cache may forget, and which entries it forgets is a matter of its policy. What it still holds is
a matter of its history alone: of each key held, the entry of its latest put, and no removal of the
key and no clearing came after that (`latestPut`).

**The law** (`Cache.showsLatest_of_performAll`): whatever its settings, a cache `ShowsLatest` after
every sequence of calls. The values that it finds are those last put, its byte size is the sum of
the sizes last given for the keys that it holds, unless additions have left 64 bits, and a write
reports an eviction just when it lost a key.
-/

namespace TieredStore

namespace CacheCall

/-- The entry that a call writes under a key. -/
def written (key : Bytes) : CacheCall → Option HeldEntry
  | .put k value bytes => if k = key then some ⟨k, value, bytes⟩ else none
  | _ => none

/-- Whether a call takes a key out of a cache. -/
def withdraws (key : Bytes) : CacheCall → Bool
  | .remove k => k == key
  | .clear => true
  | _ => false

/-- A call writes an entry just when it is the put of that entry. -/
theorem written_eq_some_iff {key : Bytes} {call : CacheCall} {e : HeldEntry} :
    call.written key = some e ↔ e.key = key ∧ call = .put key e.value e.size := by
  cases call with
  | put k value bytes =>
    rw [written, Option.ite_none_right_eq_some, Option.some.injEq, put.injEq]
    constructor
    · rintro ⟨rfl, rfl⟩
      exact ⟨rfl, rfl, rfl, rfl⟩
    · rintro ⟨rfl, rfl, rfl, rfl⟩
      exact ⟨rfl, rfl⟩
  | _ => exact ⟨nofun, nofun⟩

/-- What withdraws a key is its removal, or clearing all. -/
theorem withdraws_eq_true_iff {key : Bytes} {call : CacheCall} :
    call.withdraws key = true ↔ call = .clear ∨ call = .remove key := by
  cases call with
  | remove k => simp only [withdraws, beq_iff_eq, remove.injEq, reduceCtorEq, false_or]
  | clear => exact ⟨fun _ => .inl rfl, fun _ => rfl⟩
  | _ => simp only [withdraws, Bool.false_eq_true, reduceCtorEq, or_self]

end CacheCall

/-- The entry that the latest put of a key wrote, if the key was not taken out after it. -/
def latestPut (history : List CacheCall) (key : Bytes) : Option HeldEntry :=
  lookBack (CacheCall.withdraws key) (CacheCall.written key) history

/-- The last call decides if it concerns the key; otherwise the calls before it do. -/
theorem latestPut_concat (history : List CacheCall) (call : CacheCall) (key : Bytes) :
    latestPut (history ++ [call]) key =
      if call.withdraws key then none else (call.written key).or (latestPut history key) :=
  lookBack_concat history call

/-- The latest put stands in the history, and after it no call that concerns its key. -/
theorem of_latestPut {history : List CacheCall} {key : Bytes} {e : HeldEntry}
    (h : latestPut history key = some e) :
    ∃ before after, history = before ++ .put key e.value e.size :: after ∧
      ∀ call ∈ after, call ≠ .clear ∧ call ≠ .remove key ∧
        ∀ value size, call ≠ .put key value size := by
  obtain ⟨before, call, after, rfl, _, hcall, hafter⟩ := lookBack_eq_some_iff.mp h
  obtain ⟨_, rfl⟩ := CacheCall.written_eq_some_iff.mp hcall
  refine ⟨before, after, rfl, fun later hlater => ?_⟩
  obtain ⟨hends, hgives⟩ := hafter later hlater
  rw [Bool.eq_false_iff, ne_eq, CacheCall.withdraws_eq_true_iff, not_or] at hends
  refine ⟨hends.1, hends.2, fun value size hput => ?_⟩
  have hwritten : later.written key = some ⟨key, value, size⟩ :=
    CacheCall.written_eq_some_iff.mpr ⟨rfl, hput⟩
  rw [hgives] at hwritten
  cases hwritten

section Engine

variable {κ : Type} [CacheEngine κ] [LawfulEngine κ] [ListedEngine κ]

/-- What a cache shows after a history of calls, whatever it has dropped. -/
structure ShowsLatest (history : List CacheCall) (c : κ) : Prop where
  /-- A value found was put last under its key, and the key was not taken out after that. -/
  found : ∀ key v, (CacheEngine.get c key).1 = some v ∨ CacheEngine.peek c key = some v →
    ∃ before size after, history = before ++ .put key v size :: after ∧
      ∀ call ∈ after, call ≠ .clear ∧ call ≠ .remove key ∧
        ∀ value size, call ≠ .put key value size
  get_eq : ∀ key, (CacheEngine.get c key).1 = CacheEngine.peek c key
  has_iff : ∀ key, CacheEngine.has c key = true ↔ (CacheEngine.peek c key).isSome
  mem_keys : ∀ key, (CacheEngine.peek c key).isSome ↔ key ∈ CacheEngine.keys c
  nodup : (CacheEngine.keys c).Nodup
  size_eq : CacheEngine.size c = (CacheEngine.keys c).length
  /-- Every key held has a latest put, and the sizes of those are what is added up. -/
  latest : ∀ key ∈ CacheEngine.keys c, (latestPut history key).isSome
  byteSize_le :
    CacheEngine.byteSize c ≤ Listing.bytes (.of (latestPut history) (CacheEngine.keys c))
  byteSize_eq : ListedEngine.wrapped c = false → CacheEngine.byteSize c =
    Listing.bytes (.of (latestPut history) (CacheEngine.keys c))
  /-- An eviction is reported just when a key held or written is not held afterwards. -/
  evicted_iff : ∀ key value size,
    (CacheEngine.put c key value size).1 = true ↔
      ∃ k ∈ key :: CacheEngine.keys c, k ∉ CacheEngine.keys (CacheEngine.put c key value size).2
  /-- A key that is not held comes in by a put of its own only. -/
  entered : ∀ call, ∀ key ∈ CacheEngine.keys (CacheEngine.perform c call).2,
    key ∈ CacheEngine.keys c ∨ ∃ value size, call = .put key value size

variable {c : κ} {history : List CacheCall}

/-- What holds between the history of a cache and its entries. -/
structure Remembers (history : List CacheCall) (c : κ) : Prop where
  valid : LawfulEngine.Valid c
  built : ListedEngine.Built c
  latest : ∀ e ∈ ListedEngine.entries c, latestPut history e.key = some e

/-- An entry after a call was written by it, or is one from before that it neither withdrew nor
wrote over. -/
theorem ListedEngine.of_mem_perform (h : LawfulEngine.Valid c) (call : CacheCall) {e : HeldEntry}
    (he : e ∈ entries (CacheEngine.perform c call).2) :
    call.withdraws e.key = false ∧
      (call.written e.key = some e ∨ call.written e.key = none ∧ e ∈ entries c) := by
  cases call with
  | put key value size =>
    refine ⟨rfl, ?_⟩
    rcases mem_put h he with rfl | ⟨hold, hne⟩
    · exact .inl (if_pos rfl)
    · exact .inr ⟨if_neg hne.symm, hold⟩
  | get key => exact ⟨rfl, .inr ⟨rfl, mem_get h key he⟩⟩
  | remove key =>
    obtain ⟨hold, hne⟩ := mem_remove h he
    exact ⟨beq_false_of_ne hne.symm, .inr ⟨rfl, hold⟩⟩
  | clear =>
    rw [show entries (CacheEngine.perform c .clear).2 = [] from entries_clear h] at he
    cases he
  | _ => exact ⟨rfl, .inr ⟨rfl, he⟩⟩

/-- Eviction takes entries away and changes none, so what is left is still what was put last. -/
theorem Remembers.perform (h : Remembers history c) (call : CacheCall) :
    Remembers (history ++ [call]) (CacheEngine.perform c call).2 where
  valid := LawfulEngine.valid_perform h.valid call
  built := ListedEngine.built_perform h.built call
  latest e he := by
    obtain ⟨hkept, hwritten⟩ := ListedEngine.of_mem_perform h.valid call he
    rw [latestPut_concat, hkept, if_neg Bool.false_ne_true]
    rcases hwritten with hwritten | ⟨hwritten, hold⟩
    · rw [hwritten, Option.some_or]
    · rw [hwritten, Option.none_or, h.latest e hold]

/-- The entries remain those put last throughout a run. -/
theorem Remembers.performAll (h : Remembers history c) (calls : List CacheCall) :
    Remembers (history ++ calls) (CacheEngine.performAll c calls).2 := by
  induction calls generalizing history c with
  | nil =>
    rw [List.append_nil]
    exact h
  | cons call rest ih =>
    rw [CacheEngine.performAll_cons, List.append_cons]
    exact ih (h.perform call)

/-- The latest puts of the keys held are the entries. -/
theorem Remembers.listing (h : Remembers history c) :
    Listing.of (latestPut history) (CacheEngine.keys c) = ListedEngine.entries c := by
  rw [ListedEngine.keys_eq h.valid, Listing.of, Listing.keys, List.filterMap_map]
  exact (List.filterMap_congr h.latest).trans List.filterMap_some

/-- A key that is held has the entry of its latest put. -/
theorem Remembers.latestPut_of_peek (h : Remembers history c) {key v : Bytes}
    (hv : CacheEngine.peek c key = some v) :
    ∃ size, latestPut history key = some ⟨key, v, size⟩ := by
  rw [ListedEngine.peek_eq h.valid, Listing.value_eq_some (ListedEngine.nodup h.valid)] at hv
  obtain ⟨size, hmem⟩ := hv
  exact ⟨size, h.latest _ hmem⟩

/-- All that is shown is read off the entries, which are the latest puts. -/
theorem Remembers.showsLatest (h : Remembers history c) : ShowsLatest history c where
  found key v hv := by
    rw [LawfulEngine.get_fst h.valid, or_self] at hv
    obtain ⟨size, hlatest⟩ := h.latestPut_of_peek hv
    obtain ⟨before, after, hsplit, hafter⟩ := of_latestPut hlatest
    exact ⟨before, size, after, hsplit, hafter⟩
  get_eq := LawfulEngine.get_fst h.valid
  has_iff key := by rw [LawfulEngine.has_eq h.valid]
  mem_keys key := (LawfulEngine.mem_keys h.valid key).symm
  nodup := ListedEngine.keys_eq h.valid ▸ ListedEngine.nodup h.valid
  size_eq := by
    rw [ListedEngine.size_eq h.valid, ListedEngine.keys_eq h.valid, Listing.length_keys]
  latest key hkey := by
    rw [LawfulEngine.mem_keys h.valid] at hkey
    obtain ⟨v, hv⟩ := Option.isSome_iff_exists.mp hkey
    obtain ⟨size, hlatest⟩ := h.latestPut_of_peek hv
    rw [hlatest]
    rfl
  byteSize_le := by
    rw [h.listing]
    exact ListedEngine.byteSize_le h.valid
  byteSize_eq exact := by rw [h.listing, ListedEngine.byteSize_eq h.valid exact]
  evicted_iff := ListedEngine.evicted_iff h.valid h.built
  entered call key hkey := by
    rw [ListedEngine.keys_eq (LawfulEngine.valid_perform h.valid call)] at hkey
    obtain ⟨e, he, rfl⟩ := List.mem_map.mp hkey
    rcases (ListedEngine.of_mem_perform h.valid call he).2 with hwritten | ⟨_, hold⟩
    · exact .inr ⟨_, _, (CacheCall.written_eq_some_iff.mp hwritten).2⟩
    · rw [ListedEngine.keys_eq h.valid]
      exact .inl (List.mem_map_of_mem hold)

end Engine

namespace Cache

/-- A new cache has no history, and no entries to remember. -/
theorem remembers_of_ofSettings {settings : CacheSettings} {c : Cache}
    (built : ofSettings settings = .ok c) : Remembers [] c := by
  obtain ⟨hbuilt, hentries⟩ := listed_of_ofSettings built
  refine ⟨(fresh_of_ofSettings built).1, hbuilt, fun e he => ?_⟩
  rw [hentries] at he
  cases he

/-- **What a cache shows is what was put last.** Whatever the settings, after every sequence of
calls the values found are those of the latest puts, the keys are listed once each and counted, the
byte size is the sum of the sizes put last if no addition has left 64 bits, and an eviction is
reported just when a key is lost. -/
theorem showsLatest_of_performAll {settings : CacheSettings} {cache : Cache}
    (built : ofSettings settings = .ok cache) (calls : List CacheCall) :
    ShowsLatest calls (CacheEngine.performAll cache calls).2 :=
  ((remembers_of_ofSettings built).performAll calls).showsLatest

/-- With room for two entries the third key drives out the first, though that was written over in
between: it keeps its place, with its new value and size. -/
theorem showsLatest_of_performAll_evicting :
    ∃ cache, ofSettings { kind := .sharded, capacity := 2, shards := 1 } = .ok cache ∧
      let calls := [.put [1] [10] 3, .put [2] [20] 4, .put [1] [11] 5, .put [2] [21] 6,
        .put [3] [30] 7]
      let last := (CacheEngine.performAll cache calls).2
      ShowsLatest calls last ∧ CacheEngine.keys last = [[2], [3]] ∧
        latestPut calls [1] = some ⟨[1], [11], 5⟩ ∧ CacheEngine.byteSize last = 13 :=
  have built : ofSettings { kind := .sharded, capacity := 2, shards := 1 } = .ok _ := rfl
  ⟨_, built, showsLatest_of_performAll built _, by decide +kernel, by decide, by decide +kernel⟩

end Cache

end TieredStore
