import Mathlib.Data.Set.Card
import TieredStore.Proofs.Expiry.LastSighting

/-!
# What an expiring set still tracks

Membership is decided by the last sighting of a key alone; how many keys a set tracks is not. An
expired key stays until something comes upon it, so the count depends on when it was asked for and
when the set was swept. `TrackedSince` reads that off the history: the sighting was the last one, no
clearing came after it, and neither did a question for the key, or a sweep, at an instant at which
it had expired.

The law of one call (`getElem?_perform`) says what each operation leaves; a run repeats it. Nothing
here needs a clock that never goes back: what a call drops depends on its own instant only.

**The law** (`ExpiringSet.tracked_performAll`): after every run the set tracks just the keys that
the history says. A sweep answers with the number of those that have expired and leaves the others,
which are the keys that are reported as members.
-/

namespace TieredStore

namespace OrderedMap

open Std

variable {α β : Type} {cmp : α → α → Ordering} [TransCmp cmp] [LawfulEqCmp cmp]

/-- A map has as many keys as its size says. -/
theorem encard_keys (m : TreeMap α β cmp) : {k : α | ∃ v, m[k]? = some v}.encard = m.size := by
  classical
  have hkeys : {k : α | ∃ v, m[k]? = some v} = (m.keys.toFinset : Set α) := by
    ext k
    rw [Set.mem_ofPred_eq, Finset.mem_coe, List.mem_toFinset, TreeMap.mem_keys,
      TreeMap.mem_iff_isSome_getElem?, Option.isSome_iff_exists]
  rw [hkeys, Set.encard_coe_eq_coe_finsetCard, List.toFinset_card_of_nodup TreeMap.nodup_keys,
    TreeMap.length_keys]

omit [TransCmp cmp] [LawfulEqCmp cmp] in
/-- A filter and its opposite share out the pairs of a map. -/
theorem size_filter_add (m : TreeMap α β cmp) (f : α → β → Bool) :
    (m.filter f).size + (m.filter fun k v => !f k v).size = m.size := by
  rw [← TreeMap.length_toList, ← TreeMap.length_toList, ← TreeMap.length_toList,
    TreeMap.toList_filter, TreeMap.toList_filter, ← List.countP_eq_length_filter,
    ← List.countP_eq_length_filter, List.length_eq_countP_add_countP fun p => f p.1 p.2]
  simp only [Bool.not_eq_true, Bool.decide_eq_false]

omit [TransCmp cmp] [LawfulEqCmp cmp] in
/-- Filtering again takes nothing more away. -/
theorem size_filter_filter (m : TreeMap α β cmp) (f : α → β → Bool) :
    ((m.filter f).filter f).size = (m.filter f).size := by
  rw [← TreeMap.length_toList, ← TreeMap.length_toList, TreeMap.toList_filter,
    TreeMap.toList_filter, List.filter_filter]
  simp only [Bool.and_self]

end OrderedMap

namespace ExpiringSet

variable {lifetime : Nat} {history : List TimedCall} {s : ExpiringSet}

/-! ## The history of a key -/

/-- At this call the sighting of a key would be found expired, and dropped. -/
def TimedCall.drops (key : String) (sighting : Sighting) (call : TimedCall) : Prop :=
  (call.operation = .has key ∨ call.operation = .sweep) ∧
    sighting.lifetime ≤ call.instant - sighting.seenAt

/-- The sighting is the last one of a key, made after the last clearing, and no call since then
dropped it. -/
def TrackedSince (lifetime : Nat) (history : List TimedCall) (key : String)
    (sighting : Sighting) : Prop :=
  ∃ before call after, history = before ++ call :: after ∧
    call.sighting? lifetime key = some sighting ∧
    ∀ later ∈ after, later.operation ≠ .clear ∧ later.sighting? lifetime key = none ∧
      ¬later.drops key sighting

/-- One more call: it makes the sighting, or leaves it as it was. -/
theorem trackedSince_concat {call : TimedCall} {key : String} {sighting : Sighting} :
    TrackedSince lifetime (history ++ [call]) key sighting ↔
      call.operation ≠ .clear ∧
        (call.sighting? lifetime key = some sighting ∨
          call.sighting? lifetime key = none ∧ ¬call.drops key sighting ∧
            TrackedSince lifetime history key sighting) := by
  constructor
  · rintro ⟨before, made, after, hsplit, hmade, hafter⟩
    rcases List.eq_nil_or_concat after with rfl | ⟨rest, last, rfl⟩
    · -- the call is the one that made the sighting
      obtain ⟨rfl, hcall⟩ := List.append_inj' hsplit rfl
      obtain rfl := List.singleton_inj.mp hcall
      refine ⟨fun hclear => ?_, .inl hmade⟩
      rw [TimedCall.sighting?, hclear] at hmade
      cases hmade
    · rw [List.concat_eq_append, ← List.cons_append, ← List.append_assoc] at hsplit
      obtain ⟨rfl, hcall⟩ := List.append_inj' hsplit rfl
      obtain rfl := List.singleton_inj.mp hcall
      rw [List.concat_eq_append] at hafter
      obtain ⟨hkeeps, hnone, hdrops⟩ := hafter call (List.mem_append_right _ List.mem_cons_self)
      exact ⟨hkeeps, .inr ⟨hnone, hdrops, before, made, rest, rfl, hmade,
        fun later hlater => hafter later (List.mem_append_left _ hlater)⟩⟩
  · rintro ⟨hkeeps, hmade | ⟨hnone, hdrops, before, made, after, rfl, hmade, hafter⟩⟩
    · exact ⟨history, call, [], rfl, hmade, fun later hlater => absurd hlater List.not_mem_nil⟩
    · refine ⟨before, made, after ++ [call], by simp, hmade, fun later hlater => ?_⟩
      rcases List.mem_append.mp hlater with hlater | hlater
      · exact hafter later hlater
      · rw [List.mem_singleton.mp hlater]
        exact ⟨hkeeps, hnone, hdrops⟩

theorem not_trackedSince_nil {key : String} {sighting : Sighting} :
    ¬TrackedSince lifetime [] key sighting := by
  rintro ⟨before, call, after, hsplit, _⟩
  cases before <;> cases hsplit

/-! ## What a call leaves -/

/-- A key that is remembered has the new sighting, and every other key has the one that it had. -/
theorem getElem?_remember (now : Nat) (key : String) (span : Nat) {k : String}
    {sighting : Sighting} :
    let made : Option Sighting := if key = k ∧ key ≠ "" then some ⟨now, span⟩ else none
    (s.settle (s.remember now key span)).2.sightings[k]? = some sighting ↔
      made = some sighting ∨ made = none ∧ s.sightings[k]? = some sighting := by
  intro made
  by_cases hkey : key = ""
  · have hnone : made = none := if_neg fun hboth => hboth.2 hkey
    rw [remember, if_pos hkey, hnone]
    simp [settle]
  · rw [remember, if_neg hkey]
    show (s.sightings.insert key ⟨now, span⟩)[k]? = _ ↔ _
    rw [OrderedMap.getElem?_insert]
    by_cases hk : key = k
    · have hmade : made = some ⟨now, span⟩ := if_pos ⟨hk, hkey⟩
      rw [if_pos hk, hmade]
      simp
    · have hnone : made = none := if_neg fun hboth => hk hboth.1
      rw [if_neg hk, hnone]
      simp

/-- A question drops the key that it is about, if that has expired, and no other. -/
theorem getElem?_has (now : Nat) (key : String) {k : String} {sighting : Sighting} :
    (s.has now key).2.sightings[k]? = some sighting ↔
      ¬(key = k ∧ sighting.lifetime ≤ now - sighting.seenAt) ∧
        s.sightings[k]? = some sighting := by
  rw [has]
  split
  · next hnone =>
    refine (and_iff_right_of_imp ?_).symm
    rintro hk ⟨rfl, _⟩
    cases hnone.symm.trans hk
  · next found hfound =>
    by_cases hkey : key = k
    · subst hkey
      cases hexpired : found.isExpired now with
      | true =>
        rw [if_pos rfl]
        show (s.sightings.erase key)[key]? = some sighting ↔ _
        rw [OrderedMap.getElem?_erase, if_pos rfl, hfound]
        constructor
        · intro h
          cases h
        · rintro ⟨hlive, heq⟩
          cases heq
          exact absurd ⟨rfl, of_decide_eq_true hexpired⟩ hlive
      | false =>
        rw [if_neg Bool.false_ne_true, hfound]
        refine (and_iff_right_of_imp ?_).symm
        rintro heq ⟨_, hle⟩
        cases heq
        exact of_decide_eq_false hexpired hle
    · have hother : (if found.isExpired now = true then
          (false, { s with sightings := s.sightings.erase key }) else (true, s)).2.sightings[k]? =
          s.sightings[k]? := by
        split
        · exact (OrderedMap.getElem?_erase ..).trans (if_neg hkey)
        · rfl
      rw [hother]
      exact (and_iff_right fun hboth => hkey hboth.1).symm

/-- A sweep drops what has expired. -/
theorem getElem?_sweep (now : Nat) {k : String} {sighting : Sighting} :
    (s.sweep now).2.sightings[k]? = some sighting ↔
      ¬sighting.lifetime ≤ now - sighting.seenAt ∧ s.sightings[k]? = some sighting := by
  rw [sweep, Std.TreeMap.getElem?_filter', Option.filter_eq_some_iff, and_comm]
  simp only [Sighting.isExpired, Bool.not_eq_true', decide_eq_false_iff_not]

/-- **What a call leaves**: the sightings that it makes and, unless it clears the set, those before
that it neither replaces nor drops. -/
theorem getElem?_perform (call : TimedCall) {key : String} {sighting : Sighting} :
    (s.perform call.instant call.operation).2.sightings[key]? = some sighting ↔
      call.operation ≠ .clear ∧
        (call.sighting? s.defaultLifetime key = some sighting ∨
          call.sighting? s.defaultLifetime key = none ∧ ¬call.drops key sighting ∧
            s.sightings[key]? = some sighting) := by
  obtain ⟨now, operation⟩ := call
  cases operation with
  | add k =>
    simpa [perform, add, TimedCall.sighting?, TimedCall.drops] using
      getElem?_remember now k s.defaultLifetime
  | remember k span =>
    simpa [perform, TimedCall.sighting?, TimedCall.drops] using getElem?_remember now k span
  | has k => simpa [perform, TimedCall.sighting?, TimedCall.drops] using getElem?_has now k
  | sweep => simpa [perform, TimedCall.sighting?, TimedCall.drops] using getElem?_sweep now
  | clear =>
    constructor
    · intro h
      rw [show (s.perform now .clear).2.sightings = ∅ from rfl, Std.TreeMap.getElem?_emptyc] at h
      cases h
    · exact fun h => absurd rfl h.1

theorem defaultLifetime_perform (s : ExpiringSet) (now : Nat) (operation : Operation) :
    (s.perform now operation).2.defaultLifetime = s.defaultLifetime := by
  cases operation with
  | add key => simp only [perform, add, remember]; split <;> rfl
  | remember key span => simp only [perform, remember]; split <;> rfl
  | has key =>
    show (s.has now key).2.defaultLifetime = s.defaultLifetime
    rw [has]
    split
    · rfl
    · split <;> rfl
  | sweep => rfl
  | clear => rfl

/-! ## Runs -/

/-- What is tracked is what the history says. -/
structure Records (lifetime : Nat) (history : List TimedCall) (s : ExpiringSet) : Prop where
  default : s.defaultLifetime = lifetime
  tracked : ∀ key sighting,
    s.sightings[key]? = some sighting ↔ TrackedSince lifetime history key sighting

theorem records_empty (lifetime : Nat) : Records lifetime [] (empty lifetime) where
  default := rfl
  tracked key sighting := by
    rw [empty, Std.TreeMap.getElem?_emptyc]
    exact iff_of_false (Option.some_ne_none sighting).symm not_trackedSince_nil

theorem Records.perform (h : Records lifetime history s) (call : TimedCall) :
    Records lifetime (history ++ [call]) (s.perform call.instant call.operation).2 where
  default := (s.defaultLifetime_perform call.instant call.operation).trans h.default
  tracked key sighting := by
    rw [getElem?_perform, trackedSince_concat, h.default, h.tracked]

theorem Records.performAll (calls : List TimedCall) :
    ∀ {history : List TimedCall} {s : ExpiringSet}, Records lifetime history s →
      Records lifetime (history ++ calls) (s.performAll calls).2 := by
  induction calls with
  | nil =>
    intro history s h
    rw [List.append_nil]
    exact h
  | cons call rest ih =>
    intro history s h
    rw [performAll_cons, List.append_cons]
    exact ih (h.perform call)

/-- After a run from the empty set. -/
theorem records_performAll (lifetime : Nat) (calls : List TimedCall) :
    Records lifetime calls ((empty lifetime).performAll calls).2 :=
  (records_empty lifetime).performAll calls

/-! ## Counting -/

/-- The keys tracked after a history. -/
def trackedKeys (lifetime : Nat) (history : List TimedCall) : Set String :=
  {key | ∃ sighting, TrackedSince lifetime history key sighting}

/-- Those of them that have expired at an instant. -/
def expiredKeys (lifetime : Nat) (history : List TimedCall) (now : Nat) : Set String :=
  {key | ∃ sighting, TrackedSince lifetime history key sighting ∧
    sighting.lifetime ≤ now - sighting.seenAt}

theorem Records.encard_trackedKeys (h : Records lifetime history s) :
    (trackedKeys lifetime history).encard = s.size := by
  rw [trackedKeys, size, ← OrderedMap.encard_keys]
  simp only [h.tracked]

/-- A sweep answers with the number of keys that have expired. -/
theorem Records.encard_expiredKeys (h : Records lifetime history s) (now : Nat) :
    (expiredKeys lifetime history now).encard = (s.sweep now).1 := by
  have hexpired : expiredKeys lifetime history now =
      {key | ∃ sighting,
        (s.sightings.filter fun _ sighting => !!sighting.isExpired now)[key]? = some sighting} := by
    ext key
    simp only [expiredKeys, Set.mem_ofPred_eq, Std.TreeMap.getElem?_filter',
      Option.filter_eq_some_iff, h.tracked, Bool.not_not, Sighting.isExpired, decide_eq_true_eq]
  have hparts :=
    OrderedMap.size_filter_add s.sightings fun _ sighting => !sighting.isExpired now
  have hcount : (s.sweep now).1 =
      (s.sightings.filter fun _ sighting => !!sighting.isExpired now).size := by
    rw [sweep]
    omega
  rw [hexpired, OrderedMap.encard_keys, hcount]

/-- A key is reported as a member just when it is tracked and has not expired. -/
theorem has_fst_iff (s : ExpiringSet) (now : Nat) (key : String) :
    (s.has now key).1 = true ↔ ∃ sighting, s.sightings[key]? = some sighting ∧
      ¬sighting.lifetime ≤ now - sighting.seenAt := by
  rw [has]
  split
  · next hnone => simp [hnone]
  · next found hfound =>
    rw [hfound]
    cases hexpired : found.isExpired now with
    | true =>
      have hle : found.lifetime ≤ now - found.seenAt := of_decide_eq_true hexpired
      simp [hle]
    | false =>
      have hlt : now - found.seenAt < found.lifetime :=
        Nat.not_le.mp (of_decide_eq_false hexpired)
      simp [hlt]

/-- After a sweep the keys tracked are those reported as members. -/
theorem encard_members_sweep (s : ExpiringSet) (now : Nat) :
    {key | ((s.sweep now).2.has now key).1 = true}.encard = (s.sweep now).2.size := by
  rw [size, ← OrderedMap.encard_keys]
  congr 1
  ext key
  simp only [Set.mem_ofPred_eq, has_fst_iff, getElem?_sweep]
  exact exists_congr fun sighting => ⟨fun h => h.1, fun h => ⟨h, h.1⟩⟩

/-- A second sweep at the same instant finds nothing. -/
theorem sweep_sweep (s : ExpiringSet) (now : Nat) : ((s.sweep now).2.sweep now).1 = 0 := by
  exact Nat.sub_eq_zero_of_le (Nat.le_of_eq (OrderedMap.size_filter_filter s.sightings _).symm)

/-- **What a set tracks is told by its history.** After every run a sighting is tracked just when
it is the last one of its key, nothing was cleared since, and no question for the key and no sweep
came upon it expired; the size is the number of such keys. A sweep at any instant leaves those that
have not expired, which are the keys reported as members, and a second one at that instant drops
nothing; a question for a key leaves every other key. Every sweep of a run is answered with the
number of keys that were tracked and expired. All this holds of a run on a stepped clock, which is
the run at the instants that the clock shows. -/
theorem tracked_performAll (lifetime : Nat) :
    (∀ calls,
      let s := ((empty lifetime).performAll calls).2
      (∀ key sighting,
          s.sightings[key]? = some sighting ↔ TrackedSince lifetime calls key sighting) ∧
        (trackedKeys lifetime calls).encard = s.size ∧
        ∀ now,
          let swept := (s.sweep now).2
          (∀ key sighting, swept.sightings[key]? = some sighting ↔
              TrackedSince lifetime calls key sighting ∧
                now - sighting.seenAt < sighting.lifetime) ∧
            {key | (swept.has now key).1 = true}.encard = swept.size ∧
            (swept.sweep now).1 = 0 ∧
            ∀ key other, other ≠ key →
              (s.has now key).2.sightings[other]? = s.sightings[other]?) ∧
    (∀ calls before now after, calls = before ++ ⟨now, .sweep⟩ :: after →
      ∃ count, ((empty lifetime).performAll calls).1[before.length]? = some (.dropped count) ∧
        (expiredKeys lifetime before now).encard = count) ∧
    ∀ steps, ClockedSet.advanced steps ≤ Span.longest →
      (∀ call ∈ ClockedSet.timed 0 steps,
        call.operation.readsClock = true → call.instant < SteppedClock.instantLimit) →
      ∃ clock, ClockedSet.performAll { set := empty lifetime } steps =
        .ok (((empty lifetime).performAll (ClockedSet.timed 0 steps)).1,
          ⟨clock, ((empty lifetime).performAll (ClockedSet.timed 0 steps)).2⟩) := by
  refine ⟨?_, ?_, ?_⟩
  · intro calls s
    have hrecords := records_performAll lifetime calls
    refine ⟨hrecords.tracked, hrecords.encard_trackedKeys, fun now => ?_⟩
    refine ⟨fun key sighting => ?_, s.encard_members_sweep now, s.sweep_sweep now, ?_⟩
    · rw [getElem?_sweep, hrecords.tracked, and_comm, Nat.not_le]
    · intro key other hother
      refine Option.ext fun sighting => ?_
      rw [getElem?_has]
      exact and_iff_right fun hboth => hother hboth.1.symm
  · rintro _ before now after rfl
    have hlength := length_performAll before (empty lifetime)
    rw [performAll_append, performAll_cons, ← hlength, List.getElem?_append_right (Nat.le_refl _),
      Nat.sub_self]
    exact ⟨_, rfl, (records_performAll lifetime before).encard_expiredKeys now⟩
  · intro steps hrange hlegible
    exact ⟨_, ClockedSet.performAll_eq steps { set := empty lifetime }
      (by rw [Nat.zero_add]; exact hrange) hlegible⟩

/-- Of three keys that have expired, one is renewed and one is dropped by a question, so the sweep
drops one. -/
theorem tracked_performAll_renewed :
    ∃ answers clock last,
      ClockedSet.performAll { set := empty 2 }
          [.call (.add "a"), .call (.remember "b" 3), .call (.remember "c" 0), .advance 5,
            .call (.has "c"), .call (.add "a"), .call .sweep] = .ok (answers, ⟨clock, last⟩) ∧
        answers[5]? = some (.dropped 1) ∧
        (expiredKeys 2 [⟨0, .add "a"⟩, ⟨0, .remember "b" 3⟩, ⟨0, .remember "c" 0⟩, ⟨5, .has "c"⟩,
          ⟨5, .add "a"⟩] 5).encard = 1 ∧
        last.size = 1 := by
  obtain ⟨_, hsweeps, hclocked⟩ := tracked_performAll 2
  obtain ⟨clock, hrun⟩ := hclocked
    [.call (.add "a"), .call (.remember "b" 3), .call (.remember "c" 0), .advance 5,
      .call (.has "c"), .call (.add "a"), .call .sweep] (by decide) (by decide)
  obtain ⟨count, hanswer, hcount⟩ := hsweeps _
    [⟨0, .add "a"⟩, ⟨0, .remember "b" 3⟩, ⟨0, .remember "c" 0⟩, ⟨5, .has "c"⟩, ⟨5, .add "a"⟩] 5 []
    rfl
  have hone : ((empty 2).performAll [⟨0, .add "a"⟩, ⟨0, .remember "b" 3⟩, ⟨0, .remember "c" 0⟩,
      ⟨5, .has "c"⟩, ⟨5, .add "a"⟩, ⟨5, .sweep⟩]).1[5]? = some (.dropped 1) := by
    decide +kernel
  obtain rfl : count = 1 := Answer.dropped.inj (Option.some.inj (hanswer.symm.trans hone))
  exact ⟨_, clock, _, hrun, hone, hcount, by decide +kernel⟩

end ExpiringSet

end TieredStore
