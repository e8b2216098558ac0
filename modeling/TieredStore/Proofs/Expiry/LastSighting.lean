import TieredStore.Expiry.ExpiringSet
import TieredStore.Proofs.LookBack
import TieredStore.Proofs.OrderedMap

/-!
# An expiring set and its history

A set drops an expired key when it comes upon it, so what it tracks depends on every question that
was asked of it. What it answers does not: a key is live just when its last sighting still counts,
and `lastSighting` reads that one off the calls made so far. `Tracks` is the invariant of a run on a
clock that never goes back: of what is tracked and of what was last seen, the part that still counts
is the same. Dropping an expired key never has to be regretted, because an expired sighting stays
expired (`isExpired_mono`).

**The law** (`ExpiringSet.answers_of_lastSighting`): in every run, asking for a key is answered by
its last sighting alone. Questions and sweeps can be put in and left out anywhere without changing
an answer. On a stepped clock every run within the limits of the clock succeeds, whatever the spans,
and it is the run at the instants that the clock shows.
-/

namespace TieredStore

/-- What has expired stays expired. -/
theorem Sighting.isExpired_mono (sighting : Sighting) {now later : Nat} (h : now ≤ later)
    (expired : sighting.isExpired now = true) : sighting.isExpired later = true := by
  simp only [isExpired, decide_eq_true_eq] at expired ⊢
  omega

namespace ExpiringSet

/-! ## Runs -/

/-- An operation at an instant. -/
structure TimedCall where
  instant : Nat
  operation : Operation
  deriving DecidableEq, Repr

/-- The clock never goes back between calls. -/
def Ascending (calls : List TimedCall) : Prop :=
  calls.Pairwise fun a b => a.instant ≤ b.instant

instance (calls : List TimedCall) : Decidable (Ascending calls) :=
  inferInstanceAs (Decidable (List.Pairwise _ _))

/-- Makes calls in turn. -/
def performAll (s : ExpiringSet) : List TimedCall → List Answer × ExpiringSet
  | [] => ([], s)
  | call :: rest =>
    let (answer, s) := s.perform call.instant call.operation
    (performAll s rest).map (answer :: ·) id

theorem performAll_cons (s : ExpiringSet) (call : TimedCall) (rest : List TimedCall) :
    s.performAll (call :: rest) =
      ((s.perform call.instant call.operation).1 ::
          ((s.perform call.instant call.operation).2.performAll rest).1,
        ((s.perform call.instant call.operation).2.performAll rest).2) :=
  rfl

/-- Calls made in two goes are the calls made at once. -/
theorem performAll_append (calls rest : List TimedCall) :
    ∀ s : ExpiringSet, s.performAll (calls ++ rest) =
      ((s.performAll calls).1 ++ ((s.performAll calls).2.performAll rest).1,
        ((s.performAll calls).2.performAll rest).2) := by
  induction calls with
  | nil => exact fun s => rfl
  | cons call calls ih =>
    intro s
    rw [List.cons_append, performAll_cons, performAll_cons, ih]
    rfl

theorem length_performAll (calls : List TimedCall) :
    ∀ s : ExpiringSet, (s.performAll calls).1.length = calls.length := by
  induction calls with
  | nil => exact fun s => rfl
  | cons call calls ih =>
    intro s
    rw [performAll_cons, List.length_cons, List.length_cons, ih]

/-! ## The last sighting -/

/-- The sighting of a key that a call makes. One that is refused makes none. -/
def TimedCall.sighting? (lifetime : Nat) (key : String) (call : TimedCall) : Option Sighting :=
  match call.operation with
  | .add k => if k = key ∧ k ≠ "" then some ⟨call.instant, lifetime⟩ else none
  | .remember k span => if k = key ∧ k ≠ "" then some ⟨call.instant, span⟩ else none
  | .has _ | .sweep | .clear => none

/-- The last sighting of a key in a history, if it was not forgotten by a `clear` since; `lifetime`
is the default span. -/
def lastSighting (lifetime : Nat) (history : List TimedCall) (key : String) : Option Sighting :=
  lookBack (fun call => call.operation = .clear) (TimedCall.sighting? lifetime key) history

/-- Operations that only ask, and drop what they find expired. -/
def Operation.asks : Operation → Bool
  | has _ | sweep => true
  | add _ | remember .. | clear => false

variable {lifetime : Nat} {history : List TimedCall} {now : Nat} {s : ExpiringSet}

/-- A call that makes a sighting, or is refused, replaces the last one. -/
theorem lastSighting_concat (history : List TimedCall) {call : TimedCall}
    (keeps : call.operation ≠ .clear) (key : String) :
    lastSighting lifetime (history ++ [call]) key =
      (call.sighting? lifetime key).or (lastSighting lifetime history key) := by
  rw [lastSighting, lookBack_concat, decide_eq_false keeps, if_neg Bool.false_ne_true]
  rfl

/-- A key that is remembered again has the new instant and the new span. -/
theorem lastSighting_remember (history : List TimedCall) (now : Nat) {key : String}
    (named : key ≠ "") (span : Nat) :
    lastSighting lifetime (history ++ [⟨now, .remember key span⟩]) key = some ⟨now, span⟩ := by
  have hmade : TimedCall.sighting? lifetime key ⟨now, .remember key span⟩ = some ⟨now, span⟩ :=
    if_pos ⟨rfl, named⟩
  rw [lastSighting_concat history Operation.noConfusion, hmade, Option.some_or]

/-- Clearing forgets every sighting. -/
theorem lastSighting_clear (history : List TimedCall) (now : Nat) (key : String) :
    lastSighting lifetime (history ++ [⟨now, .clear⟩]) key = none := by
  rw [lastSighting, lookBack_concat]
  rfl

/-- Asking and sweeping are no sightings. -/
theorem lastSighting_asks (history : List TimedCall) {call : TimedCall}
    (asks : call.operation.asks = true) (key : String) :
    lastSighting lifetime (history ++ [call]) key = lastSighting lifetime history key := by
  obtain ⟨instant, operation⟩ := call
  cases operation with
  | has k => exact lastSighting_concat history Operation.noConfusion key
  | sweep => exact lastSighting_concat history Operation.noConfusion key
  | add k => cases asks
  | remember k span => cases asks
  | clear => cases asks

/-- Questions do not change what was seen last. -/
theorem lastSighting_filter (history : List TimedCall) (key : String) :
    lastSighting lifetime (history.filter fun call => !call.operation.asks) key =
      lastSighting lifetime history key := by
  refine lookBack_filter (fun call hasks => ?_) history
  obtain ⟨instant, operation⟩ := call
  cases operation with
  | has k => exact ⟨rfl, rfl⟩
  | sweep => exact ⟨rfl, rfl⟩
  | add k => cases hasks
  | remember k span => cases hasks
  | clear => cases hasks

/-- A sighting was made by a call, at its instant. -/
theorem mem_of_lastSighting {key : String} {sighting : Sighting}
    (h : lastSighting lifetime history key = some sighting) :
    ∃ call ∈ history, call.instant = sighting.seenAt := by
  obtain ⟨before, call, after, rfl, _, hsighting, _⟩ := lookBack_eq_some_iff.mp h
  refine ⟨call, List.mem_append_right _ List.mem_cons_self, ?_⟩
  unfold TimedCall.sighting? at hsighting
  split at hsighting
  · split at hsighting
    · rw [← Option.some.inj hsighting]
    · cases hsighting
  · split at hsighting
    · rw [← Option.some.inj hsighting]
    · cases hsighting
  · cases hsighting
  · cases hsighting
  · cases hsighting

/-! ## What is tracked -/

/-- A sighting, if it still counts. -/
def stillLive (now : Nat) (sighting : Option Sighting) : Option Sighting :=
  sighting.filter fun sighting => !sighting.isExpired now

/-- A sighting that is expired does not count. -/
theorem stillLive_some (now : Nat) (sighting : Sighting) :
    stillLive now (some sighting) =
      if sighting.isExpired now = true then none else some sighting := by
  rw [stillLive, Option.filter_some]
  cases sighting.isExpired now <;> rfl

/-- What counts later is among what counts now. -/
theorem stillLive_stillLive {later : Nat} (h : now ≤ later) (sighting : Option Sighting) :
    stillLive later (stillLive now sighting) = stillLive later sighting := by
  cases sighting with
  | none => rfl
  | some sighting =>
    rw [stillLive_some]
    split
    · next hexpired => rw [stillLive_some, if_pos (sighting.isExpired_mono h hexpired)]; rfl
    · rfl

/-- Of what is tracked and what was last seen, the part that still counts is the same. -/
structure Tracks (lifetime : Nat) (history : List TimedCall) (now : Nat) (s : ExpiringSet) :
    Prop where
  default : s.defaultLifetime = lifetime
  live : ∀ key : String,
    stillLive now s.sightings[key]? = stillLive now (lastSighting lifetime history key)

theorem tracks_empty (lifetime now : Nat) : Tracks lifetime [] now (empty lifetime) where
  default := rfl
  live key := by
    rw [empty, Std.TreeMap.getElem?_emptyc]
    rfl

/-- The invariant outlasts the passing of time. -/
theorem Tracks.later (h : Tracks lifetime history now s) {later : Nat} (le : now ≤ later) :
    Tracks lifetime history later s where
  default := h.default
  live key := by
    rw [← stillLive_stillLive le, h.live, stillLive_stillLive le]

/-- A key is live just when its last sighting still counts. -/
theorem Tracks.has_fst (h : Tracks lifetime history now s) (key : String) :
    (s.has now key).1 = (lastSighting lifetime history key).any
      fun sighting => now - sighting.seenAt < sighting.lifetime := by
  have hlive : (s.has now key).1 = (stillLive now s.sightings[key]?).isSome := by
    rw [has]
    split
    · next heq => rw [heq]; rfl
    · next sighting heq =>
      rw [heq, stillLive_some]
      split <;> rfl
  have hcounts : (fun sighting : Sighting => !sighting.isExpired now) =
      fun sighting => decide (now - sighting.seenAt < sighting.lifetime) := by
    funext sighting
    rw [Sighting.isExpired, ← decide_not]
    exact decide_eq_decide.mpr Nat.not_le
  rw [hlive, h.live, stillLive, Option.isSome_filter, hcounts]

/-! ## What each call does -/

/-- A sighting is made, or refused, and the last one is the set's. -/
theorem Tracks.remember (h : Tracks lifetime history now s) (key : String) (span : Nat)
    {call : TimedCall} (keeps : call.operation ≠ .clear)
    (sighting : ∀ k, call.sighting? lifetime k =
      if key = k ∧ key ≠ "" then some ⟨now, span⟩ else none) :
    Tracks lifetime (history ++ [call]) now (s.settle (s.remember now key span)).2 := by
  by_cases hkey : key = ""
  · rw [ExpiringSet.remember, if_pos hkey]
    refine ⟨h.default, fun k => ?_⟩
    rw [lastSighting_concat history keeps, sighting, if_neg fun hk => hk.2 hkey, Option.none_or]
    exact h.live k
  · rw [ExpiringSet.remember, if_neg hkey]
    refine ⟨h.default, fun k => ?_⟩
    rw [lastSighting_concat history keeps, sighting]
    show stillLive now (s.sightings.insert key ⟨now, span⟩)[k]? = _
    rw [OrderedMap.getElem?_insert]
    by_cases hk : key = k
    · rw [if_pos hk, if_pos ⟨hk, hkey⟩, Option.some_or]
    · rw [if_neg hk, if_neg fun hboth => hk hboth.1, Option.none_or]
      exact h.live k

/-- What `has` drops has expired. -/
theorem Tracks.has (h : Tracks lifetime history now s) (key : String) :
    Tracks lifetime history now (s.has now key).2 := by
  rw [ExpiringSet.has]
  split
  · exact h
  · next sighting hsighting =>
    split
    · next hexpired =>
      refine ⟨h.default, fun k => ?_⟩
      rw [← h.live k, OrderedMap.getElem?_erase]
      by_cases hk : key = k
      · rw [if_pos hk, ← hk, hsighting, stillLive_some, if_pos hexpired]
        rfl
      · rw [if_neg hk]
    · exact h

/-- So has all that a sweep drops, now or earlier. -/
theorem Tracks.sweep (h : Tracks lifetime history now s) {instant : Nat} (le : instant ≤ now) :
    Tracks lifetime history now (s.sweep instant).2 where
  default := h.default
  live key := by
    rw [← h.live key, ExpiringSet.sweep, Std.TreeMap.getElem?_filter']
    exact stillLive_stillLive le _

/-- A question adds nothing to the history that a set would have to track. -/
theorem Tracks.asked (h : Tracks lifetime history now s) {call : TimedCall}
    (asks : call.operation.asks = true) : Tracks lifetime (history ++ [call]) now s where
  default := h.default
  live key := by
    rw [lastSighting_asks history asks]
    exact h.live key

/-- Each operation keeps the set in step with the history, at the instant of the operation. -/
theorem Tracks.perform (h : Tracks lifetime history now s) (operation : Operation) :
    Tracks lifetime (history ++ [⟨now, operation⟩]) now (s.perform now operation).2 := by
  cases operation with
  | add key =>
    have hadd : s.add now key = s.remember now key lifetime := by rw [← h.default]; rfl
    rw [ExpiringSet.perform, hadd]
    exact h.remember key lifetime Operation.noConfusion fun k => rfl
  | remember key span => exact h.remember key span Operation.noConfusion fun k => rfl
  | has key => exact (h.has key).asked rfl
  | sweep => exact (h.sweep (Nat.le_refl now)).asked rfl
  | clear =>
    refine ⟨h.default, fun key => ?_⟩
    rw [lastSighting_clear]
    exact (tracks_empty s.defaultLifetime now).live key

/-- What a set tracks after a run, it tracks at every instant from the last call on. -/
theorem Tracks.performAll {later : Nat} (calls : List TimedCall) :
    ∀ (history : List TimedCall) (now : Nat) (s : ExpiringSet), Tracks lifetime history now s →
      now ≤ later → (∀ call ∈ calls, now ≤ call.instant ∧ call.instant ≤ later) → Ascending calls →
        Tracks lifetime (history ++ calls) later (s.performAll calls).2 := by
  induction calls with
  | nil =>
    intro history now s h hlater _ _
    rw [List.append_nil]
    exact h.later hlater
  | cons call rest ih =>
    intro history now s h hlater hwithin hascending
    obtain ⟨hfirst, hrest⟩ := List.pairwise_cons.mp hascending
    obtain ⟨hnow, hlast⟩ := hwithin call List.mem_cons_self
    have hstep := (h.later hnow).perform call.operation
    rw [performAll_cons, List.append_cons]
    refine ih _ call.instant _ hstep hlast (fun next hnext => ⟨hfirst next hnext, ?_⟩) hrest
    exact (hwithin next (List.mem_cons_of_mem _ hnext)).2

/-- After a run from the empty set, a key that is asked for is answered by its last sighting. -/
theorem has_fst_performAll {calls : List TimedCall} {key : String}
    (ascending : Ascending (calls ++ [⟨now, .has key⟩])) :
    (((empty lifetime).performAll calls).2.has now key).1 =
      (lastSighting lifetime calls key).any
        fun sighting => now - sighting.seenAt < sighting.lifetime := by
  obtain ⟨hcalls, _, hbefore⟩ := List.pairwise_append.mp ascending
  refine Tracks.has_fst (Tracks.performAll calls [] 0 _ (tracks_empty lifetime 0) (Nat.zero_le now)
    (fun call hcall => ⟨Nat.zero_le _, ?_⟩) hcalls) key
  exact hbefore call hcall _ List.mem_cons_self

end ExpiringSet

namespace ClockedSet

open ExpiringSet

/-! ## On a stepped clock -/

/-- What is done with a set and its clock. -/
inductive Step
  | advance (span : Nat)
  | call (operation : Operation)
  deriving DecidableEq, Repr

/-- Takes steps in turn, and gives the answers to the calls among them. -/
def performAll (c : ClockedSet) : List Step → Except ClockFault (List Answer × ClockedSet)
  | [] => .ok ([], c)
  | .advance span :: rest => do
    let c ← c.advance span
    c.performAll rest
  | .call operation :: rest => do
    let (answer, c) ← c.perform operation
    let (answers, c) ← c.performAll rest
    .ok (answer :: answers, c)

/-- How far steps move the clock. -/
def advanced : List Step → Nat
  | [] => 0
  | .advance span :: rest => span + advanced rest
  | .call _ :: rest => advanced rest

/-- The calls among steps, at the instants that a clock shows which begins at `offset`. -/
def timed (offset : Nat) : List Step → List TimedCall
  | [] => []
  | .advance span :: rest => timed (offset + span) rest
  | .call operation :: rest => ⟨offset, operation⟩ :: timed offset rest

theorem le_of_mem_timed (steps : List Step) :
    ∀ (offset : Nat), ∀ call ∈ timed offset steps, offset ≤ call.instant := by
  induction steps with
  | nil => exact fun offset call hcall => absurd hcall List.not_mem_nil
  | cons step rest ih =>
    intro offset call hcall
    cases step with
    | advance span => exact Nat.le_trans (Nat.le_add_right offset span) (ih _ call hcall)
    | call operation =>
      rcases List.mem_cons.mp hcall with rfl | hcall
      · exact Nat.le_refl offset
      · exact ih offset call hcall

/-- A stepped clock never goes back. -/
theorem ascending_timed (steps : List Step) : ∀ offset : Nat, Ascending (timed offset steps) := by
  induction steps with
  | nil => exact fun offset => List.Pairwise.nil
  | cons step rest ih =>
    intro offset
    cases step with
    | advance span => exact ih (offset + span)
    | call operation => exact List.pairwise_cons.mpr ⟨le_of_mem_timed rest offset, ih offset⟩

/-- An operation that does not look at the clock does the same at every instant. -/
theorem perform_of_blind (s : ExpiringSet) {operation : Operation}
    (blind : operation.readsClock = false) (now later : Nat) :
    s.perform now operation = s.perform later operation := by
  cases operation with
  | add key =>
    have hkey : key = "" := by simpa [Operation.readsClock] using blind
    simp only [ExpiringSet.perform, ExpiringSet.add, ExpiringSet.remember, hkey, if_true]
  | remember key span =>
    have hkey : key = "" := by simpa [Operation.readsClock] using blind
    simp only [ExpiringSet.perform, ExpiringSet.remember, hkey, if_true]
  | has key => cases blind
  | sweep => cases blind
  | clear => rfl

/-- A call for which the clock can be read is carried out at the instant that it shows. -/
theorem perform_eq (c : ClockedSet) {operation : Operation}
    (legible : operation.readsClock = true → c.clock.offset < SteppedClock.instantLimit) :
    c.perform operation =
      .ok ((c.set.perform c.clock.offset operation).1,
        { c with set := (c.set.perform c.clock.offset operation).2 }) := by
  cases hreads : operation.readsClock with
  | true =>
    have hread : c.clock.read = .ok c.clock.offset := if_neg (Nat.not_le.mpr (legible hreads))
    rw [perform, hreads, if_pos rfl, hread]
    rfl
  | false =>
    rw [perform, hreads, if_neg Bool.false_ne_true, ← perform_of_blind c.set hreads 0]
    rfl

/-- A run within the limits of the clock succeeds, whatever the spans of the sightings, and it is
the run at the instants that the clock shows. -/
theorem performAll_eq (steps : List Step) :
    ∀ c : ClockedSet, c.clock.offset + advanced steps ≤ Span.longest →
      (∀ call ∈ timed c.clock.offset steps,
        call.operation.readsClock = true → call.instant < SteppedClock.instantLimit) →
      c.performAll steps =
        .ok ((c.set.performAll (timed c.clock.offset steps)).1,
          { clock := ⟨c.clock.offset + advanced steps⟩
            set := (c.set.performAll (timed c.clock.offset steps)).2 }) := by
  induction steps with
  | nil => exact fun c _ _ => rfl
  | cons step rest ih =>
    intro c hrange hlegible
    cases step with
    | advance span =>
      rw [advanced, ← Nat.add_assoc] at hrange ⊢
      have hmoved : c.advance span = .ok { c with clock := ⟨c.clock.offset + span⟩ } := by
        have hroom : ¬Span.longest < c.clock.offset + span := by omega
        rw [advance, SteppedClock.advance, if_neg hroom]
        rfl
      rw [performAll, hmoved]
      exact ih { c with clock := ⟨c.clock.offset + span⟩ } hrange hlegible
    | call operation =>
      have hperform := c.perform_eq (hlegible ⟨c.clock.offset, operation⟩ List.mem_cons_self)
      have hrest := ih { c with set := (c.set.perform c.clock.offset operation).2 } hrange
        fun call hcall => hlegible call (List.mem_cons_of_mem _ hcall)
      rw [performAll, hperform]
      show (do
        let (answers, c) ← ClockedSet.performAll _ rest
        Except.ok (_ :: answers, c)) = _
      rw [hrest]
      rfl

end ClockedSet

namespace ExpiringSet

/-- **Membership is decided by the history alone.** In a run on a clock that never goes back, asking
for a key is answered by its last sighting: the instant and the span of the last call that
remembered it and was not refused, unless the set was cleared since. So two runs that differ in
questions and sweeps only give the same answer for every key; a key that is remembered again has the
new instant and the new span; and the empty text changes nothing. A run on a stepped clock fails
for no span, but only where the clock cannot be moved or read. -/
theorem answers_of_lastSighting (lifetime : Nat) :
    (∀ calls before now key after, Ascending calls → calls = before ++ ⟨now, .has key⟩ :: after →
      ((empty lifetime).performAll calls).1[before.length]? =
          some (.member ((lastSighting lifetime before key).any
            fun sighting => now - sighting.seenAt < sighting.lifetime)) ∧
        ∀ sighting, lastSighting lifetime before key = some sighting → sighting.seenAt ≤ now) ∧
    (∀ before other now key, Ascending (before ++ [⟨now, .has key⟩]) →
      Ascending (other ++ [⟨now, .has key⟩]) →
      (before.filter fun call => !call.operation.asks) =
        (other.filter fun call => !call.operation.asks) →
      (((empty lifetime).performAll before).2.has now key).1 =
        (((empty lifetime).performAll other).2.has now key).1) ∧
    (∀ before seenAt key span, key ≠ "" →
      lastSighting lifetime (before ++ [⟨seenAt, .remember key span⟩]) key =
        some ⟨seenAt, span⟩) ∧
    (∀ (s : ExpiringSet) now span, s.perform now (.remember "" span) = (.refused .emptyKey, s) ∧
      s.perform now (.add "") = (.refused .emptyKey, s)) ∧
    ∀ steps, ClockedSet.advanced steps ≤ Span.longest →
      (∀ call ∈ ClockedSet.timed 0 steps,
        call.operation.readsClock = true → call.instant < SteppedClock.instantLimit) →
      Ascending (ClockedSet.timed 0 steps) ∧
        ∃ last, ClockedSet.performAll { set := empty lifetime } steps =
          .ok (((empty lifetime).performAll (ClockedSet.timed 0 steps)).1, last) := by
  refine ⟨?_, ?_, fun before seenAt key span hkey => lastSighting_remember before seenAt hkey span,
    fun s now span => ⟨rfl, rfl⟩, ?_⟩
  · rintro _ before now key after hascending rfl
    have hprefix : Ascending (before ++ [⟨now, .has key⟩]) := by
      rw [List.append_cons] at hascending
      exact (List.pairwise_append.mp hascending).1
    refine ⟨?_, fun sighting hsighting => ?_⟩
    · have hlength := length_performAll before (empty lifetime)
      rw [performAll_append, performAll_cons, ← hlength,
        List.getElem?_append_right (Nat.le_refl _), Nat.sub_self]
      exact congrArg (fun live => some (Answer.member live)) (has_fst_performAll hprefix)
    · obtain ⟨call, hcall, hseen⟩ := mem_of_lastSighting hsighting
      rw [← hseen]
      exact (List.pairwise_append.mp hprefix).2.2 call hcall _ List.mem_cons_self
  · intro before other now key hbefore hother hsame
    rw [has_fst_performAll hbefore, has_fst_performAll hother, ← lastSighting_filter before, hsame,
      lastSighting_filter]
  · intro steps hrange hlegible
    have hrun := ClockedSet.performAll_eq steps { set := empty lifetime }
      (by rw [Nat.zero_add]; exact hrange) hlegible
    exact ⟨ClockedSet.ascending_timed steps 0, _, hrun⟩

/-- A second sighting can shorten the life of a key; a key seen for the longest span lives on. -/
theorem answers_of_lastSighting_shortened :
    ∃ answers last,
      ClockedSet.performAll { set := empty 5 }
          [.call (.remember "a" 10), .call (.remember "b" Span.longest), .advance 4,
            .call (.remember "a" 3), .call .sweep, .advance 3, .call (.has "a"),
            .call (.has "b")] = .ok (answers, last) ∧
        answers[4]? = some (.member false) ∧ answers[5]? = some (.member true) := by
  obtain ⟨hascending, last, hrun⟩ := (answers_of_lastSighting 5).2.2.2.2
    [.call (.remember "a" 10), .call (.remember "b" Span.longest), .advance 4,
      .call (.remember "a" 3), .call .sweep, .advance 3, .call (.has "a"), .call (.has "b")]
    (by decide) (by decide)
  refine ⟨_, last, hrun, ?_, ?_⟩
  · exact ((answers_of_lastSighting 5).1 _ [⟨0, .remember "a" 10⟩, ⟨0, .remember "b" Span.longest⟩,
      ⟨4, .remember "a" 3⟩, ⟨4, .sweep⟩] 7 "a" _ hascending rfl).1
  · exact ((answers_of_lastSighting 5).1 _ [⟨0, .remember "a" 10⟩, ⟨0, .remember "b" Span.longest⟩,
      ⟨4, .remember "a" 3⟩, ⟨4, .sweep⟩, ⟨7, .has "a"⟩] 7 "b" _ hascending rfl).1

end ExpiringSet

end TieredStore
