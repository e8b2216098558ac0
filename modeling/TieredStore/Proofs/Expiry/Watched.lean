import TieredStore.Expiry.Timeline
import TieredStore.Proofs.Expiry.Pace
import TieredStore.Proofs.Expiry.Tracked

/-!
# A set under a sweeper

When the sweeps take place depends on what they find, and what they find on everything that was
asked of the set before. Two facts do not depend on it. A sweep leaves no key that has expired, so a
key that is still tracked expired after the last sweep; and the next sweep is no further than the
longest interval. `Sweeper.Swept` is the invariant that says both, and it holds between any two
steps, for whatever intervals the sweeps have led to.

**The law** (`Timeline.garbage_of_watched`): a key that has expired is not tracked for longer than
the longest interval, counted from its expiry or from the start of the sweeper. The answers are
those of the same run without the sweeper (`Timeline.Twins`), but for the numbers that the client's
own sweeps find to drop.
-/

namespace TieredStore

open ExpiringSet

/-- When a sighting ceases to count. -/
def Sighting.expiry (sighting : Sighting) : Nat :=
  sighting.seenAt + sighting.lifetime

/-- A sighting that is not expired will expire later than now. -/
theorem Sighting.lt_expiry {sighting : Sighting} {now : Nat}
    (live : ¬sighting.lifetime ≤ now - sighting.seenAt) : now < sighting.expiry := by
  unfold expiry
  omega

namespace Sweeper

/-- What holds of a sweeper that began at `start` and swept last at `last`, or not yet. -/
structure Swept (pace : Pace) (start last : Nat) (w : Sweeper) (s : ExpiringSet) : Prop where
  paced : w.pace = pace
  shortest : pace.shortest ≤ w.timer.interval
  longest : w.timer.interval ≤ pace.longest
  due : w.timer.due = Span.roundUp Span.millisecond (last + w.timer.interval)
  /-- Sweeps take place at whole milliseconds. -/
  whole : last = start ∨ Span.millisecond ∣ last
  /-- What the last sweep left had not expired, and a key seen since has its expiry ahead. -/
  tracked : ∀ (key : String) (sighting : Sighting), s.sightings[key]? = some sighting →
    last ≤ max sighting.expiry start

variable {pace : Pace} {start last : Nat} {w : Sweeper} {s : ExpiringSet}

theorem swept_start (sound : pace.Sound) (start : Nat) (s : ExpiringSet) :
    Swept pace start start (.start pace start) s where
  paced := rfl
  shortest := sound.lower
  longest := sound.upper
  due := rfl
  whole := .inl rfl
  tracked _ _ _ := Nat.le_max_right ..

/-- Time passes until the next sweep. -/
theorem Swept.lt_due (h : Swept pace start last w s) (sound : pace.Sound) : last < w.timer.due := by
  rw [h.due]
  exact SweepTimer.lt_due_set last (Nat.lt_of_lt_of_le sound.positive h.shortest)

/-- A call sights a key when it is made. -/
theorem seenAt_of_made {lifetime : Nat} {key : String} {call : TimedCall} {sighting : Sighting}
    (made : call.sighting? lifetime key = some sighting) : sighting.seenAt = call.instant := by
  obtain ⟨instant, operation⟩ := call
  cases operation with
  | add k | remember k span =>
    simp only [TimedCall.sighting?, Option.ite_none_right_eq_some, Option.some.injEq] at made
    obtain ⟨_, rfl⟩ := made
    rfl
  | has | sweep | clear => cases made

/-- What a call tracks anew does not expire before now. -/
theorem Swept.perform (h : Swept pace start last w s) (call : TimedCall)
    (later : last ≤ call.instant) :
    Swept pace start last w (s.perform call.instant call.operation).2 := by
  refine { h with tracked := ?_ }
  intro key sighting htracked
  rcases (getElem?_perform call).mp htracked with ⟨_, hmade | ⟨_, _, hold⟩⟩
  · have hseen := seenAt_of_made hmade
    unfold Sighting.expiry
    omega
  · exact h.tracked key sighting hold

/-- A sweep at its time leaves nothing that has expired, and the next one is set within bounds. -/
theorem Swept.fire (h : Swept pace start last w s) :
    Swept pace start w.timer.due (w.fire s).1 (w.fire s).2 := by
  obtain ⟨hshortest, hlongest⟩ :=
    Pace.next_within h.shortest h.longest (s.sweep w.timer.due).1 s.size
  refine ⟨h.paced, ?_, ?_, rfl, ?_, ?_⟩
  · rw [← h.paced] at hshortest ⊢
    exact hshortest
  · rw [← h.paced] at hlongest ⊢
    exact hlongest
  · rw [h.due]
    exact .inr (Span.dvd_roundUp ..)
  · intro key sighting htracked
    obtain ⟨hlive, _⟩ := (getElem?_sweep w.timer.due).mp htracked
    have hexpiry := Sighting.lt_expiry hlive
    omega

/-- There is nothing to catch up with before the next sweep is due. -/
theorem catchUp_of_ahead {horizon : Nat} (ahead : horizon < w.timer.due) :
    w.catchUp s horizon = (w, s) := by
  rw [catchUp, if_pos ahead]

/-- A sweep that is due is carried out, and then the next one if it is due as well. -/
theorem catchUp_of_due {horizon : Nat} (due : ¬horizon < w.timer.due)
    (later : w.timer.due < (w.fire s).1.timer.due) :
    w.catchUp s horizon = (w.fire s).1.catchUp (w.fire s).2 horizon := by
  rw [catchUp, if_neg due]
  exact if_pos later

theorem catchUp_of_stuck {horizon : Nat} (due : ¬horizon < w.timer.due)
    (stuck : ¬w.timer.due < (w.fire s).1.timer.due) : w.catchUp s horizon = w.fire s := by
  rw [catchUp, if_neg due]
  exact if_neg stuck

/-- After all sweeps that are due, the next one lies ahead. The induction follows the sweeps; since
time passes between them, the branch that breaks off is never taken. -/
theorem Swept.catchUp (sound : pace.Sound) (w : Sweeper) (s : ExpiringSet) (horizon : Nat) :
    ∀ last, Swept pace start last w s →
      ∃ last', Swept pace start last' (w.catchUp s horizon).1 (w.catchUp s horizon).2 ∧
        last' ≤ max last horizon ∧ horizon < (w.catchUp s horizon).1.timer.due := by
  induction w, s using catchUp.induct horizon with
  | case1 w s hdue =>
    intro last h
    rw [catchUp_of_ahead hdue]
    exact ⟨last, h, Nat.le_max_left .., hdue⟩
  | case2 w s hdue fired hlater ih =>
    intro last h
    obtain ⟨last', hswept, hlast', hahead⟩ := ih w.timer.due h.fire
    rw [catchUp_of_due hdue hlater]
    exact ⟨last', hswept, by omega, hahead⟩
  | case3 w s hdue fired hstuck =>
    intro last h
    exact (hstuck (h.fire.lt_due sound)).elim

/-- Before a client goes on, the sweeps have caught up with it; one may be due just then if the
client goes first. -/
theorem Swept.goBefore (sound : pace.Sound) (h : Swept pace start last w s) {instant : Nat}
    (later : last ≤ instant) (first : Precedence) :
    ∃ last', Swept pace start last' (w.goBefore s first instant).1
        (w.goBefore s first instant).2 ∧
      last' ≤ instant ∧ instant ≤ (w.goBefore s first instant).1.timer.due ∧
        (first = .sweeper → instant < (w.goBefore s first instant).1.timer.due) := by
  cases first with
  | sweeper =>
    obtain ⟨last', hswept, hlast, hdue⟩ := h.catchUp sound w s instant last
    exact ⟨last', hswept, by omega, Nat.le_of_lt hdue, fun _ => hdue⟩
  | client =>
    cases instant with
    | zero => exact ⟨last, h, later, Nat.zero_le _, nofun⟩
    | succ instant =>
      obtain ⟨last', hswept, hlast, hdue⟩ := h.catchUp sound w s instant last
      exact ⟨last', hswept, by omega, hdue, nofun⟩

/-- Sweeps on the way leave what is live as it was, whenever they were due. -/
theorem tracks_catchUp {lifetime now : Nat} {history : List TimedCall} (w : Sweeper)
    (s : ExpiringSet) {horizon : Nat} (past : horizon ≤ now) (h : Tracks lifetime history now s) :
    Tracks lifetime history now (w.catchUp s horizon).2 := by
  induction w, s using catchUp.induct horizon with
  | case1 w s hdue =>
    rw [catchUp_of_ahead hdue]
    exact h
  | case2 w s hdue fired hlater ih =>
    rw [catchUp_of_due hdue hlater]
    exact ih (h.sweep (Nat.le_trans (Nat.le_of_not_lt hdue) past))
  | case3 w s hdue fired hstuck =>
    rw [catchUp_of_stuck hdue hstuck]
    exact h.sweep (Nat.le_trans (Nat.le_of_not_lt hdue) past)

/-- So they do whoever goes first. -/
theorem tracks_goBefore {lifetime instant : Nat} {history : List TimedCall} (w : Sweeper)
    {s : ExpiringSet} (h : Tracks lifetime history instant s) (first : Precedence) :
    Tracks lifetime history instant (w.goBefore s first instant).2 := by
  cases first with
  | sweeper => exact w.tracks_catchUp s (Nat.le_refl instant) h
  | client =>
    cases instant with
    | zero => exact h
    | succ instant => exact w.tracks_catchUp s (Nat.le_succ instant) h

/-- A key that is still tracked expired so late that the sweep that is awaited is within the longest
interval of it. -/
theorem Swept.due_le (h : Swept pace start last w s) {key : String} {sighting : Sighting}
    (tracked : s.sightings[key]? = some sighting) :
    w.timer.due ≤ Span.roundUp Span.millisecond (max sighting.expiry start + pace.longest) ∧
      (Span.millisecond ∣ start →
        w.timer.due ≤
          max sighting.expiry start + Span.roundUp Span.millisecond pace.longest) := by
  have hlast := h.tracked key sighting tracked
  have hlongest := h.longest
  rw [h.due]
  constructor
  · apply Span.roundUp_le_roundUp
    omega
  · intro hstart
    have hwhole : Span.millisecond ∣ last := by
      rcases h.whole with rfl | hlast
      · exact hstart
      · exact hlast
    have hrounded := Span.roundUp_le_roundUp Span.millisecond hlongest
    rw [Span.roundUp_add_of_dvd hwhole]
    omega

end Sweeper

namespace Timeline

/-- What a client does in the course of time. -/
inductive Step
  | call (operation : Operation)
  | sleep (span : Nat) (first : Precedence := .sweeper)
  deriving DecidableEq, Repr

/-- Takes steps in turn, and gives the answers to the calls among them. -/
def performAll (t : Timeline) : List Step → List Answer × Timeline
  | [] => ([], t)
  | .call operation :: rest =>
    let (answer, t) := t.perform operation
    (t.performAll rest).map (answer :: ·) id
  | .sleep span first :: rest => (t.sleep span first).performAll rest

theorem performAll_call (t : Timeline) (operation : Operation) (rest : List Step) :
    t.performAll (.call operation :: rest) =
      ((t.perform operation).1 :: ((t.perform operation).2.performAll rest).1,
        ((t.perform operation).2.performAll rest).2) :=
  rfl

/-! ## Under the sweeper -/

/-- A timeline with a sweeper of this pace that began at `start`. -/
def Watched (pace : Pace) (start : Nat) (t : Timeline) : Prop :=
  ∃ w last, t.sweeper = some w ∧ w.Swept pace start last t.seen ∧ last ≤ t.now ∧
    t.now ≤ w.timer.due

variable {pace : Pace} {start : Nat} {t u : Timeline}

/-- A sweeper that starts waits for the base interval, which is within the bounds. -/
theorem watched_start (sound : pace.Sound) (t : Timeline) : (t.start pace).Watched pace t.now := by
  have hswept := Sweeper.swept_start sound t.now t.seen
  exact ⟨_, t.now, rfl, hswept, Nat.le_refl t.now, Nat.le_of_lt (hswept.lt_due sound)⟩

/-- What clients call does not move the clock or the sweeper. -/
theorem Watched.perform (h : t.Watched pace start) (operation : Operation) :
    (t.perform operation).2.Watched pace start := by
  obtain ⟨w, last, hw, hswept, hlast, hdue⟩ := h
  exact ⟨w, last, hw, hswept.perform ⟨t.now, operation⟩ hlast, hlast, hdue⟩

/-- The clock is moved to the instant, and the sweeper catches up with what was due before it. -/
theorem moveTo_of_sweeper {w : Sweeper} (h : t.sweeper = some w) (instant : Nat)
    (first : Precedence) :
    t.moveTo instant first =
      { now := instant, seen := (w.goBefore t.seen first instant).2,
        sweeper := some (w.goBefore t.seen first instant).1 } := by
  unfold moveTo
  rw [h]

theorem moveTo_of_none (h : t.sweeper = none) (instant : Nat) (first : Precedence) :
    t.moveTo instant first = { t with now := instant } := by
  unfold moveTo
  rw [h]

/-- However far the clock is moved at once, the sweeper has caught up with it. -/
theorem Watched.moveTo (h : t.Watched pace start) (sound : pace.Sound) {instant : Nat}
    (later : t.now ≤ instant) (first : Precedence) :
    (t.moveTo instant first).Watched pace start := by
  obtain ⟨w, last, hw, hswept, hlast, _⟩ := h
  obtain ⟨last', hswept', hlast', hdue', _⟩ :=
    hswept.goBefore sound (Nat.le_trans hlast later) first
  rw [moveTo_of_sweeper hw]
  exact ⟨_, last', rfl, hswept', hlast', hdue'⟩

/-- A sleep ends no sooner than it began. -/
theorem le_sleep (t : Timeline) (span : Nat) :
    t.now ≤ Span.roundUp Span.millisecond (t.now + span) :=
  Nat.le_trans (Nat.le_add_right ..) (Span.le_roundUp Span.millisecond_pos _)

/-! ## With the sweeper and without -/

end Timeline

/-- An answer without the number of keys that a sweep dropped. -/
def ExpiringSet.Answer.uncounted : Answer → Answer
  | dropped _ => dropped 0
  | answer => answer

/-- Sets that track the same history answer alike, but for the number of keys that a sweep drops. -/
theorem ExpiringSet.Tracks.uncounted_perform {lifetime : Nat} {history : List TimedCall} {now : Nat}
    {s s' : ExpiringSet} (h : Tracks lifetime history now s) (h' : Tracks lifetime history now s')
    (operation : Operation) :
    (s.perform now operation).1.uncounted = (s'.perform now operation).1.uncounted := by
  have hremember : ∀ key span,
      (s.settle (s.remember now key span)).1 = (s'.settle (s'.remember now key span)).1 := by
    intro key span
    unfold ExpiringSet.remember
    split <;> rfl
  cases operation with
  | add key =>
    show (s.settle (s.remember now key s.defaultLifetime)).1.uncounted = _
    rw [h.default, hremember key lifetime, ← h'.default]
    rfl
  | remember key span => exact congrArg Answer.uncounted (hremember key span)
  | has key =>
    show Answer.uncounted (.member (s.has now key).1) = .uncounted (.member (s'.has now key).1)
    rw [h.has_fst, h'.has_fst]
  | sweep => rfl
  | clear => rfl

namespace Timeline

variable {pace : Pace} {start : Nat} {t u : Timeline}

/-- Two timelines at one instant that have the same history, only the first with a sweeper. -/
structure Twins (pace : Pace) (start lifetime : Nat) (history : List TimedCall)
    (t u : Timeline) : Prop where
  now : t.now = u.now
  watched : t.Watched pace start
  unwatched : u.sweeper = none
  tracks : Tracks lifetime history t.now t.seen
  tracks' : Tracks lifetime history t.now u.seen

variable {lifetime : Nat} {history : List TimedCall}

/-- A call is answered alike whether or not anything was swept. -/
theorem Twins.perform (h : Twins pace start lifetime history t u) (operation : Operation) :
    Twins pace start lifetime (history ++ [⟨t.now, operation⟩]) (t.perform operation).2
      (u.perform operation).2 where
  now := h.now
  watched := h.watched.perform operation
  unwatched := h.unwatched
  tracks := h.tracks.perform operation
  tracks' := by
    show Tracks lifetime _ t.now (u.seen.perform u.now operation).2
    rw [← h.now]
    exact h.tracks'.perform operation

/-- Twins move on together, whoever goes first: without a sweeper there are no ties. -/
theorem Twins.moveTo (h : Twins pace start lifetime history t u) (sound : pace.Sound)
    {instant : Nat} (later : t.now ≤ instant) (first first' : Precedence) :
    Twins pace start lifetime history (t.moveTo instant first) (u.moveTo instant first') := by
  obtain ⟨w, _, hw, _⟩ := h.watched
  have hwatched := h.watched.moveTo sound later first
  have htracks := w.tracks_goBefore (h.tracks.later later) first
  rw [moveTo_of_none h.unwatched]
  rw [moveTo_of_sweeper hw] at hwatched ⊢
  exact ⟨rfl, hwatched, h.unwatched, htracks, h.tracks'.later later⟩

/-- Sleeping sweeps on the one side only, and takes nothing that is not expired. -/
theorem Twins.sleep (h : Twins pace start lifetime history t u) (sound : pace.Sound) (span : Nat)
    (first : Precedence) :
    Twins pace start lifetime history (t.sleep span first) (u.sleep span first) := by
  unfold Timeline.sleep
  rw [← h.now]
  exact h.moveTo sound (t.le_sleep span) first first

/-- Twins stay twins, and give equal answers but for the counts of sweeps. -/
theorem Twins.performAll (sound : pace.Sound) (steps : List Step) :
    ∀ (history : List TimedCall) (t u : Timeline), Twins pace start lifetime history t u →
      (∃ history', Twins pace start lifetime history' (t.performAll steps).2
        (u.performAll steps).2) ∧
        (t.performAll steps).1.map Answer.uncounted =
          (u.performAll steps).1.map Answer.uncounted := by
  induction steps with
  | nil => exact fun history t u h => ⟨⟨history, h⟩, rfl⟩
  | cons step rest ih =>
    intro history t u h
    cases step with
    | call operation =>
      obtain ⟨hlast, hrest⟩ := ih _ _ _ (h.perform operation)
      have hanswer : (t.perform operation).1.uncounted = (u.perform operation).1.uncounted := by
        show _ = (u.seen.perform u.now operation).1.uncounted
        rw [← h.now]
        exact h.tracks.uncounted_perform h.tracks' operation
      rw [performAll_call, performAll_call]
      refine ⟨hlast, ?_⟩
      rw [List.map_cons, List.map_cons, hanswer, hrest]
    | sleep span first => exact ih _ _ _ (h.sleep sound span first)

/-- A timeline without a sweeper tracks the history of its calls. -/
theorem tracks_performAll (steps : List Step) :
    ∀ (history : List TimedCall) (t : Timeline), t.sweeper = none →
      Tracks lifetime history t.now t.seen →
        (t.performAll steps).2.sweeper = none ∧
          ∃ history', Tracks lifetime history' (t.performAll steps).2.now
            (t.performAll steps).2.seen := by
  induction steps with
  | nil => exact fun history t hnone h => ⟨hnone, history, h⟩
  | cons step rest ih =>
    intro history t hnone h
    cases step with
    | call operation => exact ih _ _ hnone (h.perform operation)
    | sleep span first =>
      refine ih history (t.sleep span first) ?_ ?_
      · rw [sleep, moveTo_of_none hnone]
        exact hnone
      · rw [sleep, moveTo_of_none hnone]
        exact h.later (t.le_sleep span)

/-- **Garbage is bounded under a sweeper.** Let a client use a set for a while, start a sweeper of
any pace with sound bounds, and go on; the calls, the spans slept, who goes first at each wake and
the thresholds of the pace are arbitrary. At every instant from then on, a key that is still tracked
expired so short a time ago that no more than the longest interval has gone by, counted from its
expiry or, if that is later, from the start of the sweeper, and rounded up to a whole millisecond;
and not even that much where a sweep that is due goes first. The sum is rounded, and where the
sweeper started at a whole millisecond, as it does where the clock moves only by sleeping, already
the interval by itself may be. The sweeps change no answer but the number that a sweep of the client
drops, and no key's membership at any instant. -/
theorem garbage_of_watched {pace : Pace} (sound : pace.Sound) (origin lifetime : Nat)
    (before after : List Step) :
    let unwatched := (({ now := origin, seen := empty lifetime } : Timeline).performAll before).2
    let watched := unwatched.start pace
    let last := (watched.performAll after).2
    let last' := (unwatched.performAll after).2
    (∀ instant first, last.now ≤ instant →
      (∀ (key : String) (sighting : Sighting),
        (last.moveTo instant first).seen.sightings[key]? = some sighting →
        let sum := Span.roundUp Span.millisecond
          (max sighting.expiry unwatched.now + pace.longest)
        let parts := max sighting.expiry unwatched.now +
          Span.roundUp Span.millisecond pace.longest
        instant ≤ sum ∧ (Span.millisecond ∣ unwatched.now → instant ≤ parts) ∧
          (first = .sweeper →
            instant < sum ∧ (Span.millisecond ∣ unwatched.now → instant < parts))) ∧
      ∀ key, ((last.moveTo instant first).seen.has instant key).1 =
        ((last'.moveTo instant).seen.has instant key).1) ∧
    (watched.performAll after).1.map Answer.uncounted =
      (unwatched.performAll after).1.map Answer.uncounted := by
  intro unwatched watched last last'
  obtain ⟨hnone, history, htracks⟩ :=
    tracks_performAll before [] { now := origin, seen := empty lifetime } rfl
      (tracks_empty lifetime origin)
  have htwins : Twins pace unwatched.now lifetime history watched unwatched :=
    ⟨rfl, watched_start sound unwatched, hnone, htracks, htracks⟩
  obtain ⟨⟨history', hlast⟩, hanswers⟩ := htwins.performAll sound after
  refine ⟨?_, hanswers⟩
  intro instant first hinstant
  constructor
  · intro key sighting htracked sum parts
    obtain ⟨w, swept, hw, hswept, hpast, _⟩ := hlast.watched
    obtain ⟨_, hswept', _, hdue, hahead⟩ :=
      hswept.goBefore sound (Nat.le_trans hpast hinstant) first
    rw [moveTo_of_sweeper hw] at htracked
    obtain ⟨hsum, hparts⟩ := hswept'.due_le htracked
    exact ⟨Nat.le_trans hdue hsum, fun whole => Nat.le_trans hdue (hparts whole), fun hfirst =>
      ⟨Nat.lt_of_lt_of_le (hahead hfirst) hsum, fun whole =>
        Nat.lt_of_lt_of_le (hahead hfirst) (hparts whole)⟩⟩
  · intro key
    have hmoved := hlast.moveTo sound hinstant first .sweeper
    have hnow : (last.moveTo instant first).now = instant := by
      unfold moveTo
      split <;> rfl
    have hlive := hmoved.tracks
    have hlive' := hmoved.tracks'
    rw [hnow] at hlive hlive'
    rw [hlive.has_fst, hlive'.has_fst]

/-- A key that expired a second before the sweeper started is still tracked half an interval later;
a second later it is not a member, and a key with a longer life is. A client that goes before the
first sweep, of a pace that begins with the longest interval, finds the key tracked at the bound. -/
theorem garbage_of_watched_waiting :
    let pace : Pace := {}
    let before : List Step :=
      [.call (.remember "a" Span.second), .call (.add "b"), .sleep (2 * Span.second)]
    let unwatched :=
      (({ seen := empty (60 * Span.second) } : Timeline).performAll before).2
    let instant := 2 * Span.second + 50 * Span.millisecond
    let slow : Pace := { base := Span.second }
    let bound := Span.roundUp Span.millisecond
      (max (Sighting.expiry ⟨0, Span.second⟩) unwatched.now + slow.longest)
    pace.Sound ∧
      ((unwatched.start pace).moveTo instant).seen.sightings["a"]? = some ⟨0, Span.second⟩ ∧
      instant < Span.roundUp Span.millisecond
        (max (Sighting.expiry ⟨0, Span.second⟩) unwatched.now + pace.longest) ∧
      ((unwatched.start pace).performAll
        [.sleep Span.second, .call (.has "a"), .call (.has "b")]).1.map Answer.uncounted =
          [.member false, .member true] ∧
      3 * Span.second ≤ bound ∧ bound = 3 * Span.second ∧
      ((unwatched.start slow).moveTo (3 * Span.second) .client).seen.sightings["a"]? =
        some ⟨0, Span.second⟩ := by
  intro pace before unwatched instant slow bound
  have hsound : pace.Sound := ⟨by decide, by decide, by decide⟩
  have hahead : instant < (Sweeper.start pace unwatched.now).timer.due := by decide +kernel
  have htracked : ((unwatched.start pace).moveTo instant).seen.sightings["a"]? =
      some ⟨0, Span.second⟩ := by
    rw [moveTo_of_sweeper (w := .start pace unwatched.now) rfl, Sweeper.goBefore,
      Sweeper.catchUp_of_ahead hahead]
    show unwatched.seen.sightings["a"]? = some ⟨0, Span.second⟩
    decide +kernel
  have hlater : ((unwatched.start pace).performAll []).2.now ≤ instant := by
    show unwatched.now ≤ instant
    decide +kernel
  have hbound := ((garbage_of_watched hsound 0 (60 * Span.second) before []).1 instant .sweeper
    hlater).1 "a" _ htracked
  have hanswers := (garbage_of_watched hsound 0 (60 * Span.second) before
    [.sleep Span.second, .call (.has "a"), .call (.has "b")]).2
  have hunwatched : (unwatched.performAll
      [.sleep Span.second, .call (.has "a"), .call (.has "b")]).1.map Answer.uncounted =
        [.member false, .member true] := by decide +kernel
  have hslow : slow.Sound := ⟨by decide, by decide, by decide⟩
  have htie : ((unwatched.start slow).moveTo (3 * Span.second) .client).seen.sightings["a"]? =
      some ⟨0, Span.second⟩ := by
    have hahead : 3 * Span.second - 1 < (Sweeper.start slow unwatched.now).timer.due := by
      decide +kernel
    rw [moveTo_of_sweeper (w := .start slow unwatched.now) rfl]
    show ((Sweeper.start slow unwatched.now).catchUp unwatched.seen
      (3 * Span.second - 1)).2.sightings["a"]? = _
    rw [Sweeper.catchUp_of_ahead hahead]
    decide +kernel
  have hreached := ((garbage_of_watched hslow 0 (60 * Span.second) before []).1
    (3 * Span.second) .client (by decide +kernel)).1 "a" _ htie
  exact ⟨hsound, htracked, (hbound.2.2 rfl).1, hanswers.trans hunwatched, hreached.1,
    by decide +kernel, htie⟩

end Timeline

end TieredStore
