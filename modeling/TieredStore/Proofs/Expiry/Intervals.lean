import TieredStore.Proofs.Expiry.Share
import TieredStore.Proofs.Expiry.Watched

/-!
# The interval between sweeps

What the sweeps find is taken as given here, one pair of numbers for each: how many keys were
tracked, and how many of them had expired. `SweepTimer.after` is the timer after sweeps that found
such numbers, and the timer of a sweeper is always one of these (`Sweeper.timer_catchUp`).

A run of sweeps of one kind has a closed form. Cutting off at the shortest interval and halving
with the rest dropped can be done in either order, because halving the shortest one goes below it;
so halving many times is dividing once. Likewise for doubling, and the longest interval.

**The law** (`SweepTimer.intervals_of_pace`): every interval stays within the bounds, and twice of
it can be computed; sweeps are one interval apart, in whole milliseconds; and the interval after a
run that speeds up, or a run that finds nothing expired, is the closed form.
-/

namespace TieredStore

namespace Span

/-! ## Spans by their parts -/

/-- Half a span by its parts: an odd second is shared out in nanoseconds. -/
def halved (span : Nat) : Nat × Nat :=
  (seconds span / 2, subsecond span / 2 + (seconds span % 2 * second + subsecond span % 2) / 2)

/-- Twice a span by its parts: the nanoseconds carry into the seconds. -/
def doubled (span : Nat) : Nat × Nat :=
  (seconds span * 2 + subsecond span * 2 / second, subsecond span * 2 % second)

/-- Half of a span, in seconds and the rest: half of an odd second is carried over to the rest. -/
theorem halved_eq (span : Nat) : halved span = (seconds (span / 2), subsecond (span / 2)) := by
  unfold halved seconds subsecond second
  exact Prod.ext (by omega) (by omega)

/-- Twice a span, in seconds and the rest: what comes to a second is carried over. -/
theorem doubled_eq (span : Nat) : doubled span = (seconds (span * 2), subsecond (span * 2)) := by
  unfold doubled seconds subsecond second
  exact Prod.ext (by omega) (by omega)

/-- The seconds of a span that a clock can be moved have 64 bits. -/
theorem seconds_lt {span : Nat} (short : span ≤ longest) : seconds span < UInt64.size := by
  have hlongest : longest < UInt64.size * second := by decide
  rw [seconds, Nat.div_lt_iff_lt_mul (by decide : 0 < second)]
  exact Nat.lt_of_le_of_lt short hlongest

end Span

namespace Pace

variable {pace : Pace} {current tracked expired : Nat}

/-! ## One sweep -/

/-- A sweep after which the interval is halved. -/
def SpeedsUp (pace : Pace) (tracked expired : Nat) : Prop :=
  tracked ≠ 0 ∧ expiredShare expired tracked > pace.speedUpAbove

/-- A sweep that found keys and none of them expired. -/
def Idle (tracked expired : Nat) : Prop :=
  0 < tracked ∧ expired = 0

/-- Speeding up halves the interval, down to the shortest. -/
theorem next_of_speedsUp (h : pace.SpeedsUp tracked expired) :
    pace.next current expired tracked = max (current / 2) pace.shortest := by
  rw [next, if_neg h.1, if_pos h.2]

open Float.Model in
theorem lt_zero_eq_false_of_le {x : UnpackedFloat}
    (h : (UnpackedFloat.zero .positive).le x = true) : x.lt (.zero .positive) = false := by
  cases x with
  | notANumber => rfl
  | zero sign => rfl
  | infinity sign | finite sign =>
    cases sign with
    | positive => rfl
    | negative => cases h

/-- A threshold that is at least zero is not below it. -/
theorem not_lt_zero {threshold : Float} (h : 0 ≤ threshold) : ¬threshold < 0 := by
  intro hlt
  have hle := lt_zero_eq_false_of_le (of_decide_eq_true h)
  cases hle.symm.trans (of_decide_eq_true hlt)

/-- A sweep of tracked entries that expires none slows down: a share of zero is above no threshold
from zero on, and below every larger one. -/
theorem next_of_idle (above : 0 ≤ pace.speedUpAbove) (below : 0 < pace.slowDownBelow)
    (h : Idle tracked expired) :
    pace.next current expired tracked = min (current * 2) pace.longest := by
  obtain ⟨htracked, rfl⟩ := h
  rw [next, if_neg (Nat.ne_of_gt htracked), expiredShare_zero htracked, if_neg (not_lt_zero above),
    if_pos ⟨rfl, below⟩]

end Pace

namespace SweepTimer

variable {pace : Pace}

/-! ## The timer after some sweeps -/

/-- The timer after sweeps that found the given numbers of tracked and expired keys. -/
def after (pace : Pace) (timer : SweepTimer) (found : List (Nat × Nat)) : SweepTimer :=
  found.foldl (fun timer (tracked, expired) => timer.next pace expired tracked) timer

/-- Sweeps in two goes are the sweeps at once. -/
theorem after_append (pace : Pace) (timer : SweepTimer) (found more : List (Nat × Nat)) :
    timer.after pace (found ++ more) = (timer.after pace found).after pace more :=
  List.foldl_append

/-- No sweep leaves the interval outside its bounds. -/
theorem after_within (found : List (Nat × Nat)) :
    ∀ timer : SweepTimer, pace.shortest ≤ timer.interval → timer.interval ≤ pace.longest →
      pace.shortest ≤ (timer.after pace found).interval ∧
        (timer.after pace found).interval ≤ pace.longest := by
  induction found with
  | nil => exact fun timer shortest longest => ⟨shortest, longest⟩
  | cons sweep rest ih =>
    intro timer shortest longest
    obtain ⟨hshortest, hlongest⟩ := Pace.next_within shortest longest sweep.2 sweep.1
    exact ih (timer.next pace sweep.2 sweep.1) hshortest hlongest

/-- A sweep is due on a whole millisecond, as all before it were. -/
theorem dvd_due_after (found : List (Nat × Nat)) :
    ∀ timer : SweepTimer, Span.millisecond ∣ timer.due →
      Span.millisecond ∣ (timer.after pace found).due := by
  induction found with
  | nil => exact fun timer whole => whole
  | cons sweep rest ih =>
    intro timer _
    exact ih (timer.next pace sweep.2 sweep.1) (Span.dvd_roundUp ..)

/-- A sweep takes place when the timer after the ones before it goes off. -/
theorem sweepTimes_eq_some (found : List (Nat × Nat)) :
    ∀ (timer : SweepTimer) (place time : Nat),
      (sweepTimes pace timer found)[place]? = some time →
        ∃ sweep, found[place]? = some sweep ∧ time = (timer.after pace (found.take place)).due := by
  induction found with
  | nil => exact fun timer place time h => nomatch h
  | cons sweep rest ih =>
    intro timer place time h
    cases place with
    | zero => exact ⟨sweep, rfl, (Option.some.inj h).symm⟩
    | succ place => exact ih (timer.next pace sweep.2 sweep.1) place time h

/-- From one sweep to the next, the interval goes by in whole milliseconds. -/
theorem sweepTimes_succ (timer : SweepTimer) (whole : Span.millisecond ∣ timer.due)
    {found : List (Nat × Nat)} {place time later : Nat}
    (this : (sweepTimes pace timer found)[place]? = some time)
    (next : (sweepTimes pace timer found)[place + 1]? = some later) :
    later = time + Span.roundUp Span.millisecond
      (timer.after pace (found.take (place + 1))).interval := by
  obtain ⟨sweep, hsweep, rfl⟩ := sweepTimes_eq_some found timer place time this
  obtain ⟨_, _, rfl⟩ := sweepTimes_eq_some found timer (place + 1) later next
  have htake : found.take (place + 1) = found.take place ++ [sweep] := by
    rw [List.take_add_one, hsweep]
    rfl
  rw [htake, after_append]
  exact Span.roundUp_add_of_dvd (dvd_due_after (found.take place) timer whole) _

/-! ## Runs of one kind -/

/-- Halving once and then often, each time down to the shortest, is halving once more often. -/
theorem max_halved (shortest current count : Nat) :
    max shortest (max (current / 2) shortest / Nat.pow 2 count) =
      max shortest (current / Nat.pow 2 (count + 1)) := by
  have hdiv : current / Nat.pow 2 (count + 1) = current / 2 / Nat.pow 2 count := by
    rw [Nat.div_div_eq_div_mul, Nat.mul_comm]
    rfl
  have hcut : shortest / Nat.pow 2 count ≤ shortest := Nat.div_le_self ..
  rw [hdiv]
  rcases Nat.le_total (current / 2) shortest with h | h
  · have hless : current / 2 / Nat.pow 2 count ≤ shortest / Nat.pow 2 count :=
      Nat.div_le_div_right h
    rw [Nat.max_eq_right h, Nat.max_eq_left hcut, Nat.max_eq_left (Nat.le_trans hless hcut)]
  · rw [Nat.max_eq_left h]

/-- Doubling once and then often, each time up to the longest, is doubling once more often. -/
theorem min_doubled (longest current count : Nat) :
    min longest (Nat.pow 2 count * min (current * 2) longest) =
      min longest (Nat.pow 2 (count + 1) * current) := by
  have hmul : Nat.pow 2 (count + 1) * current = Nat.pow 2 count * (current * 2) := by
    show Nat.pow 2 count * 2 * current = _
    rw [Nat.mul_assoc, Nat.mul_comm 2]
  have hraise : ∀ span, span ≤ Nat.pow 2 count * span :=
    fun span => Nat.le_mul_of_pos_left span (Nat.pow_pos Nat.two_pos)
  rw [hmul]
  rcases Nat.le_total (current * 2) longest with h | h
  · rw [Nat.min_eq_left h]
  · rw [Nat.min_eq_right h, Nat.min_eq_left (hraise longest),
      Nat.min_eq_left (Nat.le_trans h (hraise (current * 2)))]

/-- Sweeps that all speed up divide the interval, down to the shortest. -/
theorem interval_of_speedsUp (burst : List (Nat × Nat))
    (speedsUp : ∀ sweep ∈ burst, pace.SpeedsUp sweep.1 sweep.2) :
    ∀ timer : SweepTimer, pace.shortest ≤ timer.interval →
      (timer.after pace burst).interval =
        max pace.shortest (timer.interval / Nat.pow 2 burst.length) := by
  induction burst with
  | nil =>
    intro timer shortest
    show timer.interval = max pace.shortest (timer.interval / 1)
    rw [Nat.div_one, Nat.max_eq_right shortest]
  | cons sweep rest ih =>
    intro timer _
    have hnext : (timer.next pace sweep.2 sweep.1).interval =
        max (timer.interval / 2) pace.shortest :=
      Pace.next_of_speedsUp (speedsUp sweep List.mem_cons_self)
    have hrest := ih (fun sweep hmem => speedsUp sweep (List.mem_cons_of_mem _ hmem))
      (timer.next pace sweep.2 sweep.1) (hnext ▸ Nat.le_max_right ..)
    rw [hnext, max_halved] at hrest
    exact hrest

/-- Sweeps that all find nothing expired multiply it, up to the longest. -/
theorem interval_of_idle (above : 0 ≤ pace.speedUpAbove) (below : 0 < pace.slowDownBelow)
    (quiet : List (Nat × Nat)) (idle : ∀ sweep ∈ quiet, Pace.Idle sweep.1 sweep.2) :
    ∀ timer : SweepTimer, timer.interval ≤ pace.longest →
      (timer.after pace quiet).interval =
        min pace.longest (Nat.pow 2 quiet.length * timer.interval) := by
  induction quiet with
  | nil =>
    intro timer longest
    show timer.interval = min pace.longest (1 * timer.interval)
    rw [Nat.one_mul, Nat.min_eq_right longest]
  | cons sweep rest ih =>
    intro timer _
    have hnext : (timer.next pace sweep.2 sweep.1).interval =
        min (timer.interval * 2) pace.longest :=
      Pace.next_of_idle above below (idle sweep List.mem_cons_self)
    have hrest := ih (fun sweep hmem => idle sweep (List.mem_cons_of_mem _ hmem))
      (timer.next pace sweep.2 sweep.1) (hnext ▸ Nat.min_le_right ..)
    rw [hnext, min_doubled] at hrest
    exact hrest

end SweepTimer

/-- The timer of a sweeper is the one after what its sweeps have found, whatever the set is. -/
theorem Sweeper.timer_catchUp (w : Sweeper) (s : ExpiringSet) (horizon : Nat) :
    (w.catchUp s horizon).1.pace = w.pace ∧
      ∃ found, (w.catchUp s horizon).1.timer = w.timer.after w.pace found := by
  induction w, s using catchUp.induct horizon with
  | case1 w s hdue =>
    rw [catchUp_of_ahead hdue]
    exact ⟨rfl, [], rfl⟩
  | case2 w s hdue fired hlater ih =>
    obtain ⟨hpace, found, htimer⟩ := ih
    rw [catchUp_of_due hdue hlater]
    exact ⟨hpace, (s.size, (s.sweep w.timer.due).1) :: found, htimer⟩
  | case3 w s hdue fired hstuck =>
    rw [catchUp_of_stuck hdue hstuck]
    exact ⟨rfl, [(s.size, (s.sweep w.timer.due).1)], rfl⟩

/-- **The interval follows the pace within its bounds.** Let the bounds leave room for the first
interval, and let twice the longest one be a span of the clock, whatever the thresholds are, numbers
or not. Whatever a sweeper's sweeps find, its interval lies within the bounds, and half and twice of
it are computed from its seconds and nanoseconds without loss and within 64 bits. From one sweep to
the next the interval goes by, rounded up to whole milliseconds. After sweeps in a row that speed
up, the interval is divided by two as many times at once, and no shorter than the shortest; after
sweeps in a row that find keys and none expired, it is doubled as many times at once, and no longer
than the longest. -/
theorem SweepTimer.intervals_of_pace {pace : Pace} (lower : pace.shortest ≤ pace.base)
    (upper : pace.base ≤ pace.longest) (computable : 2 * pace.longest ≤ Span.longest) (now : Nat)
    (found : List (Nat × Nat)) :
    let start := SweepTimer.first pace now
    let interval (found : List (Nat × Nat)) := (start.after pace found).interval
    (pace.shortest ≤ interval found ∧ interval found ≤ pace.longest ∧
        Span.halved (interval found) =
          (Span.seconds (interval found / 2), Span.subsecond (interval found / 2)) ∧
        Span.doubled (interval found) =
          (Span.seconds (interval found * 2), Span.subsecond (interval found * 2)) ∧
        (Span.doubled (interval found)).1 < UInt64.size) ∧
      (∀ w : Sweeper, w.pace = pace → w.timer = start.after pace found → ∀ s horizon,
        ∃ more, (w.catchUp s horizon).1.timer = start.after pace (found ++ more)) ∧
      (∀ place time later, (start.sweepTimes pace found)[place]? = some time →
        (start.sweepTimes pace found)[place + 1]? = some later →
          later = time +
              Span.roundUp Span.millisecond (interval (found.take (place + 1))) ∧
            time + pace.shortest ≤ later ∧
            time + Span.roundUp Span.millisecond pace.shortest ≤ later ∧
            later ≤ time + Span.roundUp Span.millisecond pace.longest) ∧
      (∀ burst : List (Nat × Nat), (∀ sweep ∈ burst, pace.SpeedsUp sweep.1 sweep.2) →
        interval (found ++ burst) =
          max pace.shortest (interval found / Nat.pow 2 burst.length)) ∧
      (0 ≤ pace.speedUpAbove → 0 < pace.slowDownBelow → ∀ quiet : List (Nat × Nat),
        (∀ sweep ∈ quiet, Pace.Idle sweep.1 sweep.2) →
          interval (found ++ quiet) =
            min pace.longest (Nat.pow 2 quiet.length * interval found)) := by
  intro start interval
  have hwithin : ∀ found, pace.shortest ≤ interval found ∧ interval found ≤ pace.longest :=
    fun found => SweepTimer.after_within found start lower upper
  obtain ⟨hshortest, hlongest⟩ := hwithin found
  refine ⟨⟨hshortest, hlongest, Span.halved_eq _, Span.doubled_eq _, ?_⟩, ?_, ?_, ?_, ?_⟩
  · rw [Span.doubled_eq]
    exact Span.seconds_lt (by omega)
  · rintro w rfl htimer s horizon
    obtain ⟨_, more, hmore⟩ := w.timer_catchUp s horizon
    exact ⟨more, by rw [hmore, htimer, SweepTimer.after_append]⟩
  · intro place time later hthis hnext
    have hlater : later = time +
        Span.roundUp Span.millisecond (interval (found.take (place + 1))) :=
      SweepTimer.sweepTimes_succ start (Span.dvd_roundUp ..) hthis hnext
    obtain ⟨hshort, hlong⟩ := hwithin (found.take (place + 1))
    have hrounded := Span.le_roundUp Span.millisecond_pos pace.shortest
    have hleast := Span.roundUp_le_roundUp Span.millisecond hshort
    have hmost := Span.roundUp_le_roundUp Span.millisecond hlong
    exact ⟨hlater, by omega, by omega, by omega⟩
  · intro burst hburst
    show (start.after pace (found ++ burst)).interval = _
    rw [SweepTimer.after_append, SweepTimer.interval_of_speedsUp burst hburst _ hshortest]
  · intro above below quiet hquiet
    show (start.after pace (found ++ quiet)).interval = _
    rw [SweepTimer.after_append, SweepTimer.interval_of_idle above below quiet hquiet _ hlongest]

/-- From 45 milliseconds and a nanosecond: the first sweep comes after 46 milliseconds, finds half
of the keys expired and has the next one come after 23 more. Two such sweeps leave a quarter of the
interval, and five that find nothing expired leave the longest. -/
theorem SweepTimer.intervals_of_pace_truncated :
    let pace : Pace := { base := 45 * Span.millisecond + 1 }
    let start := SweepTimer.first pace 0
    let burst := [(100, 50), (40, 40)]
    let quiet := List.replicate 5 (3, 0)
    pace.shortest ≤ pace.base ∧ pace.base ≤ pace.longest ∧ 2 * pace.longest ≤ Span.longest ∧
      start.sweepTimes pace burst = [46 * Span.millisecond, 69 * Span.millisecond] ∧
      69 * Span.millisecond = 46 * Span.millisecond +
        Span.roundUp Span.millisecond (start.after pace (burst.take 1)).interval ∧
      (start.after pace burst).interval = 11250 * Span.microsecond ∧
      (start.after pace quiet).interval = Span.second := by
  intro pace start burst quiet
  have hlower : pace.shortest ≤ pace.base := by decide
  have hupper : pace.base ≤ pace.longest := by decide
  have hcomputable : 2 * pace.longest ≤ Span.longest := by decide
  have hburst : ∀ sweep ∈ burst, pace.SpeedsUp sweep.1 sweep.2 :=
    List.forall_mem_cons.mpr ⟨⟨by decide, by decide +kernel⟩,
      List.forall_mem_singleton.mpr ⟨by decide, by decide +kernel⟩⟩
  have hquiet : ∀ sweep ∈ quiet, Pace.Idle sweep.1 sweep.2 := by
    intro sweep hsweep
    rw [List.eq_of_mem_replicate hsweep]
    exact ⟨by decide, rfl⟩
  have hlaw := intervals_of_pace hlower hupper hcomputable 0
  have htimes : start.sweepTimes pace burst = [46 * Span.millisecond, 69 * Span.millisecond] := by
    decide +kernel
  refine ⟨hlower, hupper, hcomputable, htimes, ?_, ?_, ?_⟩
  · exact ((hlaw burst).2.2.1 0 _ _ (by rw [htimes]; rfl) (by rw [htimes]; rfl)).1
  · exact ((hlaw []).2.2.2.1 burst hburst).trans (by decide)
  · exact ((hlaw []).2.2.2.2 (by decide +kernel) (by decide +kernel) quiet hquiet).trans (by decide)

end TieredStore
