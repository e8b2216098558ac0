import TieredStore.Span

/-!
# How often to sweep

The interval between two sweeps follows what the last one found. Where a large share of the keys
had expired it is halved, where none had it is doubled, within bounds; where nothing was tracked
it stays.

A timer goes off at the whole millisecond on or after its time.
-/

namespace TieredStore

/-- The bounds of the sweep interval and the shares of expired keys that change it. -/
structure Pace where
  base : Nat := 100 * Span.millisecond
  /-- The shortest interval to halve down to. -/
  shortest : Nat := 10 * Span.millisecond
  /-- The longest interval to double up to. -/
  longest : Nat := Span.second
  /-- A share above this one halves the interval. -/
  speedUpAbove : Float := 0.25
  /-- A share below this one, if nothing expired, doubles it. -/
  slowDownBelow : Float := 0.01

namespace Pace

/-- The share of the tracked keys that had expired. -/
def expiredShare (expired tracked : Nat) : Float :=
  Float.ofNat expired / Float.ofNat tracked

/-- The interval after a sweep that dropped `expired` of `tracked` keys. -/
def next (pace : Pace) (current : Nat) (expired tracked : Nat) : Nat :=
  if tracked = 0 then current
  else if expiredShare expired tracked > pace.speedUpAbove then max (current / 2) pace.shortest
  else if expired = 0 ∧ expiredShare expired tracked < pace.slowDownBelow then
    min (current * 2) pace.longest
  else current

end Pace

/-- A timer for the next sweep. -/
structure SweepTimer where
  /-- The interval that led up to it. -/
  interval : Nat
  due : Nat
  deriving DecidableEq, Repr

namespace SweepTimer

/-- A timer set at an instant. -/
def set (now : Nat) (interval : Nat) : SweepTimer :=
  ⟨interval, Span.roundUp Span.millisecond (now + interval)⟩

/-- The timer before the first sweep. -/
def first (pace : Pace) (now : Nat) : SweepTimer :=
  set now pace.base

/-- The timer set by a sweep at its time that dropped `expired` of `tracked` keys. -/
def next (timer : SweepTimer) (pace : Pace) (expired tracked : Nat) : SweepTimer :=
  set timer.due (pace.next timer.interval expired tracked)

/-- When the sweeps take place that find the given numbers of tracked and expired keys, the first
timer being the given one. -/
def sweepTimes (pace : Pace) : SweepTimer → List (Nat × Nat) → List Nat
  | _, [] => []
  | timer, (tracked, expired) :: rest =>
    timer.due :: sweepTimes pace (timer.next pace expired tracked) rest

end SweepTimer

end TieredStore
