import TieredStore.Span

/-!
# A clock that moves when told to

The clock stands at an offset from its start. Moving it and reading it both have a limit: the
offset must be a span that a clock can hold, and the instant read must fit into 63 bits of
seconds.
-/

namespace TieredStore

/-- What a clock cannot do. -/
inductive ClockFault
  /-- The offset would become longer than the longest span. -/
  | offsetOverflow
  /-- The instant is past the last one. -/
  | instantOverflow
  deriving DecidableEq, Repr

/-- The wording of a clock fault. -/
def ClockFault.message : ClockFault → String
  | offsetOverflow => "overflow when adding durations"
  | instantOverflow => "overflow when adding duration to instant"

/-- A clock that stands still until it is moved. -/
structure SteppedClock where
  /-- How far the clock has been moved. -/
  offset : Nat := 0
  deriving DecidableEq, Repr

namespace SteppedClock

/-- From this offset on, the clock has no instant to show. -/
def instantLimit : Nat := UInt64.size / 2 * Span.second

/-- Moves the clock forward. -/
def advance (clock : SteppedClock) (span : Nat) : Except ClockFault SteppedClock :=
  if Span.longest < clock.offset + span then .error .offsetOverflow
  else .ok ⟨clock.offset + span⟩

/-- The instant that the clock shows. -/
def read (clock : SteppedClock) : Except ClockFault Nat :=
  if instantLimit ≤ clock.offset then .error .instantOverflow else .ok clock.offset

end SteppedClock

end TieredStore
