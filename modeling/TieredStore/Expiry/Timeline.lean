import TieredStore.Expiry.ExpiringSet
import TieredStore.Expiry.Pace

/-!
# Sweeping in the background

A sweeper goes with an expiring set: whenever its timer is due it sweeps the set and sets the
timer anew, at the pace that the sweep suggests. `Sweeper.catchUp` carries out all sweeps that are
due until an instant, at their own instants.

A timeline is a set with the present instant and perhaps a sweeper. Time moves only by sleeping,
and always from one whole millisecond to another. Where a sweep is due at the very instant at which
the client wakes, either may go first: a `Precedence` says which, wake by wake.
-/

namespace TieredStore

/-- A pace and the timer of the next sweep. -/
structure Sweeper where
  /-- How the intervals follow what the sweeps find. -/
  pace : Pace
  timer : SweepTimer

namespace Sweeper

/-- A sweeper that starts now. -/
def start (pace : Pace) (now : Nat) : Sweeper :=
  ⟨pace, .first pace now⟩

/-- One sweep at its time: the keys tracked are counted, the expired ones dropped, the timer set. -/
def fire (w : Sweeper) (seen : ExpiringSet) : Sweeper × ExpiringSet :=
  let (expired, swept) := seen.sweep w.timer.due
  ({ w with timer := w.timer.next w.pace expired seen.size }, swept)

/-- All sweeps due until an instant. A sweep that sets the timer to no later time is the last:
from there on no time would pass. -/
def catchUp (w : Sweeper) (seen : ExpiringSet) (horizon : Nat) : Sweeper × ExpiringSet :=
  if horizon < w.timer.due then (w, seen)
  else
    let fired := w.fire seen
    if w.timer.due < fired.1.timer.due then fired.1.catchUp fired.2 horizon else fired
termination_by horizon + 1 - w.timer.due
decreasing_by
  rename_i notDue later
  have : w.timer.due < (w.fire seen).1.timer.due := later
  omega

end Sweeper

/-- Who goes first where a sweep is due at the instant at which a client goes on. -/
inductive Precedence
  | sweeper
  | client
  deriving DecidableEq, Repr

/-- All sweeps that come before a client at an instant. -/
def Sweeper.goBefore (w : Sweeper) (seen : ExpiringSet) :
    Precedence → Nat → Sweeper × ExpiringSet
  | .sweeper, instant => w.catchUp seen instant
  | .client, 0 => (w, seen)
  | .client, instant + 1 => w.catchUp seen instant

/-- An expiring set in the course of time. -/
structure Timeline where
  now : Nat := 0
  seen : ExpiringSet
  sweeper : Option Sweeper := none

namespace Timeline

/-- Carries out an operation now. -/
def perform (t : Timeline) (operation : ExpiringSet.Operation) : ExpiringSet.Answer × Timeline :=
  (t.seen.perform t.now operation).map id ({ t with seen := · })

/-- Starts a sweeper now. -/
def start (t : Timeline) (pace : Pace) : Timeline :=
  { t with sweeper := some (.start pace t.now) }

/-- Stops the sweeper, if one is running. -/
def stop (t : Timeline) : Timeline :=
  { t with sweeper := none }

/-- Moves on to an instant, sweeping on the way whenever a sweep is due. -/
def moveTo (t : Timeline) (instant : Nat) (first : Precedence := .sweeper) : Timeline :=
  match t.sweeper with
  | none => { t with now := instant }
  | some sweeper =>
    let (sweeper, seen) := sweeper.goBefore t.seen first instant
    { now := instant, seen, sweeper }

/-- Lets a span go by. A sleep ends as a timer does, at the whole millisecond on or after its
time. -/
def sleep (t : Timeline) (span : Nat) (first : Precedence := .sweeper) : Timeline :=
  t.moveTo (Span.roundUp Span.millisecond (t.now + span)) first

end Timeline

end TieredStore
