import Std.Data.TreeMap
import TieredStore.Expiry.SteppedClock
import TieredStore.Failure

/-!
# Keys remembered for a while

An expiring set remembers each key with the instant at which it was last seen and the span for
which it counts from then on. A key is *live* while less than its span has gone by. Expired keys
are dropped when they are asked for, or all at once by a sweep; until then they are tracked but
never reported as members.

Every operation takes the present instant; `Operation.readsClock` tells those that look at it.
-/

namespace TieredStore

/-- When a key was seen, and for how long that counts. -/
structure Sighting where
  seenAt : Nat
  /-- How long it counts. -/
  lifetime : Nat
  deriving DecidableEq, Repr

/-- Whether a sighting no longer counts. An instant before the sighting is taken as its own. -/
def Sighting.isExpired (sighting : Sighting) (now : Nat) : Bool :=
  sighting.lifetime ≤ now - sighting.seenAt

/-- Keys with their last sightings. -/
structure ExpiringSet where
  /-- How long a key counts unless something else is said. -/
  defaultLifetime : Nat
  /-- The last sighting of each key tracked. -/
  sightings : Std.TreeMap String Sighting := ∅

namespace ExpiringSet

/-- The set that tracks no key. -/
def empty (defaultLifetime : Nat) : ExpiringSet := { defaultLifetime }

/-- Remembers a key from now on, for a given span; a sighting before is forgotten. The empty text
is no key. -/
def remember (s : ExpiringSet) (now : Nat) (key : String) (lifetime : Nat) :
    Except Failure ExpiringSet :=
  if key = "" then .error .emptyKey
  else .ok { s with sightings := s.sightings.insert key ⟨now, lifetime⟩ }

/-- Remembers a key from now on, for the default span. -/
def add (s : ExpiringSet) (now : Nat) (key : String) : Except Failure ExpiringSet :=
  s.remember now key s.defaultLifetime

/-- Whether a key is live. An expired one is dropped; a live one is not renewed. -/
def has (s : ExpiringSet) (now : Nat) (key : String) : Bool × ExpiringSet :=
  match s.sightings[key]? with
  | none => (false, s)
  | some sighting =>
    if sighting.isExpired now then (false, { s with sightings := s.sightings.erase key })
    else (true, s)

/-- Drops every expired key and tells how many there were. -/
def sweep (s : ExpiringSet) (now : Nat) : Nat × ExpiringSet :=
  let live := s.sightings.filter fun _ sighting => !sighting.isExpired now
  (s.sightings.size - live.size, { s with sightings := live })

/-- Forgets every key. -/
def clear (s : ExpiringSet) : ExpiringSet :=
  .empty s.defaultLifetime

/-- How many keys are tracked, expired ones among them. -/
def size (s : ExpiringSet) : Nat :=
  s.sightings.size

/-- Whether no key is tracked. -/
def isEmpty (s : ExpiringSet) : Bool :=
  s.size == 0

/-- The set in one line. -/
def describe (s : ExpiringSet) : String :=
  "TimeCache \x7b entries: " ++ toString s.size ++
    ", default_span: " ++ Span.render s.defaultLifetime ++ " \x7d"

/-- What can be asked of an expiring set. -/
inductive Operation
  /-- Remember a key for the default span. -/
  | add (key : String)
  /-- Remember a key for a given span. -/
  | remember (key : String) (lifetime : Nat)
  | has (key : String)
  | sweep
  | clear
  deriving DecidableEq, Repr

/-- What is answered. -/
inductive Answer
  | done
  | refused (failure : Failure)
  | member (live : Bool)
  | dropped (count : Nat)
  deriving DecidableEq, Repr

/-- Whether an operation looks at the clock. One that refuses its key does not come so far. -/
def Operation.readsClock : Operation → Bool
  | add key => key ≠ ""
  | remember key _ => key ≠ ""
  | has _ | sweep => true
  | clear => false

/-- The answer that goes with the outcome of remembering, and the set after it. -/
def settle (s : ExpiringSet) : Except Failure ExpiringSet → Answer × ExpiringSet
  | .ok s => (.done, s)
  | .error failure => (.refused failure, s)

/-- Carries out an operation at an instant. -/
def perform (s : ExpiringSet) (now : Nat) : Operation → Answer × ExpiringSet
  | .add key => s.settle (s.add now key)
  | .remember key lifetime => s.settle (s.remember now key lifetime)
  | .has key => (s.has now key).map .member id
  | .sweep => (s.sweep now).map .dropped id
  | .clear => (.done, s.clear)

end ExpiringSet

/-- An expiring set and the clock that it goes by. -/
structure ClockedSet where
  clock : SteppedClock := {}
  set : ExpiringSet

namespace ClockedSet

/-- Moves the clock forward. -/
def advance (c : ClockedSet) (span : Nat) : Except ClockFault ClockedSet := do
  .ok { c with clock := ← c.clock.advance span }

/-- Carries out an operation at the instant that the clock shows; the clock is read only by an
operation that looks at it. -/
def perform (c : ClockedSet) (operation : ExpiringSet.Operation) :
    Except ClockFault (ExpiringSet.Answer × ClockedSet) := do
  let now ← if operation.readsClock then c.clock.read else .ok 0
  .ok ((c.set.perform now operation).map id ({ c with set := · }))

end ClockedSet

end TieredStore
