import TieredStore.Failure
import TieredStore.Span

/-!
# Opening with patience

Opening a store can fail for a passing reason, so it is tried again after a pause, a bounded
number of times. A failure that lies in the settings is final at once. `Patience.tryOpen` gives,
with the outcome, everything that was done on the way: each attempt with its path and each pause
with its length.
-/

namespace TieredStore

/-- How often to try, and how long to wait in between. -/
structure Patience where
  /-- The number of attempts; zero counts as one. -/
  attempts : Nat := 10
  pause : Nat := 5 * Span.second
  deriving DecidableEq, Repr

/-- What happens while a store is being opened. -/
inductive OpeningEvent
  /-- An attempt to open the store at a path. -/
  | attempt (path : String)
  | pause (length : Nat)
  deriving DecidableEq, Repr

/-- How the opening of something of type `α` ended. -/
structure Opened (ω α : Type) where
  outcome : Except Failure α
  /-- What happened, the first event first. -/
  events : List OpeningEvent
  world : ω

namespace Patience

variable {ω α : Type}

/-- Makes an attempt and, should it fail for a passing reason, pauses and makes at most `more`
further ones. -/
def attemptWith (pause : Nat) (path : String) (create : String → ω → Except Failure α × ω) :
    Nat → ω → Opened ω α
  | 0, world =>
    let (outcome, world) := create path world
    ⟨outcome, [.attempt path], world⟩
  | more + 1, world =>
    match create path world with
    | (.ok store, world) => ⟨.ok store, [.attempt path], world⟩
    | (.error failure, world) =>
      if failure.isConfiguration then ⟨.error failure, [.attempt path], world⟩
      else
        let later := attemptWith pause path create more world
        { later with events := .attempt path :: .pause pause :: later.events }

/-- Tries to open something at a path for as long as there is patience. -/
def tryOpen (patience : Patience) (path : String) (create : String → ω → Except Failure α × ω)
    (world : ω) : Opened ω α :=
  attemptWith patience.pause path create (patience.attempts - 1) world

end Patience

end TieredStore
