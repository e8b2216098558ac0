import TieredStore.ByteCount
import TieredStore.Counter

/-!
# The ledger of cache capacities

Every cache built from settings enters its configured byte budget here. The ledger only adds up, in
64 bits.
-/

namespace TieredStore

/-- The byte budgets of all caches built so far. -/
structure CapacityLedger where
  counter : Counter := {}
  deriving DecidableEq, Repr

namespace CapacityLedger

/-- The ledger with one more cache entered. -/
def enter (ledger : CapacityLedger) (byteBudget : Nat) : CapacityLedger :=
  ⟨ledger.counter.add byteBudget⟩

/-- The sum of the byte budgets, as far as 64 bits tell it. -/
def total (ledger : CapacityLedger) : Nat := ledger.counter.read

/-- The total as a count of bytes. -/
def render (ledger : CapacityLedger) : String :=
  ByteCount.render ledger.total

end CapacityLedger

end TieredStore
