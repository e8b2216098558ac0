/-!
# Counters of 64 bits

A counter is added to and taken from. An addition that leaves the 64 bits goes on from what is left
of the sum; where arithmetic is checked, the program would end there. The counter remembers it, so
that one value tells both. Taking off stops at zero.
-/

namespace TieredStore

/-- A counter of 64 bits. -/
@[ext]
structure Counter where
  value : UInt64 := 0
  /-- Whether an addition has left the 64 bits. -/
  wrapped : Bool := false
  deriving DecidableEq, Repr

namespace Counter

/-- The number that the counter shows. -/
def read (c : Counter) : Nat := c.value.toNat

/-- Adds a number. -/
def add (c : Counter) (n : Nat) : Counter :=
  ⟨c.value + .ofNat n, c.wrapped || decide (UInt64.size ≤ c.read + n)⟩

/-- Takes a number off, down to zero. -/
def sub (c : Counter) (n : Nat) : Counter :=
  { c with value := .ofNat (c.read - n) }

/-- Adds what another counter shows. -/
def plus (c d : Counter) : Counter :=
  { c.add d.read with wrapped := (c.add d.read).wrapped || d.wrapped }

end Counter

end TieredStore
