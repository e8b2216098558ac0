import TieredStore.Failure

/-!
# What every backing store can do

A backing store keeps pairs of keys and values for good. `BackingStore` lists the operations that
the tiers ask of one. Each takes the store before the call and gives the answer with the store
after it, also where the answer is a failure.

A walk over the pairs sees them as they were when it began: `snapshot` takes them all, and
`visitWhile` hands them out one by one, so a visitor may change the store it walks over.
-/

namespace TieredStore

/-- The operations of a backing store of type `σ`. -/
class BackingStore (σ : Type) where
  put : σ → Bytes → Bytes → Except Failure Unit × σ
  get : σ → Bytes → Except Failure Bytes × σ
  /-- Succeeds if something is stored under a key. -/
  has : σ → Bytes → Except Failure Unit × σ
  remove : σ → Bytes → Except Failure Unit × σ
  /-- All pairs, each key once. -/
  snapshot : σ → List (Bytes × Bytes) × σ
  /-- Ends the use of the store; its pairs stay. -/
  close : σ → Except Failure Unit × σ
  /-- Ends the use of the store and drops its pairs. -/
  destroy : σ → Except Failure Unit × σ

/-- Hands the members of a list to a visitor, which carries a state along, until it answers
`false`. -/
def visitWhile {α τ : Type} (visit : α → τ → Bool × τ) : List α → τ → τ
  | [], state => state
  | a :: rest, state =>
    match visit a state with
    | (true, state) => visitWhile visit rest state
    | (false, state) => state

end TieredStore
