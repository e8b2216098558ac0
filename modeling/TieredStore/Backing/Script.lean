import TieredStore.Backing.Opener

/-!
# Opening by a script

A world in which the outcome of every call that opens a store is laid down beforehand: each entry
of the script is a failure or leave to open, and past its end everything opens. Openers and retries
run in it as they would run outside.
-/

namespace TieredStore

/-- The outcomes still to come and the requests made so far. -/
structure OpeningScript (ρ : Type) where
  /-- For each call to come, the failure it ends in, if any. -/
  pending : List (Option Failure)
  /-- What the calls so far asked for, the first one first. -/
  requests : List ρ := []

namespace OpeningScript

variable {ρ σ : Type}

/-- Makes a call: it is recorded, and ends as the script says. What opens may depend on the number
of the call, the first being number one. -/
def call (opened : Nat → σ) (request : ρ) (script : OpeningScript ρ) :
    Except Failure σ × OpeningScript ρ :=
  let after : OpeningScript ρ := ⟨script.pending.drop 1, script.requests ++ [request]⟩
  match script.pending.head?.join with
  | some failure => (.error failure, after)
  | none => (.ok (opened after.requests.length), after)

/-- A builder that hands out one prepared store, as the script says. -/
def builder (prepared : σ) : StoreBuilder (OpeningScript OpenRequest) σ :=
  fun request script => script.call (fun _ => prepared) request

end OpeningScript

end TieredStore
