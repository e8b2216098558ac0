import TieredStore.Bytes

/-!
# Evictions until the bounds hold

A write that breaks a bound is followed by evictions. Two things can end a loop of them: the bounds
hold again, or nothing is left to evict. `Evictions` is a run that ends for the first reason; it has
no other end, and no limit on its steps.

**The law** (`exists_evictions`): there is such a run from every state that keeps an invariant, if a
state that keeps it and breaks a bound can evict, keeps the invariant and gets smaller. A loop that
is allowed as many steps as the state is large then takes the steps of that run.
-/

namespace TieredStore

variable {σ : Type}

/-- Evictions from one state to another, so many, each of a state that breaks a bound. The last
state breaks none. -/
inductive Evictions (exceeds : σ → Bool) (evicts : σ → σ → Prop) : σ → Nat → σ → Prop
  | done {s : σ} (within : exceeds s = false) : Evictions exceeds evicts s 0 s
  | next {s t u : σ} {n : Nat} (beyond : exceeds s = true) (evicted : evicts s t)
      (rest : Evictions exceeds evicts t n u) : Evictions exceeds evicts s (n + 1) u

variable {exceeds : σ → Bool} {evicts : σ → σ → Prop}

/-- A loop whose every step makes a number smaller ends, and after no more steps than the number
said at the start. -/
theorem exists_evictions {I : σ → Prop} (size : σ → Nat)
    (step : ∀ s, I s → exceeds s = true → ∃ t, evicts s t ∧ I t ∧ size t < size s) {s : σ}
    (h : I s) : ∃ n t, Evictions exceeds evicts s n t ∧ n ≤ size s := by
  induction hsize : size s using Nat.strongRecOn generalizing s with
  | _ m ih =>
    subst hsize
    cases hs : exceeds s with
    | false => exact ⟨0, s, .done hs, Nat.zero_le _⟩
    | true =>
      obtain ⟨t, hevicts, ht, hsmaller⟩ := step s h hs
      obtain ⟨n, u, hrest, hn⟩ := ih (size t) hsmaller ht rfl
      exact ⟨n + 1, u, .next hs hevicts hrest, Nat.lt_of_le_of_lt hn hsmaller⟩

end TieredStore
