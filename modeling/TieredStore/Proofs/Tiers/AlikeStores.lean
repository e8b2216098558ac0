import TieredStore.Proofs.Tiers.Matched

/-!
# Tiers over stores that answer alike

What tiers answer depends on their store through its answers only. So where two stores give equal
answers to every call and stay related, tiers with equal caches over them do too
(`Tiers.simulates_over`), and what a client sees over the one store it sees over the other.
-/

namespace TieredStore.Tiers

variable {κ σ ρ : Type} [CacheEngine κ] [BackingStore σ] [BackingStore ρ]

/-- Tiers with the same cache over related stores. -/
inductive Over (R : σ → ρ → Prop) : Tiers κ σ → Tiers κ ρ → Prop
  | intro (cache : κ) (destroyed : Bool) {s : σ} {r : ρ} (store : R s r) :
    Over R ⟨cache, s, destroyed⟩ ⟨cache, r, destroyed⟩

variable {R : σ → ρ → Prop}

omit [CacheEngine κ] [BackingStore σ] [BackingStore ρ] in
/-- These are matched tiers whose caches are equal. -/
theorem over_eq_matched : (Over R : Tiers κ σ → Tiers κ ρ → Prop) = Matched Eq R := by
  funext t u
  refine propext ⟨?_, ?_⟩
  · rintro ⟨cache, destroyed, hstore⟩
    exact .intro destroyed rfl hstore
  · rintro ⟨destroyed, rfl, hstore⟩
    exact .intro _ destroyed hstore

/-- Tiers over stores that answer alike answer alike. -/
theorem simulates_over (simulates : BackingStore.Simulates R) :
    Storer.Simulates (Over R : Tiers κ σ → Tiers κ ρ → Prop) := by
  rw [over_eq_matched]
  exact simulates_matched CacheEngine.simulates_eq simulates

end TieredStore.Tiers
