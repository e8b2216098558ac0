import TieredStore.Expiry.Pace

/-!
# How far apart sweeps are

A pace keeps its interval between the shortest and the longest (`Pace.next_within`), whatever shares
of expired keys change it: each of the changes is cut off at one bound and goes away from the other.
A timer then goes off no sooner than its interval and no later than the interval rounded up to a
whole millisecond; where it was set at a whole millisecond, after just that
(`Span.roundUp_add_of_dvd`).
-/

namespace TieredStore

namespace Span

variable {unit span : Nat}

/-- What is rounded up is a whole number of units. -/
theorem dvd_roundUp (unit span : Nat) : unit ∣ roundUp unit span :=
  ⟨(span + (unit - 1)) / unit, Nat.mul_comm ..⟩

/-- Rounding up makes no span shorter. -/
theorem le_roundUp (positive : 0 < unit) (span : Nat) : span ≤ roundUp unit span := by
  have hdiv := Nat.div_add_mod (span + (unit - 1)) unit
  have hmod := Nat.mod_lt (span + (unit - 1)) positive
  unfold roundUp
  rw [Nat.mul_comm]
  omega

/-- Rounding up keeps the order of spans. -/
theorem roundUp_le_roundUp (unit : Nat) {a b : Nat} (h : a ≤ b) :
    roundUp unit a ≤ roundUp unit b := by
  unfold roundUp
  apply Nat.mul_le_mul_right
  apply Nat.div_le_div_right
  omega

/-- From a whole number of units on, only the span is rounded. -/
theorem roundUp_add_of_dvd {start : Nat} (whole : unit ∣ start) (span : Nat) :
    roundUp unit (start + span) = start + roundUp unit span := by
  obtain ⟨count, rfl⟩ := whole
  rcases Nat.eq_zero_or_pos unit with rfl | positive
  · simp only [roundUp, Nat.mul_zero, Nat.zero_mul, Nat.add_zero]
  · unfold roundUp
    rw [Nat.add_assoc, Nat.mul_add_div positive, Nat.add_mul, Nat.mul_comm]

theorem millisecond_pos : 0 < millisecond := by decide

end Span

namespace Pace

/-- Bounds of the interval that leave room for the first one, and let time pass. -/
structure Sound (pace : Pace) : Prop where
  positive : 0 < pace.shortest
  lower : pace.shortest ≤ pace.base
  upper : pace.base ≤ pace.longest

/-- The interval stays within the bounds. -/
theorem next_within {pace : Pace} {current : Nat} (shortest : pace.shortest ≤ current)
    (longest : current ≤ pace.longest) (expired tracked : Nat) :
    pace.shortest ≤ pace.next current expired tracked ∧
      pace.next current expired tracked ≤ pace.longest := by
  unfold next
  split
  · exact ⟨shortest, longest⟩
  · split
    · omega
    · split
      · omega
      · exact ⟨shortest, longest⟩

end Pace

/-- Time passes until a timer goes off. -/
theorem SweepTimer.lt_due_set (now : Nat) {interval : Nat} (positive : 0 < interval) :
    now < (set now interval).due := by
  have hrounded := Span.le_roundUp Span.millisecond_pos (now + interval)
  unfold set
  dsimp only
  omega

end TieredStore
