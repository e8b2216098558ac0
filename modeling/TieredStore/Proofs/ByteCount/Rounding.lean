import Mathlib.Algebra.Order.Ring.Nat
import TieredStore.ByteCount

/-!
# Rounding to the nearest

What is used of a count that is rounded is not which way a tie goes but that rounding keeps the
order (`roundDiv_le_roundDiv`), leaves what needs no rounding as it is (`roundDiv_mul`), and errs
by half a unit at most (`two_mul_roundDiv_le`, `le_two_mul_roundDiv`).

A number cut to so many bits is rounded to multiples of a spacing that grows with it, so two numbers
may be rounded by different spacings. Between them then lies a power of two, which is a multiple of
both spacings: that is why the order is kept all the same (`roundToBits_le_roundToBits`).
-/

namespace TieredStore.ByteCount

variable {num den : Nat}

/-- The quotient stays as it is or goes up by one, each with the share that stands for it. -/
theorem roundDiv_cases (num den : Nat) :
    roundDiv num den = num / den ∧ 2 * (num % den) ≤ den ∨
      roundDiv num den = num / den + 1 ∧ den ≤ 2 * (num % den) := by
  unfold roundDiv
  grind

/-- The rounded quotient is too large by half of the divisor at most. -/
theorem two_mul_roundDiv_le (num den : Nat) : 2 * (roundDiv num den * den) ≤ 2 * num + den := by
  have hnum := Nat.div_add_mod' num den
  rcases roundDiv_cases num den with ⟨h, _⟩ | ⟨h, hrest⟩
  · rw [h]
    omega
  · rw [h, Nat.add_mul, Nat.one_mul]
    omega

/-- And too small by half of the divisor at most. -/
theorem le_two_mul_roundDiv (positive : 0 < den) (num : Nat) :
    2 * num ≤ 2 * (roundDiv num den * den) + den := by
  have hnum := Nat.div_add_mod' num den
  have hmod := Nat.mod_lt num positive
  rcases roundDiv_cases num den with ⟨h, hrest⟩ | ⟨h, _⟩
  · rw [h]
    omega
  · rw [h, Nat.add_mul, Nat.one_mul]
    omega

/-- A whole number of units is not rounded. -/
theorem roundDiv_mul (positive : 0 < den) (count : Nat) : roundDiv (count * den) den = count := by
  rw [roundDiv, Nat.mul_mod_left, Nat.mul_div_cancel _ positive]
  exact if_pos positive

/-- Rounding keeps the order. The remainders decide where the quotients are the same, and the even
rule can only help the larger one. -/
theorem roundDiv_le_roundDiv {a b : Nat} (h : a ≤ b) : roundDiv a den ≤ roundDiv b den := by
  rcases Nat.lt_or_eq_of_le (Nat.div_le_div_right (c := den) h) with hlt | heq
  · -- the lesser quotient reaches the greater one at most by going up
    rcases roundDiv_cases a den with ⟨ha, _⟩ | ⟨ha, _⟩ <;>
      rcases roundDiv_cases b den with ⟨hb, _⟩ | ⟨hb, _⟩ <;> omega
  · have ha := Nat.div_add_mod' a den
    have hb := Nat.div_add_mod' b den
    have hrest : a % den ≤ b % den := by
      rw [heq] at ha
      omega
    unfold roundDiv
    rw [heq]
    grind

/-- A bound that is a whole number of divisors is not rounded over. -/
theorem roundDiv_le (positive : 0 < den) {count : Nat} (h : num ≤ count * den) :
    roundDiv num den ≤ count :=
  roundDiv_mul positive count ▸ roundDiv_le_roundDiv h

theorem le_roundDiv (positive : 0 < den) {count : Nat} (h : count * den ≤ num) :
    count ≤ roundDiv num den :=
  roundDiv_mul positive count ▸ roundDiv_le_roundDiv h

/-! ## Numbers cut to so many bits -/

variable {bits value : Nat}

/-- The numbers as long as `value` that have so many bits lie so far apart. -/
def spacing (bits value : Nat) : Nat := 2 ^ (value.log2 + 1 - bits)

/-- Neighbouring doubles differ, so their distance is something to divide by. -/
theorem spacing_pos (bits value : Nat) : 0 < spacing bits value := Nat.two_pow_pos _

theorem roundToBits_eq (bits value : Nat) :
    roundToBits bits value = roundDiv value (spacing bits value) * spacing bits value := rfl

/-- Rounding to some bits is too large by half the distance of the doubles around at most. -/
theorem two_mul_roundToBits_le (bits value : Nat) :
    2 * roundToBits bits value ≤ 2 * value + spacing bits value :=
  two_mul_roundDiv_le value (spacing bits value)

/-- And too small by half of it at most. -/
theorem le_two_mul_roundToBits (bits value : Nat) :
    2 * value ≤ 2 * roundToBits bits value + spacing bits value :=
  le_two_mul_roundDiv (spacing_pos bits value) value

/-- A bound that is a double is not rounded over. -/
theorem roundToBits_le {bound : Nat} (whole : spacing bits value ∣ bound) (h : value ≤ bound) :
    roundToBits bits value ≤ bound := by
  obtain ⟨count, rfl⟩ := whole
  rw [roundToBits_eq, Nat.mul_comm _ count]
  rw [Nat.mul_comm _ count] at h
  exact Nat.mul_le_mul_right _ (roundDiv_le (spacing_pos bits value) h)

/-- Nor is one rounded under. -/
theorem le_roundToBits {bound : Nat} (whole : spacing bits value ∣ bound) (h : bound ≤ value) :
    bound ≤ roundToBits bits value := by
  obtain ⟨count, rfl⟩ := whole
  rw [roundToBits_eq, Nat.mul_comm _ count]
  rw [Nat.mul_comm _ count] at h
  exact Nat.mul_le_mul_right _ (le_roundDiv (spacing_pos bits value) h)

theorem roundToBits_zero (bits : Nat) : roundToBits bits 0 = 0 :=
  Nat.le_zero.mp (roundToBits_le (Nat.dvd_zero _) (Nat.le_refl 0))

/-- Numbers that have no more bits are left as they are. -/
theorem roundToBits_of_lt (h : value < 2 ^ bits) : roundToBits bits value = value := by
  rcases Nat.eq_zero_or_pos value with rfl | positive
  · exact roundToBits_zero bits
  · have hlog : value.log2 < bits := (Nat.log2_lt (Nat.ne_of_gt positive)).mpr h
    have hone : spacing bits value = 1 := by
      rw [spacing, Nat.sub_eq_zero_of_le hlog, Nat.pow_zero]
    have hwhole : spacing bits value ∣ value := hone ▸ Nat.one_dvd value
    exact Nat.le_antisymm (roundToBits_le hwhole (Nat.le_refl _))
      (le_roundToBits hwhole (Nat.le_refl _))

/-- Numbers that have `more` bits too many are rounded to multiples of no more than `2 ^ more`. -/
theorem spacing_le (some_bit : 0 < bits) {more : Nat} (h : value < 2 ^ (bits + more)) :
    spacing bits value ≤ 2 ^ more := by
  have hlog : value.log2 < bits + more := by
    rcases Nat.eq_zero_or_pos value with rfl | positive
    · exact Nat.lt_of_lt_of_le some_bit (Nat.le_add_right bits more)
    · exact (Nat.log2_lt (Nat.ne_of_gt positive)).mpr h
  exact Nat.pow_le_pow_right Nat.two_pos (by omega)

/-- A larger number has no fewer bits. -/
theorem log2_le_log2 {a b : Nat} (positive : 0 < a) (h : a ≤ b) : a.log2 ≤ b.log2 := by
  have hpower := Nat.le_trans (Nat.log2_self_le (Nat.ne_of_gt positive)) h
  exact (Nat.le_log2 (Nat.ne_of_gt (Nat.lt_of_lt_of_le positive h))).mpr hpower

/-- Cutting to one bit at least keeps the order. -/
theorem roundToBits_le_roundToBits (some_bit : 0 < bits) {a b : Nat} (h : a ≤ b) :
    roundToBits bits a ≤ roundToBits bits b := by
  rcases Nat.eq_zero_or_pos a with rfl | positive
  · rw [roundToBits_zero]
    exact Nat.zero_le _
  rcases Nat.lt_or_eq_of_le (log2_le_log2 positive h) with hlonger | hsame
  · -- between the two lies the power of two at which the longer numbers start
    have hdvd : ∀ value, value.log2 ≤ b.log2 → spacing bits value ∣ 2 ^ b.log2 :=
      fun value hle => Nat.pow_dvd_pow 2 (by omega)
    calc roundToBits bits a
        ≤ 2 ^ b.log2 := by
          apply roundToBits_le (hdvd a (Nat.le_of_lt hlonger))
          exact Nat.le_of_lt ((Nat.log2_lt (Nat.ne_of_gt positive)).mp hlonger)
      _ ≤ roundToBits bits b := by
          apply le_roundToBits (hdvd b (Nat.le_refl _))
          exact Nat.log2_self_le (by omega)
  · have hspacing : spacing bits a = spacing bits b := by rw [spacing, spacing, hsame]
    rw [roundToBits_eq, roundToBits_eq, hspacing]
    exact Nat.mul_le_mul_right _ (roundDiv_le_roundDiv h)

end TieredStore.ByteCount
