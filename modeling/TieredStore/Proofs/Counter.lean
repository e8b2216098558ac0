import TieredStore.Counter

/-!
# What a counter stands for

A counter that has wrapped may show any number up to the one that it should, since additions drop a
part of the sum and subtractions stop at zero. One that has not wrapped shows just that number.
`Counter.Counts` says both, and it is what additions and subtractions keep.
-/

namespace TieredStore.Counter

/-- The counter stands for a number: it shows no more, and no less unless it has wrapped. -/
structure Counts (c : Counter) (n : Nat) : Prop where
  read_le : c.read ≤ n
  read_eq : c.wrapped = false → c.read = n

variable {c d : Counter} {n m : Nat}

/-- What a counter shows has 64 bits. -/
theorem read_lt (c : Counter) : c.read < UInt64.size := c.value.toNat_lt_size

/-- After an addition a counter shows the sum, or what is left of it in 64 bits. -/
theorem read_add (c : Counter) (n : Nat) : (c.add n).read = (c.read + n) % UInt64.size := by
  rw [read, add, UInt64.toNat_add, UInt64.toNat_ofNat', Nat.add_mod_mod]
  rfl

theorem read_plus (c d : Counter) : (c.plus d).read = (c.read + d.read) % UInt64.size :=
  c.read_add d.read

/-- Taking off needs no case of its own: subtraction of natural numbers stops at zero too. -/
theorem read_sub (c : Counter) (n : Nat) : (c.sub n).read = c.read - n :=
  UInt64.toNat_ofNat_of_lt' (Nat.lt_of_le_of_lt (Nat.sub_le _ _) c.read_lt)

/-- An addition wraps just when its sum leaves the 64 bits. -/
theorem wrapped_add : (c.add n).wrapped = false ↔ c.wrapped = false ∧ c.read + n < UInt64.size := by
  rw [add, Bool.or_eq_false_iff, decide_eq_false_iff_not, Nat.not_le]

/-- Adding what another counter shows is exact if the other one is and the sum fits. -/
theorem wrapped_plus :
    (c.plus d).wrapped = false ↔ (c.add d.read).wrapped = false ∧ d.wrapped = false := by
  rw [plus, Bool.or_eq_false_iff]

/-- A counter that has counted nothing adds nothing; a sum over one counter is that counter. -/
theorem plus_zero (c : Counter) : c.plus {} = c := by
  have hvalue : (c.plus {}).value = c.value := UInt64.add_zero c.value
  have hfits : decide (UInt64.size ≤ c.read + Counter.read {}) = false :=
    decide_eq_false (Nat.not_le_of_lt c.read_lt)
  have hwrapped : (c.plus {}).wrapped = c.wrapped := by
    rw [plus, add, hfits, Bool.or_false, Bool.or_false]
  exact Counter.ext hvalue hwrapped

theorem counts_zero : Counts {} 0 := ⟨Nat.le_refl 0, fun _ => rfl⟩

/-- Adding drops a part of the sum at most, and none if it does not wrap. -/
theorem Counts.add (h : c.Counts n) (m : Nat) : (c.add m).Counts (n + m) where
  read_le := by
    rw [read_add]
    exact Nat.le_trans (Nat.mod_le _ _) (Nat.add_le_add_right h.read_le m)
  read_eq exact := by
    obtain ⟨hexact, hfits⟩ := wrapped_add.mp exact
    rw [read_add, Nat.mod_eq_of_lt hfits, h.read_eq hexact]

/-- What was counted in can be taken off. A counter that has wrapped may show less than that, and
then stops at zero, which is not too many either. -/
theorem Counts.sub (h : c.Counts (n + m)) : (c.sub m).Counts n where
  read_le := by
    rw [read_sub]
    exact Nat.sub_le_of_le_add h.read_le
  read_eq exact := by
    rw [read_sub, h.read_eq exact, Nat.add_sub_cancel]

/-- Counters of parts, put together, stand for the whole. -/
theorem Counts.plus (hc : c.Counts n) (hd : d.Counts m) : (c.plus d).Counts (n + m) where
  read_le := Nat.le_trans (hc.add d.read).read_le (Nat.add_le_add_left hd.read_le n)
  read_eq exact := by
    obtain ⟨hsum, hexact⟩ := wrapped_plus.mp exact
    rw [← hd.read_eq hexact]
    exact (hc.add d.read).read_eq hsum

end TieredStore.Counter
