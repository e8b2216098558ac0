import Mathlib.Algebra.Order.Field.Basic
import Mathlib.Algebra.Order.Ring.Rat
import Mathlib.Tactic.Linarith
import Mathlib.Tactic.NormNum
import Mathlib.Tactic.Ring
import TieredStore.Proofs.ByteCount.Rounding

/-!
# Byte counts read back

A shown count is a number and the name of a unit, and `read?` makes a quantity of it again: it takes
any digits, with a point among them or without, and knows nothing of how the count was rounded.

What is read is `shown`, a whole number of hundredths of a byte: twice rounded, first to 53 bits and
then to two decimals. Each rounding keeps the order and errs by half a unit at most, so all that is
left are counts in different units. Between them lies the greater unit, which is a whole number of
the lesser ones: what is below it is shown as no more than it (`shown_le_of_le`), also where that is
`1024.00` of the lesser unit, and what reaches it as no less (`le_shown_of_le`).

**The law** (`quantity_of_render`): what is read is as near to the count as two decimals, and 64
bits in 53, allow, and a greater count is never read as the lesser one.
-/

namespace TieredStore.ByteCount

/-! ## Reading a count -/

/-- The number that some decimal digits show. -/
def number? (digits : List Char) : Option Nat :=
  if digits ≠ [] ∧ digits.all Char.isDigit then some (Nat.ofDigitChars 10 digits 0) else none

/-- The number that decimal digits show, with a point among them or without. -/
def decimal? (text : List Char) : Option ℚ :=
  match text.splitOn '.' with
  | [whole] => (number? whole).map fun n : Nat => (n : ℚ)
  | [whole, places] =>
    (number? whole).bind fun n => (number? places).map fun p : Nat => n + p / 10 ^ places.length
  | _ => none

/-- The units. -/
def Scale.all : List Scale := [byte, kilobyte, megabyte, gigabyte]

/-- The unit of a name. -/
def Scale.ofLabel? (label : List Char) : Option Scale :=
  Scale.all.find? fun scale => scale.label.toList = label

/-- A count as it is shown. -/
structure Reading where
  mantissa : ℚ
  scale : Scale

/-- The number of bytes that a shown count stands for. -/
def Reading.quantity (r : Reading) : ℚ := r.mantissa * r.scale.factor

/-- The count that a text shows: a number, a space and the name of a unit. -/
def read? (text : String) : Option Reading :=
  match text.toList.splitOn ' ' with
  | [mantissa, label] =>
    (decimal? mantissa).bind fun m => (Scale.ofLabel? label).map fun scale => ⟨m, scale⟩
  | _ => none

/-- A numeral consists of digits. -/
theorem isDigit_of_mem {n : Nat} {c : Char} (h : c ∈ Nat.toDigits 10 n) : c.isDigit = true :=
  Nat.isDigit_of_mem_toDigits (by decide) (by decide) h

/-- A numeral is read back as its number. -/
theorem number?_toDigits (n : Nat) : number? (Nat.toDigits 10 n) = some n := by
  rw [number?, if_pos, Nat.ofDigitChars_ten_toDigits]
  exact ⟨Nat.toDigits_ne_nil, List.all_eq_true.mpr fun c => isDigit_of_mem⟩

/-- Without a point it is a decimal number as well. -/
theorem decimal?_toDigits (n : Nat) : decimal? (Nat.toDigits 10 n) = some (n : ℚ) := by
  have hpoint : '.' ∉ Nat.toDigits 10 n := fun h => absurd (isDigit_of_mem h) (by decide)
  rw [decimal?, List.splitOn_eq_singleton hpoint]
  simp only [number?_toDigits, Option.map_some]

theorem toList_toString (n : Nat) : (toString n).toList = Nat.toDigits 10 n := by
  rw [Nat.toString_eq_ofList_toDigits, String.toList_ofList]

/-- A number below ten is one digit. -/
theorem toDigits_of_lt {n : Nat} (h : n < 10) : Nat.toDigits 10 n = [Nat.digitChar n] :=
  Nat.toDigits_of_lt_base h

/-- Two digits are read as tens and ones, also where the tens are none. -/
theorem number?_two {tens ones : Nat} (htens : tens < 10) (hones : ones < 10) :
    number? (Nat.toDigits 10 tens ++ Nat.toDigits 10 ones) = some (10 * tens + ones) := by
  rw [number?, if_pos]
  · rw [toDigits_of_lt htens, toDigits_of_lt hones, List.singleton_append,
      Nat.ofDigitChars_cons_digitChar_of_lt_ten htens,
      Nat.ofDigitChars_cons_digitChar_of_lt_ten hones, Nat.ofDigitChars_nil, Nat.mul_zero,
      Nat.zero_add]
  · refine ⟨List.append_ne_nil_of_left_ne_nil Nat.toDigits_ne_nil _, List.all_eq_true.mpr ?_⟩
    intro c hc
    rcases List.mem_append.mp hc with hc | hc <;> exact isDigit_of_mem hc

/-- The hundredths are written as the whole part, a point and two digits. -/
theorem toList_twoPlaces (h : Nat) :
    (twoPlaces h).toList = Nat.toDigits 10 (h / 100) ++
      '.' :: (Nat.toDigits 10 (h % 100 / 10) ++ Nat.toDigits 10 (h % 100 % 10)) := by
  simp only [twoPlaces, String.toList_append, toList_toString, List.append_assoc]
  rfl

theorem solid_toDigits (n : Nat) : ' ' ∉ Nat.toDigits 10 n :=
  fun hc => absurd (isDigit_of_mem hc) (by decide)

/-- There is no blank in it, so the unit begins after the first one. -/
theorem solid_twoPlaces (h : Nat) : ' ' ∉ (twoPlaces h).toList := by
  rw [toList_twoPlaces]
  simp only [List.mem_append, List.mem_cons, solid_toDigits, or_self, or_false]
  decide

/-- Hundredths in two places are read back as that many hundredths. -/
theorem decimal?_twoPlaces (h : Nat) : decimal? (twoPlaces h).toList = some (h / 100 : ℚ) := by
  have hpoint (n : Nat) : '.' ∉ Nat.toDigits 10 n := fun hc => absurd (isDigit_of_mem hc) (by decide)
  have hplaces : '.' ∉ Nat.toDigits 10 (h % 100 / 10) ++ Nat.toDigits 10 (h % 100 % 10) := by
    rw [List.mem_append]
    exact not_or.mpr ⟨hpoint _, hpoint _⟩
  have htens : h % 100 / 10 < 10 := by omega
  have hones : h % 100 % 10 < 10 := by omega
  rw [decimal?, toList_twoPlaces, List.splitOn_append_cons_self_of_not_mem (hpoint _),
    List.splitOn_eq_singleton hplaces]
  have hlength : (Nat.toDigits 10 (h % 100 / 10) ++ Nat.toDigits 10 (h % 100 % 10)).length = 2 := by
    rw [toDigits_of_lt htens, toDigits_of_lt hones]
    rfl
  simp only [number?_toDigits, number?_two htens hones, hlength, Option.bind_some, Option.map_some]
  have hparts : h = 100 * (h / 100) + (10 * (h % 100 / 10) + h % 100 % 10) := by omega
  have hcast : (h : ℚ) = 100 * (h / 100 : Nat) + (10 * (h % 100 / 10) + h % 100 % 10 : Nat) := by
    exact_mod_cast hparts
  rw [hcast]
  congr 1
  push_cast
  ring

/-- A scale is known by its label. -/
theorem ofLabel?_label (scale : Scale) : Scale.ofLabel? scale.label.toList = some scale := by
  cases scale <;> decide

/-- A mantissa and the name of a unit are read one by one. -/
theorem read?_eq {text : String} {m : ℚ} {scale : Scale} (mantissa : List Char)
    (htext : text.toList = mantissa ++ ' ' :: scale.label.toList) (solid : ' ' ∉ mantissa)
    (hm : decimal? mantissa = some m) : read? text = some ⟨m, scale⟩ := by
  have hlabel : ' ' ∉ scale.label.toList := by cases scale <;> decide
  rw [read?, htext, List.splitOn_append_cons_self_of_not_mem solid,
    List.splitOn_eq_singleton hlabel]
  simp only [hm, ofLabel?_label, Option.bind_some, Option.map_some]

/-! ## Counts and units -/

namespace Scale

theorem factor_pos (scale : Scale) : 0 < scale.factor := by
  cases scale <;> decide

/-- There is no scale beyond the largest. -/
theorem factor_le (scale : Scale) : scale.factor ≤ gigabyte.factor := by
  cases scale <;> decide

/-- Only counts below the next unit are in single bytes. -/
theorem lt_of_ofCount_byte {bytes : Nat} (h : ofCount bytes = byte) : bytes < 1024 := by
  simp only [ofCount] at h
  split_ifs at h with hfew
  exact hfew

/-- Of two counts the greater is shown in the same unit, or it reaches a unit that the other does
not, which is a multiple of the unit of that. -/
theorem ofCount_cases {a b : Nat} (h : a ≤ b) :
    ofCount a = ofCount b ∨ (ofCount a).factor ∣ (ofCount b).factor ∧
      a < (ofCount b).factor ∧ (ofCount b).factor ≤ b := by
  simp only [ofCount]
  split_ifs <;> simp [factor] at * <;> omega

end Scale

/-- Single bytes are shown as they are, where a double has room for them. -/
theorem hundredths_byte {bytes : Nat} (h : bytes < 2 ^ 53) :
    hundredths .byte bytes = 100 * bytes := by
  rw [hundredths, roundToBits_of_lt h]
  simpa only [Scale.factor, Nat.mul_one] using roundDiv_mul Nat.one_pos (100 * bytes)

/-- What is read back is what was rounded, in the unit that was chosen. -/
theorem read?_render (bytes : Nat) :
    read? (render bytes) =
      some ⟨(hundredths (Scale.ofCount bytes) bytes : ℚ) / 100, Scale.ofCount bytes⟩ := by
  cases hscale : Scale.ofCount bytes with
  | byte =>
    have hfew := Scale.lt_of_ofCount_byte hscale
    have hexact : ((hundredths .byte bytes : Nat) : ℚ) / 100 = bytes := by
      rw [hundredths_byte (by omega), Nat.cast_mul]
      exact mul_div_cancel_left₀ _ (by norm_num)
    rw [hexact]
    refine read?_eq (Nat.toDigits 10 bytes) ?_ (solid_toDigits bytes) (decimal?_toDigits bytes)
    simp only [render, hscale, String.toList_append, toList_toString, List.append_assoc]
    rfl
  | kilobyte | megabyte | gigabyte =>
    refine read?_eq (twoPlaces _).toList ?_ (solid_twoPlaces _) (decimal?_twoPlaces _)
    simp only [render, hscale, String.toList_append, List.append_assoc]
    rfl

/-! ## What is shown -/

/-- What is shown of a count, in hundredths of a byte. -/
def shown (bytes : Nat) : Nat :=
  hundredths (Scale.ofCount bytes) bytes * (Scale.ofCount bytes).factor

/-- What a rendering is read as is the hundredths that it shows. -/
theorem quantity_eq (bytes : Nat) :
    Reading.quantity ⟨(hundredths (Scale.ofCount bytes) bytes : ℚ) / 100, Scale.ofCount bytes⟩ =
      (shown bytes : ℚ) / 100 := by
  rw [Reading.quantity, shown, Nat.cast_mul]
  ring

/-- What is shown is too large by half of a hundredth of the unit at most, against the double
nearest to the count. -/
theorem two_mul_shown_le (bytes : Nat) :
    2 * shown bytes ≤ 200 * roundToBits 53 bytes + (Scale.ofCount bytes).factor := by
  have h := two_mul_roundDiv_le (100 * roundToBits 53 bytes) (Scale.ofCount bytes).factor
  rw [shown, hundredths]
  omega

/-- And too small by as much at most. -/
theorem le_two_mul_shown (bytes : Nat) :
    200 * roundToBits 53 bytes ≤ 2 * shown bytes + (Scale.ofCount bytes).factor := by
  have h := le_two_mul_roundDiv (Scale.ofCount bytes).factor_pos (100 * roundToBits 53 bytes)
  rw [shown, hundredths]
  omega

/-- The unit is a power of two, which a double has as it is. -/
theorem roundToBits_factor (scale : Scale) : roundToBits 53 scale.factor = scale.factor := by
  have := scale.factor_le
  exact roundToBits_of_lt (Nat.lt_of_le_of_lt this (by decide))

/-- Nothing short of a unit is shown as more than it, whatever smaller unit it is shown in. -/
theorem shown_le_of_le {bytes : Nat} {scale : Scale}
    (whole : (Scale.ofCount bytes).factor ∣ scale.factor) (h : bytes ≤ scale.factor) :
    shown bytes ≤ 100 * scale.factor := by
  have hbits := roundToBits_le_roundToBits (by decide : 0 < 53) h
  rw [roundToBits_factor] at hbits
  obtain ⟨count, hcount⟩ := whole
  have hunits : 100 * roundToBits 53 bytes ≤ 100 * count * (Scale.ofCount bytes).factor := by
    rw [Nat.mul_assoc, Nat.mul_comm count, ← hcount]
    exact Nat.mul_le_mul_left 100 hbits
  calc shown bytes
      ≤ 100 * count * (Scale.ofCount bytes).factor :=
        Nat.mul_le_mul_right _ (roundDiv_le (Scale.ofCount bytes).factor_pos hunits)
    _ = 100 * scale.factor := by rw [Nat.mul_assoc, Nat.mul_comm count, ← hcount]

/-- A count that reaches its unit is shown as one unit at least. -/
theorem le_shown_of_le {bytes : Nat} (h : (Scale.ofCount bytes).factor ≤ bytes) :
    100 * (Scale.ofCount bytes).factor ≤ shown bytes := by
  have hbits := roundToBits_le_roundToBits (by decide : 0 < 53) h
  rw [roundToBits_factor] at hbits
  exact Nat.mul_le_mul_right _
    (le_roundDiv (Scale.ofCount bytes).factor_pos (Nat.mul_le_mul_left 100 hbits))

/-- What is shown keeps the order of the counts. -/
theorem shown_le_shown {a b : Nat} (h : a ≤ b) : shown a ≤ shown b := by
  rcases Scale.ofCount_cases h with hsame | ⟨hwhole, hbelow, hreached⟩
  · have hbits := roundToBits_le_roundToBits (by decide : 0 < 53) h
    rw [shown, shown, hsame]
    exact Nat.mul_le_mul_right _ (roundDiv_le_roundDiv (Nat.mul_le_mul_left 100 hbits))
  · exact Nat.le_trans (shown_le_of_le hwhole (Nat.le_of_lt hbelow)) (le_shown_of_le hreached)

/-! ## What is read -/

/-- A count shown in single bytes is shown as it is. -/
theorem shown_of_few {bytes : Nat} (few : bytes < 1024) : shown bytes = 100 * bytes := by
  have hscale : Scale.ofCount bytes = .byte := if_pos few
  rw [shown, hscale, hundredths_byte (by omega)]
  exact Nat.mul_one _

/-- Bounds on both sides in whole numbers, put together as a distance of quantities. -/
theorem abs_shown_sub_le {bytes error : Nat} (above : 2 * shown bytes ≤ 200 * bytes + error)
    (below : 200 * bytes ≤ 2 * shown bytes + error) :
    |(shown bytes : ℚ) / 100 - bytes| ≤ error / 200 := by
  have habove : (2 * shown bytes : ℚ) ≤ 200 * bytes + error := by exact_mod_cast above
  have hbelow : (200 * bytes : ℚ) ≤ 2 * shown bytes + error := by exact_mod_cast below
  rw [abs_le]
  constructor <;> linarith

/-- Counts of at most 53 bits lose no more than their decimals. -/
theorem abs_shown_sub_le_of_lt {bytes : Nat} (short : bytes < 2 ^ 53) :
    |(shown bytes : ℚ) / 100 - bytes| ≤ 0.005 * (Scale.ofCount bytes).factor := by
  have habove := two_mul_shown_le bytes
  have hbelow := le_two_mul_shown bytes
  rw [roundToBits_of_lt short] at habove hbelow
  have h := abs_shown_sub_le habove hbelow
  linarith

/-- Longer ones lose half of their spacing before that. -/
theorem abs_shown_sub_le_of_long {bytes unit : Nat} (long : bytes < 2 ^ 64)
    (shown_in : (Scale.ofCount bytes).factor ≤ unit) :
    |(shown bytes : ℚ) / 100 - bytes| ≤ 0.005 * unit + 1024 := by
  have habove := two_mul_shown_le bytes
  have hbelow := le_two_mul_shown bytes
  have hbitsAbove := two_mul_roundToBits_le 53 bytes
  have hbitsBelow := le_two_mul_roundToBits 53 bytes
  have hspacing : spacing 53 bytes ≤ 2 ^ 11 := spacing_le (by decide) long
  have h := @abs_shown_sub_le bytes (unit + 200 * 1024) (by omega) (by omega)
  push_cast at h
  linarith

/-- **Shown counts are accurate and keep their order.** A shown count is read back in the unit that
it was shown in. The quantity read is the count itself where that is shown in single bytes; it is
off by half of the last decimal at most where the count has no more than 53 bits, and by 1024 bytes
more where it has 64. The quantity read of a greater count is never the lesser one, also where the
two are shown in different units. -/
theorem quantity_of_render :
    (∀ bytes : Nat, ∃ r, read? (render bytes) = some r ∧ r.scale = Scale.ofCount bytes ∧
      (bytes < 1024 → r.quantity = bytes) ∧
        (bytes < 2 ^ 53 → |r.quantity - bytes| ≤ 0.005 * r.scale.factor) ∧
          (bytes < 2 ^ 64 → |r.quantity - bytes| ≤ 0.005 * Scale.gigabyte.factor + 1024)) ∧
      ∀ a b : Nat, a ≤ b → ∃ r s, read? (render a) = some r ∧ read? (render b) = some s ∧
        r.quantity ≤ s.quantity := by
  constructor
  · intro bytes
    refine ⟨_, read?_render bytes, rfl, ?_⟩
    rw [quantity_eq]
    refine ⟨fun few => ?_, abs_shown_sub_le_of_lt,
      fun long => abs_shown_sub_le_of_long long (Scale.ofCount bytes).factor_le⟩
    rw [shown_of_few few, Nat.cast_mul]
    exact mul_div_cancel_left₀ _ (by norm_num)
  · intro a b h
    refine ⟨_, _, read?_render a, read?_render b, ?_⟩
    have hshown : (shown a : ℚ) ≤ shown b := by exact_mod_cast shown_le_shown h
    rw [quantity_eq, quantity_eq]
    linarith

/-- The count before a greater unit is rounded up to it, and the last count of 64 bits to the next
power of two. -/
theorem quantity_of_render_boundary :
    render (2 ^ 20 - 1) = "1024.00 KB" ∧ render (2 ^ 64 - 1) = "17179869184.00 GB" ∧
      (∃ r, read? (render 1023) = some r ∧ r.quantity = (1023 : Nat)) ∧
        (∃ r s, read? (render (2 ^ 20 - 1)) = some r ∧ read? (render (2 ^ 20)) = some s ∧
          |r.quantity - (2 ^ 20 - 1 : Nat)| ≤ 0.005 * r.scale.factor ∧
            r.quantity ≤ s.quantity) ∧
          ∃ r, read? (render (2 ^ 64 - 1)) = some r ∧
            |r.quantity - (2 ^ 64 - 1 : Nat)| ≤ 0.005 * Scale.gigabyte.factor + 1024 := by
  obtain ⟨haccurate, hordered⟩ := quantity_of_render
  refine ⟨by decide +kernel, by decide +kernel, ?_, ?_, ?_⟩
  · obtain ⟨r, hread, _, hexact, _⟩ := haccurate 1023
    exact ⟨r, hread, hexact (by decide)⟩
  · obtain ⟨r, hread, _, _, hnear, _⟩ := haccurate (2 ^ 20 - 1)
    obtain ⟨_, s, hread', hlater, hle⟩ := hordered (2 ^ 20 - 1) (2 ^ 20) (by decide)
    obtain rfl := Option.some.inj (hread.symm.trans hread')
    exact ⟨r, s, hread, hlater, hnear (by decide), hle⟩
  · obtain ⟨r, hread, _, _, _, hnear⟩ := haccurate (2 ^ 64 - 1)
    exact ⟨r, hread, hnear (by decide)⟩

end TieredStore.ByteCount
