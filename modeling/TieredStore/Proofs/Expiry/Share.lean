import Mathlib
import TieredStore.Expiry.Pace
import TieredStore.Proofs.ByteCount.Rounding

/-!
# The share of no keys

A pace divides two numbers of keys as doubles. Where no key had expired it divides zero, and zero it
gets, however many keys were tracked: a positive number of keys becomes a double that is at least
one, or infinity if there are too many of them, and zero divided by either is zero.

A double is looked at here as its sign, its mantissa and its exponent. One that is at least one has
a mantissa of just 53 bits and an exponent that lets the last of them count no less than `2 ^ -52`
(`AtLeastOne`). Rounding leads there from every longer mantissa and never back below one; and it is
still so after the double was packed into its 64 bits and taken out again.
-/

namespace TieredStore.Pace

open Float.Model Float.Model.UnpackedFloat

/-! ## Numbers of bits -/

/-- Halving takes off the last bit, where there is one to take. -/
theorem log2_half (n : Nat) : (n / 2).log2 = n.log2 - 1 := by
  rw [Nat.log2_def n]
  split
  · rfl
  · next small =>
    rw [Nat.div_eq_of_lt (Nat.lt_of_not_le small)]
    rfl

theorem log2_shiftLeft {n : Nat} (positive : 0 < n) (count : Nat) :
    (n <<< count).log2 = n.log2 + count := by
  induction count with
  | zero => rfl
  | succ count ih =>
    have hshifted : 0 < n <<< count := Nat.shiftLeft_pos_iff.mpr positive
    rw [Nat.shiftLeft_succ, Nat.log2_two_mul (Nat.ne_of_gt hshifted), ih, Nat.add_assoc]

/-- The bits of a product are at least those of both factors, short of one. -/
theorem log2_add_le_log2_mul {a b : Nat} (ha : 0 < a) (hb : 0 < b) :
    a.log2 + b.log2 ≤ (a * b).log2 := by
  rw [Nat.le_log2 (Nat.ne_of_gt (Nat.mul_pos ha hb)), Nat.pow_add]
  exact Nat.mul_le_mul (Nat.log2_self_le (Nat.ne_of_gt ha)) (Nat.log2_self_le (Nat.ne_of_gt hb))

theorem pos_of_log2 {n bits : Nat} (h : n.log2 = bits + 1) : 0 < n := by
  apply Nat.pos_of_ne_zero
  rintro rfl
  cases h

/-! ## Doubles that are at least one -/

/-- The double is at least one, with a mantissa of full length, or infinite. -/
def AtLeastOne : UnpackedFloat → Prop
  | .infinity .positive => True
  | .finite .positive mantissa exponent _ => mantissa.log2 = 52 ∧ -52 ≤ exponent
  | _ => False

/-- Every place that a mantissa is shifted costs it one bit. -/
theorem log2_mantissa_shiftRight (em : ExtendedMantissa) (count : Nat) :
    (em >>> count).mantissa.log2 = em.mantissa.log2 - count := by
  induction count with
  | zero => rfl
  | succ count ih =>
    show ((em >>> count).mantissa / 2).log2 = _
    rw [log2_half, ih, Nat.sub_sub]

/-- How exact a mantissa is does not show in its bits. -/
theorem mantissa_ofMantissaAndAccuracy (mantissa : Nat) (accuracy : Accuracy) :
    (ExtendedMantissa.ofMantissaAndAccuracy mantissa accuracy).mantissa = mantissa := by
  rcases accuracy with _ | (_ | _ | _) <;> rfl

/-- Rounding never takes anything off the mantissa. -/
theorem mantissa_le_roundedMantissa (em : ExtendedMantissa) :
    em.mantissa ≤ em.roundedMantissa := by
  rcases em with ⟨mantissa, _ | _, _ | _⟩
  · exact Nat.le_refl mantissa
  · exact Nat.le_refl mantissa
  · exact Nat.le_add_right mantissa _
  · exact Nat.le_succ mantissa

/-- A long mantissa of a number that is at least one is shifted to full length. -/
theorem shiftToTargetExponent_long {mantissa : Nat} {exponent : Int} (long : 52 ≤ mantissa.log2)
    (atLeastOne : 0 ≤ mantissa.log2 + exponent) (accuracy : Accuracy) :
    let shifted := shiftToTargetExponent .binary64 mantissa exponent accuracy
    shifted.1.mantissa.log2 = 52 ∧ -52 ≤ shifted.2 := by
  have htarget : Format.binary64.targetExponent (totalExponent mantissa exponent) =
      mantissa.log2 + exponent - 52 := by
    simp only [Format.targetExponent, totalExponent, Format.mantissaBits, Format.minExponent]
    omega
  have hcount : (mantissa.log2 + exponent - 52 - exponent).toNat = mantissa.log2 - 52 := by omega
  simp only [shiftToTargetExponent, htarget, shiftToExponent, hcount, log2_mantissa_shiftRight,
    mantissa_ofMantissaAndAccuracy]
  omega

/-- Rounding a number that is at least one gives such a double. The mantissa is shifted, rounded,
and shifted once more in case that rounding has made it longer. -/
theorem atLeastOne_roundWithAccuracy {mantissa : Nat} {exponent : Int}
    (long : 52 ≤ mantissa.log2) (atLeastOne : 0 ≤ mantissa.log2 + exponent)
    (accuracy : Accuracy) :
    AtLeastOne (roundWithAccuracy .binary64 .positive mantissa exponent accuracy) := by
  let first := shiftToTargetExponent .binary64 mantissa exponent accuracy
  let last := shiftToTargetExponent .binary64 first.1.roundedMantissa first.2 .exact
  have hfirst : first.1.mantissa.log2 = 52 ∧ -52 ≤ first.2 :=
    shiftToTargetExponent_long long atLeastOne accuracy
  have hpositive : 0 < first.1.mantissa := pos_of_log2 hfirst.1
  have hrounded : 52 ≤ first.1.roundedMantissa.log2 :=
    hfirst.1 ▸ ByteCount.log2_le_log2 hpositive (mantissa_le_roundedMantissa first.1)
  have hlast : last.1.mantissa.log2 = 52 ∧ -52 ≤ last.2 :=
    shiftToTargetExponent_long hrounded (by omega) .exact
  have hnonzero : last.1.mantissa ≠ 0 := Nat.ne_of_gt (pos_of_log2 hlast.1)
  show AtLeastOne (if h : last.1.mantissa = 0 then .zero .positive
    else .finite .positive last.1.mantissa last.2 (Nat.pos_of_ne_zero h))
  rw [dif_neg hnonzero]
  exact hlast

/-- The product of two such doubles is one, rounded anew. -/
theorem atLeastOne_mul {f g : UnpackedFloat} (hf : AtLeastOne f) (hg : AtLeastOne g) :
    AtLeastOne (mul .binary64 f g) := by
  match f, g, hf, hg with
  | .infinity .positive, .infinity .positive, _, _ => trivial
  | .infinity .positive, .finite .positive _ _ _, _, _ => trivial
  | .finite .positive _ _ _, .infinity .positive, _, _ => trivial
  | .finite .positive _ _ hm, .finite .positive _ _ hm', ⟨hlog, _⟩, ⟨hlog', _⟩ =>
    have hproduct := log2_add_le_log2_mul hm hm'
    exact atLeastOne_roundWithAccuracy (by omega) (by omega) .exact

/-- A positive number is rounded to a double that is at least one. -/
theorem atLeastOne_round {n : Nat} (positive : 0 < n) :
    AtLeastOne (UnpackedFloat.round .binary64 .positive n 0) := by
  have htarget : Format.binary64.targetExponent (totalExponent n 0) = n.log2 - 52 := by
    simp only [Format.targetExponent, totalExponent, Format.mantissaBits, Format.minExponent]
    omega
  have hcount : (0 - (n.log2 - 52 : Int)).toNat = 52 - n.log2 := by omega
  have hlog := log2_shiftLeft positive (52 - n.log2)
  rw [UnpackedFloat.round, htarget, decreaseExponent, hcount]
  exact atLeastOne_roundWithAccuracy (by omega) (by omega) .exact

/-! ## Packed doubles -/

/-- The leading bit, which is not packed, makes the mantissa one of full length. -/
theorem log2_leading (mantissa : BitVec 52) : (1#1 ++ mantissa).toNat.log2 = 52 := by
  have hlt := mantissa.isLt
  have hsum : (1#1 ++ mantissa).toNat = 2 ^ 52 + mantissa.toNat := by
    rw [BitVec.toNat_append, ← Nat.shiftLeft_add_eq_or_of_lt hlt]
    rfl
  rw [Nat.log2_eq_iff (by omega), hsum]
  omega

/-- What is packed with an exponent at least that of one, and not the greatest, is at least one. -/
theorem atLeastOne_unpack {exponent : BitVec 11} (least : 1023 ≤ exponent.toNat)
    (finite : exponent ≠ -1#11) (mantissa : BitVec 52) :
    AtLeastOne (unpack .binary64 (packComponents .binary64 .positive exponent mantissa)) := by
  have hnonzero : exponent ≠ 0#11 := by
    rintro rfl
    cases least
  have hunpacked : unpack .binary64 (packComponents .binary64 .positive exponent mantissa) =
      .finite .positive (1#1 ++ mantissa).toNat (exponent.toNat - 1075)
        (pos_of_log2 (log2_leading mantissa)) := by
    simp only [UnpackedFloat.unpack, unpackExponent_packComponents, unpackMantissa_packComponents,
      unpackSign_packComponents]
    rw [if_neg finite, if_neg hnonzero]
    rfl
  rw [hunpacked]
  exact ⟨log2_leading mantissa, by omega⟩

/-- Doubles that are at least one are so still when they were packed, if only as infinity. -/
theorem atLeastOne_unpack_pack {f : UnpackedFloat} (h : AtLeastOne f) :
    AtLeastOne (unpack .binary64 (pack .binary64 f)) := by
  match f, h with
  | .infinity .positive, _ => trivial
  | .finite .positive mantissa exponent _, ⟨hlog, hexponent⟩ =>
    let biased := (exponent + 1023 + 52).toNat
    show AtLeastOne (unpack .binary64 (if 2048 ≤ biased + 1 then packedInfinity .binary64 .positive
      else if mantissa.log2 + 1 = 53 then
        packComponents .binary64 .positive (BitVec.ofNat 11 biased) (BitVec.ofNat 52 mantissa)
      else packComponents .binary64 .positive 0#11 (BitVec.ofNat 52 mantissa)))
    split
    · trivial
    · have hbiased : (BitVec.ofNat 11 biased).toNat = biased := by
        rw [BitVec.toNat_ofNat]
        omega
      have hfinite : BitVec.ofNat 11 biased ≠ -1#11 := by
        intro heq
        have hgreatest := hbiased.symm.trans (congrArg BitVec.toNat heq)
        rw [show (-1#11 : BitVec 11).toNat = 2047 from rfl] at hgreatest
        omega
      rw [if_pos (by rw [hlog])]
      exact atLeastOne_unpack (by omega) hfinite _

/-! ## Numbers as doubles -/

/-- A positive number of 64 bits is not zero when it is rounded, and it is rounded to no less than
one. -/
theorem atLeastOne_toFloat {n : UInt64} (positive : 0 < n.toNat) :
    AtLeastOne n.toFloat.toModel.unpack := by
  have hround : UnpackedFloat.ofUInt64 .binary64 n =
      UnpackedFloat.round .binary64 .positive n.toNat 0 := by
    show UnpackedFloat.normalize .binary64 n.toNat 0 .positive = _
    rw [UnpackedFloat.normalize, Int.compare_eq_gt.mpr (Int.natCast_pos.mpr positive)]
    rfl
  exact atLeastOne_unpack_pack (hround ▸ atLeastOne_round positive)

/-- A number with no power of ten behind it is made long enough before it is multiplied by one, and
is rounded only then. -/
theorem atLeastOne_ofScientific {n : Nat} (positive : 0 < n) :
    AtLeastOne (UnpackedFloat.ofScientific .binary64 n 0) := by
  have hlog := log2_shiftLeft positive 53
  have hproduct : UnpackedFloat.ofScientific .binary64 n 0 =
      roundWithAccuracy .binary64 .positive (n <<< 53) (-53) .exact := by
    have hbits : ¬(0 : Int) < -(2048 + n.log2) := by omega
    rw [UnpackedFloat.ofScientific, dif_neg (Nat.ne_of_gt positive), if_neg (by decide)]
    refine (if_neg hbits).trans ((if_pos (Int.le_refl 0)).trans ?_)
    have hfactor : (10 : Nat) ^ Int.toNat 0 = 1 := rfl
    have hlength : Format.binary64.mantissaBits = 53 := rfl
    have hexponent : -((53 : Nat) : Int) + 0 = -53 := rfl
    have hsign : Sign.positive * Sign.positive = .positive := rfl
    rw [UnpackedFloat.mul, hfactor, Nat.mul_one, hlength, hexponent, hsign]
  rw [hproduct]
  generalize n <<< 53 = mantissa at hlog
  exact atLeastOne_roundWithAccuracy (by omega) (by omega) .exact

/-- A positive number as a double is at least one. Small numbers are taken as they are, large ones
are rounded. -/
theorem atLeastOne_ofNat {n : Nat} (positive : 0 < n) :
    AtLeastOne (Float.ofNat n).toModel.unpack := by
  show AtLeastOne (Float.ofScientific n false 0).toModel.unpack
  rw [Float.ofScientific]
  split
  · next small =>
    have hn : n.toUInt64.toNat = n := by
      rw [Nat.toUInt64, UInt64.toNat_ofNat']
      omega
    have hfactor : AtLeastOne (unpack .binary64 0x3ff0000000000000#64) := ⟨rfl, by decide⟩
    exact atLeastOne_unpack_pack (atLeastOne_mul (atLeastOne_toFloat (hn.symm ▸ positive)) hfactor)
  · exact atLeastOne_unpack_pack (atLeastOne_ofScientific positive)

/-- Neither a finite divisor nor infinity makes anything of zero. -/
theorem zero_div {f : UnpackedFloat} (h : AtLeastOne f) :
    div .binary64 (.zero .positive) f = .zero .positive := by
  match f, h with
  | .infinity .positive, _ => rfl
  | .finite .positive _ _ _, _ => rfl

/-- **The share of no keys is zero**, however many keys were tracked. -/
theorem expiredShare_zero {tracked : Nat} (positive : 0 < tracked) :
    expiredShare 0 tracked = 0 := by
  have hzero : (Float.ofNat 0).toModel.unpack = .zero .positive := rfl
  have hshare : div .binary64 (Float.ofNat 0).toModel.unpack (Float.ofNat tracked).toModel.unpack =
      .zero .positive := by
    rw [hzero, zero_div (atLeastOne_ofNat positive)]
  exact congrArg (fun share => Float.ofModel (pack share)) hshare

end TieredStore.Pace
