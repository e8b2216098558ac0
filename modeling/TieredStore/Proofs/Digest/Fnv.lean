import TieredStore.Digest.Fnv

/-!
# What the FNV-1a digest tells apart

A step of the digest adds a byte to a word and multiplies by the prime. The prime is odd, so it has
an inverse among 128-bit words (`prime_mul_inverse`) and the step can be undone: with the byte the
word before it is known (`step_inj_word`), with the word the byte (`step_inj_byte`). The digest
writes the last word in full, so it is known from the digest (`digest_eq_iff`).

**The law** (`digest_append_iff`): whatever stands behind two inputs, their digests agree exactly
if they agreed without it, and two inputs that differ in one byte never have the same digest.
-/

namespace TieredStore

/-! ## Words as bytes -/

namespace Bytes

/-- Byte after byte, the lowest one first. -/
theorem littleEndian_succ (count value : Nat) :
    littleEndian (count + 1) value = UInt8.ofNat value :: littleEndian count (value >>> 8) := by
  rw [littleEndian, List.range_succ_eq_map, List.map_cons, List.map_map]
  refine congrArg (UInt8.ofNat value :: ·) (List.map_congr_left fun i _ => ?_)
  rw [Function.comp_apply, ← Nat.shiftRight_add, Nat.mul_succ, Nat.add_comm]

/-- A number that fits its bytes is read back from them. -/
theorem toNatLE_littleEndian (count : Nat) :
    ∀ value, value >>> (8 * count) = 0 → toNatLE (littleEndian count value) = value := by
  induction count with
  | zero => exact fun value fits => fits.symm
  | succ count ih =>
    intro value fits
    have rest : value >>> 8 >>> (8 * count) = 0 := by
      rw [← Nat.shiftRight_add, Nat.add_comm, ← Nat.mul_succ, fits]
    rw [littleEndian_succ]
    show (UInt8.ofNat value).toNat + 256 * toNatLE (littleEndian count (value >>> 8)) = value
    rw [ih _ rest, UInt8.toNat_ofNat']
    omega

end Bytes

namespace Digest.Fnv

/-- A word is known from its sixteen bytes. -/
theorem bigEndian_inj {w v : BitVec 128}
    (h : Bytes.bigEndian 16 w.toNat = Bytes.bigEndian 16 v.toNat) : w = v := by
  have fits (u : BitVec 128) : u.toNat >>> (8 * 16) = 0 := by
    rw [Nat.shiftRight_eq_div_pow]
    exact Nat.div_eq_of_lt u.isLt
  have hbytes := congrArg Bytes.toNatLE (List.reverse_inj.mp h)
  rw [Bytes.toNatLE_littleEndian 16 _ (fits w), Bytes.toNatLE_littleEndian 16 _ (fits v)] at hbytes
  exact BitVec.eq_of_toNat_eq hbytes

/-- All sixteen bytes of the word are written, so digests are equal just when the words are. -/
theorem digest_eq_iff {a b : Bytes} : digest a = digest b ↔ word a = word b := by
  rw [digest, digest]
  exact ⟨bigEndian_inj, fun h => by rw [h]⟩

/-! ## Steps undone -/

/-- What undoes the multiplication by the prime. -/
def inverse : BitVec 128 := 0xb1041ad2562ff2ff2ff2ff2ff2ff2ff3#128

/-- The prime is odd, so it has an inverse modulo 2^128. -/
theorem prime_mul_inverse : prime * inverse = 1#128 := by decide

/-- Multiplying by the prime loses nothing. -/
theorem mul_prime_inj {w v : BitVec 128} (h : w * prime = v * prime) : w = v := by
  have hundone := congrArg (· * inverse) h
  simpa only [BitVec.mul_assoc, prime_mul_inverse, BitVec.mul_one] using hundone

/-- Whatever the byte, a step loses nothing of the word. -/
theorem step_inj_word (byte : UInt8) {w v : BitVec 128} : step w byte = step v byte ↔ w = v := by
  constructor
  · intro h
    exact (BitVec.xor_left_inj _).mp (mul_prime_inj h)
  · rintro rfl
    rfl

/-- Whatever the word, it loses nothing of the byte. -/
theorem step_inj_byte (w : BitVec 128) {x y : UInt8} : step w x = step w y ↔ x = y := by
  constructor
  · intro h
    have hwide := congrArg BitVec.toNat ((BitVec.xor_right_inj w).mp (mul_prime_inj h))
    -- a byte loses nothing in a wider word
    rw [BitVec.toNat_setWidth_of_le (by decide), BitVec.toNat_setWidth_of_le (by decide)] at hwide
    exact UInt8.toBitVec_inj.mp (BitVec.eq_of_toNat_eq hwide)
  · rintro rfl
    rfl

/-- Bytes that follow two words do not bring them together. -/
theorem foldl_step_inj (data : Bytes) :
    ∀ {w v : BitVec 128}, data.foldl step w = data.foldl step v ↔ w = v := by
  induction data with
  | nil => exact Iff.rfl
  | cons byte rest ih =>
    intro w v
    rw [List.foldl_cons, List.foldl_cons, ih, step_inj_word]

/-- The word of a text is the word of its beginning taken on by the steps of the rest. -/
theorem word_append (a b : Bytes) : word (a ++ b) = b.foldl step (word a) := by
  rw [word, List.foldl_append, word]

theorem digest_suffix_iff (a b s : Bytes) :
    digest (a ++ s) = digest (b ++ s) ↔ digest a = digest b := by
  rw [digest_eq_iff, digest_eq_iff, word_append, word_append, foldl_step_inj]

/-- A byte changed in one place changes the digest. -/
theorem digest_byte_iff (p s : Bytes) (x y : UInt8) :
    digest (p ++ [x] ++ s) = digest (p ++ [y] ++ s) ↔ x = y := by
  rw [digest_suffix_iff, digest_eq_iff, word_append, word_append]
  exact step_inj_byte (word p)

/-! ## Inputs that differ in one place -/

/-- Two inputs of one length that are the same but in one place have the same bytes before it and
the same bytes behind it. -/
theorem exists_split_of_differ {a b : Bytes} (length : a.length = b.length) {i : Nat}
    (differ : a[i]? ≠ b[i]?) (same : ∀ j, j ≠ i → a[j]? = b[j]?) :
    ∃ p x y s, x ≠ y ∧ a = p ++ [x] ++ s ∧ b = p ++ [y] ++ s := by
  have hi : i < a.length := by
    refine Nat.lt_of_not_le fun hle => differ ?_
    rw [List.getElem?_eq_none hle, List.getElem?_eq_none (length ▸ hle)]
  have hib : i < b.length := length ▸ hi
  have hset : b = a.set i b[i] := by
    refine List.ext_getElem? fun j => ?_
    rw [List.getElem?_set]
    split
    · next hij => rw [← hij, List.getElem?_eq_getElem hib]
    · next hij => exact (same j (Ne.symm hij)).symm
  refine ⟨a.take i, a[i], b[i], a.drop (i + 1), ?_, ?_, ?_⟩
  · intro heq
    rw [List.getElem?_eq_getElem hi, List.getElem?_eq_getElem hib, heq] at differ
    exact differ rfl
  · rw [List.append_assoc, List.singleton_append, ← List.drop_eq_getElem_cons hi,
      List.take_append_drop]
  · refine hset.trans ?_
    rw [List.set_eq_take_append_cons_drop, if_pos hi, List.append_assoc, List.singleton_append]

/-- **The FNV-1a digest tells inputs apart that differ in one byte.** Two inputs keep and lose
their equal digests with whatever stands behind both of them, and of two inputs of one length that
are the same in all places but one the sixteen bytes of the digest are not the same. -/
theorem digest_append_iff :
    (∀ a : Bytes, (digest a).length = 16) ∧
      (∀ a b s : Bytes, digest (a ++ s) = digest (b ++ s) ↔ digest a = digest b) ∧
        (∀ (p s : Bytes) (x y : UInt8), digest (p ++ [x] ++ s) = digest (p ++ [y] ++ s) ↔ x = y) ∧
          ∀ (a b : Bytes) (i : Nat), a.length = b.length → a[i]? ≠ b[i]? →
            (∀ j, j ≠ i → a[j]? = b[j]?) → digest a ≠ digest b := by
  refine ⟨fun a => Bytes.bigEndian_length 16 _, digest_suffix_iff, digest_byte_iff, ?_⟩
  intro a b i length differ same
  obtain ⟨p, x, y, s, hne, rfl, rfl⟩ := exists_split_of_differ length differ same
  exact fun h => hne ((digest_byte_iff p s x y).mp h)

/-- The middle byte alone differs, and in its lowest bit only. -/
theorem digest_append_iff_middle :
    digest [0xff, 0x02, 0x00] ≠ digest [0xff, 0x03, 0x00] := by
  refine digest_append_iff.2.2.2 [0xff, 0x02, 0x00] [0xff, 0x03, 0x00] 1 rfl (by decide) ?_
  intro j hj
  match j with
  | 0 | 2 => rfl
  | 1 => exact absurd rfl hj
  | _ + 3 => rfl

end Digest.Fnv

end TieredStore
