import TieredStore.Text.Utf8

/-!
# Texts as bytes

A text becomes bytes when it is stored and a text again when it is shown. Nothing is lost on the
way: the bytes of a text are read back as that text by all readings (`Utf8.text?_ofString`), so two
texts with the same bytes are the same (`Bytes.ofString_inj`). Neither is there anything in the
bytes that is not in the text: a byte of an ASCII character stands for that character and is no part
of another (`Bytes.exists_of_mem_ofString`, `Bytes.notMem_ofString`).
-/

namespace TieredStore

/-- A byte array is listed from its front to its end, behind what was listed before. -/
private theorem listed_loop (bytes : ByteArray) :
    ∀ (i : Nat) (before : List UInt8),
      ByteArray.toList.loop bytes i before = before.reverse ++ bytes.data.toList.drop i := by
  intro i before
  induction i, before using ByteArray.toList.loop.induct bytes with
  | case1 i before h ih =>
    have hi : i < bytes.data.toList.length := h
    have hget : bytes.get! i = bytes.data.toList[i] := getElem!_pos bytes.data i h
    rw [ByteArray.toList.loop, if_pos h, ih, List.reverse_cons, List.append_assoc, hget,
      List.singleton_append, ← List.drop_eq_getElem_cons hi]
  | case2 i before h =>
    rw [ByteArray.toList.loop, if_neg h, List.drop_eq_nil_of_le (Nat.le_of_not_lt h),
      List.append_nil]

/-- The bytes of a text are those of its own encoding. -/
theorem Bytes.ofString_eq (text : String) : ofString text = text.toByteArray.data.toList := by
  rw [ofString, String.toUTF8, ByteArray.toList, listed_loop]
  rfl

namespace Utf8

/-- The bytes of a text are read back as the text. -/
theorem text?_ofString (text : String) : text? (Bytes.ofString text) = some text := by
  have hbytes : (⟨(Bytes.ofString text).toArray⟩ : ByteArray) = text.toByteArray := by
    rw [Bytes.ofString_eq]
  rw [text?, hbytes, String.fromUTF8?, dif_pos text.isValidUTF8]
  rfl

/-- Nothing is wrong with the bytes of a text. -/
theorem decode_ofString (text : String) : decode (Bytes.ofString text) = .ok text := by
  rw [decode, text?_ofString]

/-- Nothing of a text is lost on the way through its bytes, so no replacement is made. -/
theorem lossyText_ofString (text : String) : lossyText (Bytes.ofString text) = text := by
  rw [lossyText, text?_ofString, Option.getD_some]

end Utf8

/-- Texts with the same bytes are the same. -/
theorem Bytes.ofString_inj {a b : String} : ofString a = ofString b ↔ a = b := by
  constructor
  · intro h
    have hread := Utf8.text?_ofString a
    rw [h, Utf8.text?_ofString] at hread
    exact (Option.some.inj hread).symm
  · exact congrArg ofString

/-! ## The bytes of the characters -/

theorem Bytes.ofString_append (a b : String) : ofString (a ++ b) = ofString a ++ ofString b := by
  rw [ofString_eq, ofString_eq, ofString_eq, String.toByteArray_append, ByteArray.data_append,
    Array.toList_append]

theorem Bytes.ofString_ofList (text : List Char) :
    ofString (String.ofList text) = text.flatMap String.utf8EncodeChar := by
  rw [ofString_eq, String.toByteArray_ofList, List.utf8Encode, List.data_toByteArray]

/-- A byte below 128 in the encoding of a character is that character: the bytes of longer encodings
all have their first bit set. -/
theorem toNat_of_mem_utf8EncodeChar {c : Char} {byte : UInt8}
    (h : byte ∈ String.utf8EncodeChar c) (ascii : byte.toNat < 0x80) : c.toNat = byte.toNat := by
  change c.val.toNat = _
  rw [String.utf8EncodeChar.eq_1] at h
  generalize c.val.toNat = v at h ⊢
  -- a character beyond ASCII has only bytes with the highest bit set
  have hmarked (part mark : Nat) (hlow : 128 ≤ mark) (hhigh : part + mark < 256)
      (heq : byte = UInt8.ofNat (part + mark)) : v = byte.toNat := by
    rw [heq, UInt8.toNat_ofNat', Nat.mod_eq_of_lt hhigh] at ascii
    omega
  split at h
  case isTrue =>
    rw [List.mem_singleton.mp h, UInt8.toNat_ofNat']
    omega
  split at h
  case isTrue =>
    simp only [List.mem_cons, List.not_mem_nil, or_false] at h
    rcases h with h | h <;> exact hmarked _ _ (by decide) (by omega) h
  split at h
  case isTrue =>
    simp only [List.mem_cons, List.not_mem_nil, or_false] at h
    rcases h with h | h | h <;> exact hmarked _ _ (by decide) (by omega) h
  case isFalse =>
    simp only [List.mem_cons, List.not_mem_nil, or_false] at h
    rcases h with h | h | h | h <;> exact hmarked _ _ (by decide) (by omega) h

/-- A byte in the range of ASCII stands for its character. -/
theorem Bytes.exists_of_mem_ofString {text : String} {byte : UInt8} (h : byte ∈ ofString text)
    (ascii : byte.toNat < 0x80) : ∃ c ∈ text.toList, c.toNat = byte.toNat := by
  rw [← String.ofList_toList (s := text), ofString_ofList, List.mem_flatMap] at h
  obtain ⟨c, hc, hbyte⟩ := h
  exact ⟨c, hc, toNat_of_mem_utf8EncodeChar hbyte ascii⟩

/-- The byte of an ASCII character that a text has not is not among its bytes either. -/
theorem Bytes.notMem_ofString {text : String} {c : Char} (ascii : c.toNat < 0x80)
    (absent : c ∉ text.toList) : UInt8.ofNat c.toNat ∉ ofString text := by
  intro hmem
  have hcode : (UInt8.ofNat c.toNat).toNat = c.toNat := by
    rw [UInt8.toNat_ofNat', Nat.mod_eq_of_lt (by omega)]
  obtain ⟨d, hd, hsame⟩ := exists_of_mem_ofString hmem (by omega)
  rw [hcode, Char.toNat_inj] at hsame
  exact absent (hsame ▸ hd)

end TieredStore
