/-!
# Byte strings

Keys, values and digests are lists of bytes. A list is what the rest of the library reasons
about: the empty key, the length of a value and the order of two keys are those of `List`, and
the order is the lexicographic one of the bytes.
-/

namespace TieredStore

/-- A string of bytes. -/
abbrev Bytes := List UInt8

namespace Bytes

/-- The UTF-8 encoding of a text. -/
def ofString (text : String) : Bytes :=
  text.toUTF8.toList

/-- The two hexadecimal digits of a byte, high digit first, letters in lower case. -/
def hexDigits (byte : UInt8) : List Char :=
  [Nat.digitChar (byte.toNat / 16), Nat.digitChar (byte.toNat % 16)]

/-- The bytes in hexadecimal, two digits each. -/
def hex (bytes : Bytes) : String :=
  String.ofList (bytes.flatMap hexDigits)

/-- The `count` low bytes of a number, lowest first. -/
def littleEndian (count : Nat) (value : Nat) : Bytes :=
  (List.range count).map fun i => UInt8.ofNat (value >>> (8 * i))

/-- The `count` low bytes of a number, highest first. -/
def bigEndian (count : Nat) (value : Nat) : Bytes :=
  (littleEndian count value).reverse

/-- The number whose bytes are given lowest first. -/
def toNatLE (bytes : Bytes) : Nat :=
  bytes.foldr (fun byte high => byte.toNat + 256 * high) 0

/-- The bytes cut into pieces of `size`, the last one possibly shorter; no piece is empty.
Nothing is cut when `size` is zero. -/
def chunks (size : Nat) (bytes : Bytes) : List Bytes :=
  if size = 0 ∨ bytes = [] then []
  else bytes.take size :: chunks size (bytes.drop size)
termination_by bytes.length
decreasing_by
  rename_i h
  have : 0 < bytes.length := List.length_pos_iff.2 fun empty => h (.inr empty)
  simp only [List.length_drop]
  omega

/-- As many bytes as were asked for, whatever the number. -/
@[simp] theorem littleEndian_length (count value : Nat) :
    (littleEndian count value).length = count := by
  simp [littleEndian]

/-- The other order has the same bytes. -/
@[simp] theorem bigEndian_length (count value : Nat) :
    (bigEndian count value).length = count := by
  simp [bigEndian]

end Bytes

end TieredStore
