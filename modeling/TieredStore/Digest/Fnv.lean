import TieredStore.Bytes

/-!
# The 128-bit FNV-1a digest

Each byte is added without carry to the low end of a 128-bit word, which is then multiplied by a
fixed odd prime. Both halves of the step can be undone, which is why a suffix shared by two inputs
never changes whether their digests agree.
-/

namespace TieredStore.Digest.Fnv

/-- The word before the first byte. -/
def offsetBasis : BitVec 128 := 0x6c62272e07bb014262b821756295c58d#128

/-- The multiplier of a step. -/
def prime : BitVec 128 := 0x0000000001000000000000000000013b#128

/-- The word after one more byte. -/
def step (word : BitVec 128) (byte : UInt8) : BitVec 128 :=
  (word ^^^ byte.toBitVec.setWidth 128) * prime

/-- The word after all bytes. -/
def word (data : Bytes) : BitVec 128 :=
  data.foldl step offsetBasis

/-- The digest: the sixteen bytes of the last word, highest first. -/
def digest (data : Bytes) : Bytes :=
  Bytes.bigEndian 16 (word data).toNat

end TieredStore.Digest.Fnv
