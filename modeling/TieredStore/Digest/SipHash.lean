import TieredStore.Bytes

/-!
# The keyed hash that places keys

SipHash with one round per word and three at the end, under the all-zero key. A key is hashed
behind its length, so that no key is the start of another's message.
-/

namespace TieredStore.Digest.SipHash

/-- The four words of the hash. -/
structure State where
  v0 : UInt64
  v1 : UInt64
  v2 : UInt64
  v3 : UInt64
  deriving DecidableEq, Repr

/-- The bits of a word moved up by `count` places, those pushed out coming back below. -/
def rotateLeft (word : UInt64) (count : Nat) : UInt64 :=
  UInt64.ofBitVec (word.toBitVec.rotateLeft count)

/-- One round. -/
def State.round (s : State) : State :=
  let v0 := s.v0 + s.v1
  let v1 := rotateLeft s.v1 13 ^^^ v0
  let v0 := rotateLeft v0 32
  let v2 := s.v2 + s.v3
  let v3 := rotateLeft s.v3 16 ^^^ v2
  let v0 := v0 + v3
  let v3 := rotateLeft v3 21 ^^^ v0
  let v2 := v2 + v1
  let v1 := rotateLeft v1 17 ^^^ v2
  let v2 := rotateLeft v2 32
  ⟨v0, v1, v2, v3⟩

/-- The state under the all-zero key. -/
def start : State :=
  ⟨0x736f6d6570736575, 0x646f72616e646f6d, 0x6c7967656e657261, 0x7465646279746573⟩

/-- The state after one word of the message. -/
def State.absorb (s : State) (word : UInt64) : State :=
  let mixed := State.round { s with v3 := s.v3 ^^^ word }
  { mixed with v0 := mixed.v0 ^^^ word }

/-- The words of a message: the whole ones, then one that holds the remaining bytes and, in its
top byte, the length. -/
def words (message : Bytes) : List UInt64 :=
  let whole := message.length / 8 * 8
  let last := Bytes.toNatLE (message.drop whole) + (message.length % 256) <<< 56
  (Bytes.chunks 8 (message.take whole)).map (fun piece => (Bytes.toNatLE piece).toUInt64) ++
    [last.toUInt64]

/-- The hash of a message. -/
def hash (message : Bytes) : UInt64 :=
  let absorbed := (words message).foldl State.absorb start
  let closing := { absorbed with v2 := absorbed.v2 ^^^ 0xff }
  let final := closing.round.round.round
  final.v0 ^^^ final.v1 ^^^ final.v2 ^^^ final.v3

/-- The hash of a key, which is preceded by its length as a 64-bit word. -/
def ofKey (key : Bytes) : UInt64 :=
  hash (Bytes.littleEndian 8 key.length ++ key)

end TieredStore.Digest.SipHash
