import TieredStore.Bytes

/-!
# The Keccak-256 digest

The Keccak sponge with a rate of 136 bytes and a digest of 32 bytes. A message is padded by a
byte `0x01`, zeros, and the top bit of the last byte of its last block: the rule from before the
standard, which puts two more bits in front.

The state holds twenty-five 64-bit lanes; lane `x + 5 * y` is the lane of column `x` and row `y`.
-/

namespace TieredStore.Digest.Keccak

/-- Twenty-five lanes. -/
abbrev State := Vector UInt64 25

/-- The lane of a column and a row, both taken modulo five. -/
def lane (state : State) (x y : Nat) : UInt64 :=
  state[x % 5 + 5 * (y % 5)]

/-- A state given lane by lane. -/
def ofLanes (f : Nat → Nat → UInt64) : State :=
  Vector.ofFn fun i => f (i.val % 5) (i.val / 5)

/-- The bits of a word moved up by `count` places, those pushed out coming back below. -/
def rotateLeft (word : UInt64) (count : Nat) : UInt64 :=
  UInt64.ofBitVec (word.toBitVec.rotateLeft count)

/-- How far each lane is rotated. -/
def rotations : Vector Nat 25 := #v[
  0, 1, 62, 28, 27,
  36, 44, 6, 55, 20,
  3, 10, 43, 25, 39,
  41, 45, 15, 21, 8,
  18, 2, 61, 56, 14]

/-- What each round adds to the first lane. -/
def roundConstants : List UInt64 := [
  0x0000000000000001, 0x0000000000008082, 0x800000000000808a, 0x8000000080008000,
  0x000000000000808b, 0x0000000080000001, 0x8000000080008081, 0x8000000000008009,
  0x000000000000008a, 0x0000000000000088, 0x0000000080008009, 0x000000008000000a,
  0x000000008000808b, 0x800000000000008b, 0x8000000000008089, 0x8000000000008003,
  0x8000000000008002, 0x8000000000000080, 0x000000000000800a, 0x800000008000000a,
  0x8000000080008081, 0x8000000000008080, 0x0000000080000001, 0x8000000080008008]

/-- Adds to each lane the parities of the column before it and of the rotated column after it. -/
def theta (state : State) : State :=
  let parity : Vector UInt64 5 := Vector.ofFn fun x =>
    lane state x 0 ^^^ lane state x 1 ^^^ lane state x 2 ^^^ lane state x 3 ^^^ lane state x 4
  ofLanes fun x y =>
    lane state x y ^^^ parity[(x + 4) % 5] ^^^ rotateLeft parity[(x + 1) % 5] 1

/-- Rotates every lane by its own amount and moves column `x`, row `y` to column `y`, row
`2 * x + 3 * y`. -/
def rhoPi (state : State) : State :=
  ofLanes fun x y =>
    let source := (x + 3 * y) % 5
    rotateLeft (lane state source x) rotations[source + 5 * (x % 5)]

/-- Adds to each lane the bits set in the second lane after it and clear in the first. -/
def chi (state : State) : State :=
  ofLanes fun x y => lane state x y ^^^ (~~~(lane state (x + 1) y) &&& lane state (x + 2) y)

/-- One round. -/
def round (state : State) (constant : UInt64) : State :=
  let mixed := chi (rhoPi (theta state))
  mixed.set 0 (mixed[0] ^^^ constant)

/-- The permutation: twenty-four rounds. -/
def permute (state : State) : State :=
  roundConstants.foldl round state

/-- How many bytes a block holds. -/
def rate : Nat := 136

/-- The message with its padding, a whole number of blocks. -/
def pad (data : Bytes) : Bytes :=
  match rate - data.length % rate with
  | 0 | 1 => data ++ [0x81]
  | missing => data ++ 0x01 :: List.replicate (missing - 2) 0 ++ [0x80]

/-- The state after one block was added and permuted. -/
def absorb (state : State) (block : Bytes) : State :=
  let words := ((Bytes.chunks 8 block).map fun piece => (Bytes.toNatLE piece).toUInt64).toArray
  permute (Vector.ofFn fun i => state[i] ^^^ words.getD i 0)

/-- The digest: the first four lanes after the last block. -/
def digest (data : Bytes) : Bytes :=
  let final := (Bytes.chunks rate (pad data)).foldl absorb (Vector.replicate 25 0)
  (final.toList.take 4).flatMap fun word => Bytes.littleEndian 8 word.toNat

end TieredStore.Digest.Keccak
