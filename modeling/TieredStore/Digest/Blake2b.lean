import TieredStore.Bytes

/-!
# The BLAKE2b-256 digest

BLAKE2b without a key and with a digest of 32 bytes: twelve rounds of eight mixing steps over a
block of sixteen 64-bit words, the last block filled up with zeros and flagged.
-/

namespace TieredStore.Digest.Blake2b

/-- The chaining value: eight words. -/
abbrev Chain := Vector UInt64 8

/-- The words mixed within one block. -/
abbrev Work := Vector UInt64 16

/-- The bits of a word moved down by `count` places, those pushed out coming back above. -/
def rotateRight (word : UInt64) (count : Nat) : UInt64 :=
  UInt64.ofBitVec (word.toBitVec.rotateRight count)

/-- The fixed words that start a chain and fill the lower half of the work. -/
def initial : Chain := #v[
  0x6a09e667f3bcc908, 0xbb67ae8584caa73b, 0x3c6ef372fe94f82b, 0xa54ff53a5f1d36f1,
  0x510e527fade682d1, 0x9b05688c2b3e6c1f, 0x1f83d9abfb41bd6b, 0x5be0cd19137e2179]

/-- The order in which each round takes the words of the block. -/
def schedule : List (Vector (Fin 16) 16) := [
  #v[0, 1, 2, 3, 4, 5, 6, 7, 8, 9, 10, 11, 12, 13, 14, 15],
  #v[14, 10, 4, 8, 9, 15, 13, 6, 1, 12, 0, 2, 11, 7, 5, 3],
  #v[11, 8, 12, 0, 5, 2, 15, 13, 10, 14, 3, 6, 7, 1, 9, 4],
  #v[7, 9, 3, 1, 13, 12, 11, 14, 2, 6, 5, 10, 4, 0, 15, 8],
  #v[9, 0, 5, 7, 2, 4, 10, 15, 14, 1, 11, 12, 6, 8, 3, 13],
  #v[2, 12, 6, 10, 0, 11, 8, 3, 4, 13, 7, 5, 15, 14, 1, 9],
  #v[12, 5, 1, 15, 14, 13, 4, 10, 0, 7, 6, 3, 9, 2, 8, 11],
  #v[13, 11, 7, 14, 12, 1, 3, 9, 5, 0, 15, 4, 8, 6, 2, 10],
  #v[6, 15, 14, 9, 11, 3, 0, 8, 12, 2, 13, 7, 1, 4, 10, 5],
  #v[10, 2, 8, 4, 7, 6, 1, 5, 15, 11, 9, 14, 3, 12, 13, 0],
  #v[0, 1, 2, 3, 4, 5, 6, 7, 8, 9, 10, 11, 12, 13, 14, 15],
  #v[14, 10, 4, 8, 9, 15, 13, 6, 1, 12, 0, 2, 11, 7, 5, 3]]

/-- The four words that each of the eight mixing steps of a round works on: columns, then
diagonals. -/
def quarters : List (Fin 16 × Fin 16 × Fin 16 × Fin 16) := [
  (0, 4, 8, 12), (1, 5, 9, 13), (2, 6, 10, 14), (3, 7, 11, 15),
  (0, 5, 10, 15), (1, 6, 11, 12), (2, 7, 8, 13), (3, 4, 9, 14)]

/-- One mixing step: two words of the block are stirred into four words of the work. -/
def mix (work : Work) (quarter : Fin 16 × Fin 16 × Fin 16 × Fin 16) (first second : UInt64) :
    Work :=
  let (ia, ib, ic, id) := quarter
  let a := work[ia] + work[ib] + first
  let d := rotateRight (work[id] ^^^ a) 32
  let c := work[ic] + d
  let b := rotateRight (work[ib] ^^^ c) 24
  let a := a + b + second
  let d := rotateRight (d ^^^ a) 16
  let c := c + d
  let b := rotateRight (b ^^^ c) 63
  (((work.set ia a).set ib b).set ic c).set id d

/-- One round: eight mixing steps, each taking the next two words of the round's order. -/
def round (block : Work) (work : Work) (order : Vector (Fin 16) 16) : Work :=
  let word (i : Nat) : UInt64 := block[order.toList.getD i 0]
  quarters.zipIdx.foldl
    (fun work (quarter, i) => mix work quarter (word (2 * i)) (word (2 * i + 1))) work

/-- The chain after one block; `total` counts the bytes up to its end and `isLast` flags the last
block. -/
def compress (chain : Chain) (block : Work) (total : Nat) (isLast : Bool) : Chain :=
  let upper := initial
    |>.set 4 (initial[4] ^^^ total.toUInt64)
    |>.set 5 (initial[5] ^^^ (total >>> 64).toUInt64)
  let upper := if isLast then upper.set 6 (~~~upper[6]) else upper
  let mixed := schedule.foldl (round block) (chain ++ upper)
  Vector.ofFn fun i => chain[i] ^^^ mixed[i.val] ^^^ mixed[i.val + 8]

/-- The sixteen words of a block, zeros after its end. -/
def words (block : Bytes) : Work :=
  let pieces := ((Bytes.chunks 8 block).map fun piece => (Bytes.toNatLE piece).toUInt64).toArray
  Vector.ofFn fun i => pieces.getD i 0

/-- The blocks of a message with the count of bytes up to the end of each. The empty message has
one block. -/
def blocks (data : Bytes) : List (Bytes × Nat) :=
  match Bytes.chunks 128 data with
  | [] => [([], 0)]
  | pieces => pieces.zipIdx.map fun (piece, i) => (piece, 128 * i + piece.length)

/-- The chain before the first block: no key, a digest of 32 bytes, one leaf. -/
def start : Chain :=
  initial.set 0 (initial[0] ^^^ 0x01010020)

/-- The digest: the first four words of the chain after the last block. -/
def digest (data : Bytes) : Bytes :=
  let chain := (blocks data).foldl
    (fun chain (block, total) => compress chain (words block) total (total == data.length)) start
  (chain.toList.take 4).flatMap fun word => Bytes.littleEndian 8 word.toNat

end TieredStore.Digest.Blake2b
