import TieredStore.Digest.Blake2b
import TieredStore.Digest.Fnv
import TieredStore.Digest.Keccak
import TieredStore.Failure

/-!
# Digests by name

The digest algorithms that settings and the shell refer to by name.
-/

namespace TieredStore

/-- A digest algorithm. -/
inductive DigestKind
  | keccak
  | blake2b
  | fnv
  deriving DecidableEq, Repr

namespace DigestKind

/-- The algorithm's name. -/
def name : DigestKind → String
  | keccak => "Keccak"
  | blake2b => "Blake2b"
  | fnv => "Fnv"

/-- All algorithms. -/
def all : List DigestKind := [keccak, blake2b, fnv]

/-- The algorithm of a name, which is taken to the letter. -/
def ofName (name : String) : Except Failure DigestKind :=
  match all.find? fun kind => kind.name == name with
  | some kind => .ok kind
  | none => .error (.unknownDigest name)

/-- How many bytes a digest has. -/
def size : DigestKind → Nat
  | keccak => 32
  | blake2b => 32
  | fnv => 16

/-- The digest of some bytes. -/
def digest : DigestKind → Bytes → Bytes
  | keccak => Digest.Keccak.digest
  | blake2b => Digest.Blake2b.digest
  | fnv => Digest.Fnv.digest

end DigestKind

end TieredStore
