import TieredStore.Expiry.ExpiringSet

/-!
# Peers remembered for a while

Peers are known by their identifiers, which are ordered as texts are: by their code points, which
is also the order of their UTF-8 bytes. A record of peers is an expiring set of their identifiers.
-/

namespace TieredStore

/-- A peer, which is its identifier and nothing else. -/
structure Peer where
  id : String
  deriving DecidableEq, Repr

namespace Peer

/-- Peers in the order of their identifiers, equal ones kept. -/
def sort (peers : List Peer) : List Peer :=
  peers.mergeSort fun a b => !(b.id < a.id)

instance : ToString Peer := ⟨id⟩

end Peer

/-- An expiring set seen as a record of peers. -/
structure PeerRecord where
  seen : ExpiringSet

namespace PeerRecord

/-- Remembering a peer is remembering its identifier. -/
def remember (peer : Peer) (lifetime : Nat) : ExpiringSet.Operation :=
  .remember peer.id lifetime

/-- Asking for a peer is asking for its identifier. -/
def has (peer : Peer) : ExpiringSet.Operation :=
  .has peer.id

/-- Sweeping a record is sweeping its set. -/
def sweep : ExpiringSet.Operation :=
  .sweep

/-- The record in one line. -/
def describe (r : PeerRecord) : String :=
  "PeerTimeCache \x7b entries: " ++ toString r.seen.size ++ " \x7d"

end PeerRecord

end TieredStore
