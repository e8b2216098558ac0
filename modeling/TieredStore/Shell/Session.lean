import TieredStore.Backing.Opener
import TieredStore.Digest
import TieredStore.Expiry.Timeline
import TieredStore.Shell.Command
import TieredStore.Shell.Options
import TieredStore.Text.Utf8

/-!
# Sessions of the shell

A session has tiers over a store in memory and a set of keys seen lately, which a sweeper goes
through in the background. `Session.respond` carries out one command at an instant and gives the
answer to it; the instant matters only to the keys seen.

What is shown of stored bytes stands in quotes, so that it is one line whatever the bytes are, and
never looks like another kind of answer.
-/

namespace TieredStore.Shell

/-- What the shell works on. -/
structure Session where
  tiers : Tiers Cache MemoryStore
  /-- The keys seen lately. -/
  seen : ExpiringSet
  /-- What sweeps them. -/
  sweeper : Sweeper
  ledger : CapacityLedger

/-- The answer to a command. -/
inductive Response
  /-- Some lines, or none at all. -/
  | lines (lines : List String)
  | farewell
  deriving DecidableEq, Repr

namespace Response

/-- The answer of one line. -/
def line (text : String) : Response := .lines [text]

/-- The answer that something was done. -/
def ok : Response := .line "OK"

/-- The answer that something went wrong. -/
def error (message : String) : Response := .line ("(error) " ++ message)

/-- The answer to a command that can fail and has nothing to show when it does not. -/
def ofOutcome : Except Failure Unit → Response
  | .ok () => ok
  | .error failure => error failure.message

/-- The answer that tells whether something is there. -/
def ofPresence (isThere : Bool) : Response :=
  .line (if isThere then "(integer) 1" else "(integer) 0")

/-- Bytes shown in quotes, as the text that they are or nearly are. -/
def quoted (bytes : Bytes) : String :=
  Text.quote (Utf8.lossyText bytes)

/-- The line for a key in its place on a list. -/
def numbered (place : Nat) (key : Bytes) : String :=
  toString place ++ ") " ++ quoted key

/-- The list of some keys, one line for each, numbered from one. -/
def ofKeys : List Bytes → Response
  | [] => .line "(empty)"
  | keys => .lines (keys.zipIdx.map fun (key, i) => numbered (i + 1) key)

end Response

namespace Session

/-- Opens a session at an instant, with a store in memory that is enumerated in some order. -/
def start (options : Options) (now : Nat) (order : Enumeration := .byKey) :
    Except Failure Session :=
  let settings := options.tierSettings
  let opener : StoreOpener Unit MemoryStore := .standard ({ · with order }) settings.store
  let assembly := Tiers.assemble settings {} opener.create {} ()
  assembly.outcome.map fun tiers =>
    { tiers
      seen := .empty options.seenLifetime
      sweeper := .start {} now
      ledger := assembly.ledger }

/-- Carries out the sweeps that are due by an instant. -/
def catchUp (s : Session) (now : Nat) : Session :=
  let (sweeper, seen) := s.sweeper.catchUp s.seen now
  { s with sweeper, seen }

/-- The keys stored, sorted by their bytes. -/
def storedKeys (s : Session) : List Bytes × Session :=
  let (tiers, keys) := s.tiers.walk (fun pair (tiers, keys) => (true, tiers, pair.1 :: keys)) []
  (keys.reverse.mergeSort fun a b => (compare a b).isLE, { s with tiers })

/-- Tells whether a key was seen lately; one that was not is remembered from now on. -/
def see (s : Session) (now : Nat) (key : String) : Response × Session :=
  match s.seen.has now key with
  | (true, seen) => (.line "seen", { s with seen })
  | (false, seen) =>
    match seen.add now key with
    | .ok seen => (.line "new", { s with seen })
    | .error failure => (.error failure.message, { s with seen })

/-- What the cache holds, line by line. -/
def statistics (s : Session) : List String :=
  let stats := s.tiers.stats
  [ "cached_entries:" ++ toString stats.entries,
    "cached_bytes:" ++ ByteCount.render stats.bytes,
    "max_cached_entries:" ++ toString stats.capacity,
    "seen_entries:" ++ toString s.seen.size,
    "cumulated_cache_capacity:" ++ s.ledger.render ]

/-- Carries out a command at an instant. -/
def respond (s : Session) (now : Nat) : Command → Response × Session
  | .nothing => (.lines [], s)
  | .quit => (.farewell, s)
  | .put key value =>
    (s.tiers.put (Bytes.ofString key) (Bytes.ofString value)).map Response.ofOutcome
      ({ s with tiers := · })
  | .get key =>
    match s.tiers.get (Bytes.ofString key) with
    | (.ok value, tiers) => (.line (Response.quoted value), { s with tiers })
    | (.error failure, tiers) => (.error failure.message, { s with tiers })
  | .has key =>
    (s.tiers.has (Bytes.ofString key)).map (fun outcome => .ofPresence outcome.isOk)
      ({ s with tiers := · })
  | .delete key =>
    (s.tiers.remove (Bytes.ofString key)).map Response.ofOutcome ({ s with tiers := · })
  | .keys => s.storedKeys.map Response.ofKeys id
  | .seen key => s.see now key
  | .hash algorithm data =>
    match DigestKind.ofName algorithm with
    | .ok kind => (.line (Bytes.hex (kind.digest (Bytes.ofString data))), s)
    | .error failure => (.error failure.message, s)
  | .stats => (.lines s.statistics, s)
  | .misused usage => (.error ("usage: " ++ usage), s)
  | .unknown word => (.error ("unknown command '" ++ word ++ "'"), s)

end Session

end TieredStore.Shell
