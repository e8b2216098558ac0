import TieredStore.Backing.Settings
import TieredStore.Cache.Settings
import TieredStore.Span
import TieredStore.Text.Numeral
import TieredStore.Tiers.Assembly

/-!
# Options of the shell

The flags of the command line are read from the left, each with the value behind it, and the first
thing wrong ends the reading. A flag may come more than once; the last value counts.
-/

namespace TieredStore.Shell

/-- How much of its work the shell logs. -/
inductive LogLevel
  | error
  | warn
  | info
  | debug
  | trace
  deriving DecidableEq, Repr

namespace LogLevel

/-- All levels, the one that logs least first; they are numbered from one in this order. -/
def all : List LogLevel := [error, warn, info, debug, trace]

/-- The level's name. -/
def name : LogLevel → String
  | error => "error"
  | warn => "warn"
  | info => "info"
  | debug => "debug"
  | trace => "trace"

/-- The level of a number or of a name in letters of any case. -/
def ofText? (text : String) : Option LogLevel :=
  match Numeral.read Numeral.greatest64 text with
  | .ok number => if number = 0 then none else all[number - 1]?
  | .error _ => all.find? fun level => level.name == text.map Char.toLower

end LogLevel

/-- What is wrong with the value of a flag. -/
inductive ValueFault
  /-- It names nothing that is supported. -/
  | unsupported (failure : Failure)
  /-- It is no numeral, or too large a one. -/
  | numeral (fault : NumeralFault)
  /-- It is no log level. -/
  | logLevel
  deriving DecidableEq, Repr

/-- The wording of what is wrong with a value. -/
def ValueFault.message : ValueFault → String
  | unsupported failure => failure.message
  | numeral fault => fault.message
  | logLevel => "error parsing level: expected one of \"error\", \"warn\", \"info\", \"debug\", " ++
      "\"trace\", or a number 1-5"

/-- What the command line sets. -/
structure Options where
  cacheKind : CacheKind := default
  capacity : Nat := 1000
  byteBudget : Nat := 0
  shards : Nat := 1
  storeKind : StoreKind := default
  path : String := ""
  /-- The most writes in a batch of the backing store. -/
  batchSize : Nat := 100
  /-- How long a key counts as seen, in nanoseconds. -/
  seenLifetime : Nat := 60 * Span.second
  logLevel : LogLevel := .info
  deriving DecidableEq, Repr

namespace Options

/-- The settings of the tiers behind the shell. -/
def tierSettings (o : Options) : TierSettings where
  cache := {
    name := "shell"
    kind := o.cacheKind
    byteBudget := o.byteBudget
    capacity := o.capacity
    shards := o.shards }
  store := { path := o.path, kind := o.storeKind, batchDelay := 1, batchSize := o.batchSize }

end Options

/-- The flags that take a value. -/
inductive Setting
  | cacheKind
  | capacity
  | byteBudget
  | shards
  | storeKind
  | path
  | batchSize
  | seenLifetime
  | logLevel
  deriving DecidableEq, Repr

namespace Setting

/-- The options with the value of a flag taken in. -/
def apply (setting : Setting) (value : String) (o : Options) : Except ValueFault Options :=
  let number (greatest : Nat) (take : Nat → Options) :=
    ((Numeral.read greatest value).map take).mapError ValueFault.numeral
  match setting with
  | cacheKind =>
    ((CacheKind.ofName value).map ({ o with cacheKind := · })).mapError .unsupported
  | capacity => number Numeral.greatest32 ({ o with capacity := · })
  | byteBudget => number Numeral.greatest64 ({ o with byteBudget := · })
  | shards => number Numeral.greatest32 ({ o with shards := · })
  | storeKind =>
    ((StoreKind.ofName value).map ({ o with storeKind := · })).mapError .unsupported
  | path => .ok { o with path := value }
  | batchSize => number Numeral.greatest64 ({ o with batchSize := · })
  | seenLifetime =>
    number Numeral.greatest64 fun seconds => { o with seenLifetime := seconds * Span.second }
  | logLevel =>
    match LogLevel.ofText? value with
    | some level => .ok { o with logLevel := level }
    | none => .error .logLevel

end Setting

/-- The flags of the command line. -/
inductive Flag
  | setting (setting : Setting)
  | help
  | version
  deriving DecidableEq, Repr

/-- The flag of a word. -/
def Flag.ofText? : String → Option Flag
  | "--cache-type" | "-c" => some (.setting .cacheKind)
  | "--capacity" => some (.setting .capacity)
  | "--size-in-bytes" => some (.setting .byteBudget)
  | "--shards" => some (.setting .shards)
  | "--db-type" | "-d" => some (.setting .storeKind)
  | "--path" => some (.setting .path)
  | "--max-batch-size" => some (.setting .batchSize)
  | "--seen-ttl" => some (.setting .seenLifetime)
  | "--log-level" | "-l" => some (.setting .logLevel)
  | "--help" | "-h" => some .help
  | "--version" | "-v" => some .version
  | _ => none

/-- Why a command line starts no session. -/
inductive Dismissal
  | help
  | version
  | unknownFlag (word : String)
  | missingValue (word : String)
  /-- The value of a flag cannot be taken in. -/
  | badValue (word : String) (fault : ValueFault)
  deriving DecidableEq, Repr

/-- The options with the flags of a command line taken in, from the left. -/
def Options.readFlags (o : Options) : List String → Except Dismissal Options
  | [] => .ok o
  | word :: rest =>
    match Flag.ofText? word with
    | none => .error (.unknownFlag word)
    | some .help => .error .help
    | some .version => .error .version
    | some (.setting setting) =>
      match rest with
      | [] => .error (.missingValue word)
      | value :: rest =>
        match setting.apply value o with
        | .error fault => .error (.badValue word fault)
        | .ok o => o.readFlags rest

end TieredStore.Shell
