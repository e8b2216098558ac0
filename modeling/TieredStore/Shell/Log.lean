import TieredStore.Shell.Options

/-!
# The log of the shell

What the log tells about the tiers that a session opens. The log is kept at a level and shows the
entries of that level and of those that log less. A value stands in an entry as it is, so a path
with line feeds spreads its entry over several lines.
-/

namespace TieredStore.Shell

/-- How many levels log less. -/
def LogLevel.rank : LogLevel → Nat
  | error => 0
  | warn => 1
  | info => 2
  | debug => 3
  | trace => 4

/-- An entry of the log, apart from the time at which it is made. -/
structure LogEntry where
  /-- The level from which on it is shown. -/
  level : LogLevel
  message : String
  /-- What it happened with, each value behind its name. -/
  values : List (String × String)
  deriving DecidableEq, Repr

/-- The text of an entry. -/
def LogEntry.text (entry : LogEntry) : String :=
  " ".intercalate (entry.message :: entry.values.map fun (name, value) => name ++ "=" ++ value)

namespace Options

/-- The entries that opening a session makes, in the order in which the tiers are assembled. -/
def openingEntries (o : Options) : List LogEntry :=
  let settings := o.tierSettings
  let kind := ("kind", settings.store.kind.name)
  let path := ("path", settings.store.path)
  [ ⟨.debug, "store opened", [kind, path]⟩,
    ⟨.info, "tiers assembled", [("cache", settings.cache.describe), kind, path]⟩ ]

/-- What the log shows of the opening of a session. -/
def openingLog (o : Options) : List String :=
  (o.openingEntries.filter fun entry => entry.level.rank ≤ o.logLevel.rank).map LogEntry.text

end Options

end TieredStore.Shell
