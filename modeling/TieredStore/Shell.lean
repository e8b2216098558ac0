import TieredStore.Shell.Log
import TieredStore.Shell.Session

/-!
# The shell

A command line and lines of input make a transcript: what is written to the output, which errors
are reported, and how the program ends. Each line comes with the instant at which it was read, so
a transcript is a function of what the outside world contributes.

`begin?` and `Session.take` are the two steps by which a program goes along line by line; `run`
strings them together.
-/

namespace TieredStore.Shell

/-- What a run of the shell leaves behind. -/
structure Transcript where
  /-- How the program ends: zero if all went well. -/
  exitCode : Nat := 0
  output : String := ""
  /-- What the log shows, entry by entry. -/
  log : List String := []
  /-- The errors reported behind the log, line by line. -/
  errors : List String := []
  deriving DecidableEq, Repr

/-- Some lines as they are written to the output, each with a line feed at its end. -/
def asOutput (lines : List String) : String :=
  String.join (lines.map (· ++ "\n"))

/-- The line that says which version this is. -/
def versionLine : String := "ChainStore version 0.1.0"

/-- How the shell is used, line by line. -/
def helpLines : List String := [
  "",
  "ChainStore - Tiered Storage Units for Node Data",
  "",
  "USAGE:",
  "    chainstore [OPTIONS]",
  "",
  "OPTIONS:",
  "    -c, --cache-type <TYPE>      LRU, SizeLRU or FIFOSharded (default: LRU)",
  "        --capacity <N>           Maximum cached entries (default: 1000)",
  "        --size-in-bytes <N>      Byte budget, SizeLRU only (default: 0)",
  "        --shards <N>             Shard count, FIFOSharded only (default: 1)",
  "    -d, --db-type <TYPE>         Persister kind (default: MemoryDB)",
  "        --path <PATH>            Persister location (default: none)",
  "        --max-batch-size <N>     Persister batch size (default: 100)",
  "        --seen-ttl <SECONDS>     Lifetime of SEEN entries (default: 60)",
  "    -l, --log-level <LEVEL>      trace, debug, info, warn or error (default: info)",
  "    -v, --version                Print version information",
  "    -h, --help                   Print this help message",
  "",
  "COMMANDS (one per line on stdin):",
  "    PUT <key> <value>     Store a value",
  "    GET <key>             Read a value",
  "    HAS <key>             Check whether a key is stored",
  "    DEL <key>             Remove a key",
  "    KEYS                  List persisted keys",
  "    SEEN <key>            Record a key, report whether it was seen recently",
  "    HASH <alg> <data>     Hash data with Keccak, Blake2b or Fnv",
  "    STATS                 Show cache statistics",
  "    QUIT                  Exit",
  "",
  "EXAMPLES:",
  "    $ printf 'PUT a 1\\nGET a\\n' | chainstore --capacity 2 --max-batch-size 2",
  "    OK",
  "    \"1\"",
  ""]

/-- The transcript of a run that ends with an error. -/
def failed (message : String) : Transcript :=
  { exitCode := 1, errors := ["Error: " ++ message] }

/-- The transcript of a command line that starts no session. -/
def Dismissal.transcript : Dismissal → Transcript
  | help => { output := asOutput helpLines }
  | version => { output := asOutput [versionLine] }
  | unknownFlag word =>
    { exitCode := 1, output := asOutput helpLines, errors := ["Unknown argument: " ++ word] }
  | missingValue word => failed (word ++ " requires a value")
  | badValue word fault => failed ("invalid value for " ++ word ++ ": " ++ fault.message)

/-- The session that a command line starts at an instant, with what the log shows of it so far, or
the transcript if it starts none. -/
def begin? (args : List String) (now : Nat) : Except Transcript (Session × List String) :=
  match Options.readFlags {} args with
  | .error dismissal => .error dismissal.transcript
  | .ok options =>
    match Session.start options now with
    | .error failure => .error (failed failure.message)
    | .ok session => .ok (session, options.openingLog)

/-- What a line of input leads to. -/
inductive Turn
  /-- The session goes on, with some lines in answer. -/
  | goOn (session : Session) (answer : List String)
  | quit
  /-- The line is no text. -/
  | garbled (fault : Utf8.Fault)

/-- Takes a line read at an instant, after the sweeps that are due by then. -/
def Session.take (s : Session) (now : Nat) (line : Bytes) : Turn :=
  match Utf8.decode line with
  | .error fault => .garbled fault
  | .ok text =>
    match (s.catchUp now).respond now (Command.ofLine text) with
    | (.farewell, _) => .quit
    | (.lines answer, s) => .goOn s answer

/-- The transcript of a session from here on, behind the output written so far. -/
def Session.converse (s : Session) (output : String) : List (Nat × Bytes) → Transcript
  | [] => { output }
  | (now, line) :: rest =>
    match s.take now line with
    | .quit => { output }
    | .garbled fault => { failed fault.message with output }
    | .goOn s answer => s.converse (output ++ asOutput answer) rest

/-- The transcript of a command line and the lines of input, each with the instant at which it was
read; the program starts at instant zero. -/
def run (args : List String) (input : List (Nat × Bytes)) : Transcript :=
  match begin? args 0 with
  | .error transcript => transcript
  | .ok (session, log) => { session.converse "" input with log }

/-- The line that a line feed ends, from the bytes before it, last first: a carriage return right
before the line feed belongs to the end of the line. -/
def endedLine (read : Bytes) : Bytes :=
  (if read.head? = some 0x0d then read.tail else read).reverse

/-- The lines of some bytes behind those of an unfinished line, which are given last first. -/
def linesFrom (unfinished : Bytes) : Bytes → List Bytes
  | [] => if unfinished.isEmpty then [] else [unfinished.reverse]
  | byte :: rest =>
    if byte = 0x0a then endedLine unfinished :: linesFrom [] rest
    else linesFrom (byte :: unfinished) rest

/-- The lines of an input: a line feed ends a line, together with one carriage return before it,
and what follows the last line feed is a line as it stands unless it is empty. -/
def lines (input : Bytes) : List Bytes :=
  linesFrom [] input

end TieredStore.Shell
