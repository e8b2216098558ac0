import TieredStore.Text.Blank

/-!
# Commands of the shell

A line holds one command: its first word, in letters of any case, says which, and what follows is
its argument. Blanks around the word and the argument do not count.
-/

namespace TieredStore.Shell

/-- What a line asks for. -/
inductive Command
  /-- Nothing: the line is blank. -/
  | nothing
  | quit
  | put (key value : String)
  | get (key : String)
  | has (key : String)
  | delete (key : String)
  | keys
  /-- Ask whether a key was seen before, and remember it. -/
  | seen (key : String)
  /-- Hash some data by a named algorithm. -/
  | hash (algorithm data : String)
  | stats
  /-- A command without the argument that it needs; how it is used. -/
  | misused (usage : String)
  /-- No command has this word. -/
  | unknown (word : String)
  deriving DecidableEq, Repr

namespace Command

/-- A command on a key, which is the whole argument. -/
def onKey (word : String) (command : String → Command) (argument : List Char) : Command :=
  if argument.isEmpty then .misused (word ++ " <key>") else command (String.ofList argument)

/-- A command on a word and all that follows it. -/
def onPair (usage : String) (command : String → String → Command) (argument : List Char) :
    Command :=
  match Text.splitAtBlank? argument with
  | none => .misused usage
  | some (first, rest) => command (String.ofList first) (String.ofList (Text.trim rest))

/-- A line's first word and its argument, without the blanks around them. -/
def split (line : String) : List Char × List Char :=
  let text := Text.trim line.toList
  match Text.splitAtBlank? text with
  | none => (text, [])
  | some (word, rest) => (word, Text.trim rest)

/-- The command of a line. -/
def ofLine (line : String) : Command :=
  let (word, argument) := split line
  match String.ofList (word.map Char.toUpper) with
  | "" => .nothing
  | "QUIT" | "EXIT" => .quit
  | "PUT" => onPair "PUT <key> <value>" .put argument
  | "GET" => onKey "GET" .get argument
  | "HAS" => onKey "HAS" .has argument
  | "DEL" => onKey "DEL" .delete argument
  | "KEYS" => .keys
  | "SEEN" => onKey "SEEN" .seen argument
  | "HASH" => onPair "HASH <alg> <data>" .hash argument
  | "STATS" => .stats
  | _ => .unknown (String.ofList word)

end Command

end TieredStore.Shell
