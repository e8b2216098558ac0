import TieredStore.Shell

/-!
# The program

Reads lines from the standard input as they come, takes each at the time that has passed since the
start, and writes the answers. The log and the errors go to the standard error stream.
-/

namespace TieredStore

/-- Writes what a transcript holds and ends as it says. -/
def finish (transcript : Shell.Transcript) : IO UInt32 := do
  let output ← IO.getStdout
  output.putStr transcript.output
  output.flush
  for line in transcript.errors do
    IO.eprintln line
  return transcript.exitCode.toUInt32

/-- Reads the next line, byte by byte so that a line is taken as soon as it is there; nothing at the
end. The bytes already read are given last first. -/
partial def readLine (input : IO.FS.Stream) (read : Bytes) : IO (Option Bytes) := do
  match (← input.read 1).toList with
  | [] => return if read.isEmpty then none else some read.reverse
  | byte :: _ =>
    if byte = 0x0a then return some (Shell.endedLine read) else readLine input (byte :: read)

/-- Takes line after line until the session or the input ends. -/
partial def converse (started : Nat) (input : IO.FS.Stream) (session : Shell.Session) :
    IO UInt32 := do
  match ← readLine input [] with
  | none => finish {}
  | some line =>
    let now := (← IO.monoNanosNow) - started
    match session.take now line with
    | .quit => finish {}
    | .garbled fault => finish (Shell.failed fault.message)
    | .goOn session answer =>
      let output ← IO.getStdout
      output.putStr (Shell.asOutput answer)
      output.flush
      converse started input session

end TieredStore

/-- Runs the shell. -/
def main (args : List String) : IO UInt32 := do
  let started ← IO.monoNanosNow
  match TieredStore.Shell.begin? args 0 with
  | .error transcript => TieredStore.finish transcript
  | .ok (session, log) =>
    log.forM fun entry => IO.eprintln entry
    TieredStore.converse started (← IO.getStdin) session
