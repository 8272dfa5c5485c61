import Lisplet.CommandLine.Run
import Lisplet.Text.Decode

/-!
# The program

Reads the command line, the file and the lines that the user types, and writes what the pure part of
the program answers.
-/

namespace Lisplet.CommandLine

/-- The text of a file, if it can be read. -/
def readText (path : String) : IO (Option String) := do
  try
    return Text.decode? (← IO.FS.readBinFile path)
  catch _ =>
    return none

/-- Writes what a run of the program has written and gives its exit code. -/
def finish (r : Result) : IO UInt32 := do
  IO.print r.stdout
  IO.eprint r.stderr
  return UInt32.ofNat r.code.toNat

/-- Answers lines in order; there is no session afterwards if the shell is to stop. -/
def answer (session : Session) : List String → IO (Option Session)
  | [] => return some session
  | line :: lines => do
    let reply := Shell.enter session line
    IO.print (reply.trace.output ++ reply.said)
    IO.eprint reply.trace.reports
    if reply.stop then return none else answer reply.session lines

/-- Reads and answers lines until the shell is to stop.  The end of the input is a line of its own.
-/
partial def converseWith (input output : IO.FS.Stream) (session : Session) : IO Unit := do
  output.putStr Shell.prompt
  output.flush
  let typed := String.ofList (Text.unifyLineEnds (← input.getLine).toList)
  match ← answer session (if typed.isEmpty then ["EOF"] else inputLines typed) with
  | some session => converseWith input output session
  | none => return

end Lisplet.CommandLine

open Lisplet CommandLine in
/-- Runs the program on its arguments. -/
def main (arguments : List String) : IO UInt32 := do
  match plan arguments with
  | .answer r => finish r
  | .file o path => finish (runFile o path (← readText path))
  | .shell o =>
    IO.print Shell.intro
    converseWith (← IO.getStdin) (← IO.getStdout) (newShell o)
    return 0
