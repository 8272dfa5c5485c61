import Lisplet.CommandLine.Arguments
import Lisplet.Shell

/-!
# Running the program

What a command line does, given the texts of the files and the input of the user: it runs a file or
lists its tokens or trees, or it opens the shell and reads lines until it is told to stop or there
are no more.
-/

namespace Lisplet.CommandLine

/-- How the program ends: its exit code and what it wrote. -/
structure Result where
  code : Int
  stdout : String
  stderr : String
deriving DecidableEq

/-- The first line of every message on usage. -/
def usageLine : String := "usage: tarantula [-h] [--no-color] [--tokens | --ast] [file ...]\n"

/-- What a request for help is answered with. -/
def helpText : String :=
  usageLine ++ "\n".intercalate
    ["",
     "tarantula language interpreter",
     "",
     "positional arguments:",
     "  file        file to interpret and run (if empty, goes to command-line mode)",
     "",
     "options:",
     "  -h, --help  show this help message and exit",
     "  --no-color  do not color error messages",
     "  --tokens    print the tokens of the file instead of running it",
     "  --ast       print the syntax tree of the file instead of running it",
     ""]

/-- A refused command line. -/
def refuse (e : UsageError) : Result :=
  ⟨2, "", usageLine ++ "tarantula: error: " ++ e.message ++ "\n"⟩

/-- More files than one. -/
def tooManyFiles : Result := ⟨64, "Usage: tarantula [script]\n", ""⟩

/-- The exit code after a guarded block. -/
def exitCode : Ending → Int
  | .goesOn => 0
  | .leaves (.exit code) => code.getD 0
  | _ => 1

/-- What the options ask to be done with a file's text. -/
def workOn (o : Options) (text : String) : Work Unit :=
  if o.tokens then Work.showTokens text
  else if o.tree then Work.showTree text
  else Work.run text

/-- Works on a file, given its text if it can be read. -/
def runFile (o : Options) (path : String) (text : Option String) : Result :=
  match Session.start (Reporter.new true (!o.plain)) path false text with
  | (reporter, .error f) =>
    let handling := reporter.leave (some (.failure f))
    ⟨exitCode handling.ending, "", handling.written⟩
  | (_, .ok session) =>
    let (_, trace, ending) := (workOn o (session.text.getD "")).guarded session
    ⟨exitCode ending, trace.output ++ trace.listing, trace.reports⟩

/-! ### The shell -/

/-- The session of a shell that has read nothing yet. -/
def newShell (o : Options) : Session := Session.typed (Reporter.new true (!o.plain))

/-- The lines of an input.  A line feed at the end begins no line. -/
def inputLines (input : String) : List String :=
  let pieces := Text.lines input.toList
  (if pieces.getLast? = some [] then pieces.dropLast else pieces).map String.ofList

/-- What the shell writes for lines of input; after the last one the input ends. -/
def converse (session : Session) : List String → Result
  | [] =>
    let reply := Shell.enter session "EOF"
    ⟨0, Shell.prompt ++ reply.trace.output ++ reply.said, reply.trace.reports⟩
  | line :: lines =>
    let reply := Shell.enter session line
    let stdout := Shell.prompt ++ reply.trace.output ++ reply.said
    if reply.stop then ⟨0, stdout, reply.trace.reports⟩
    else
      let rest := converse reply.session lines
      ⟨rest.code, stdout ++ rest.stdout, reply.trace.reports ++ rest.stderr⟩

/-- Opens the shell on an input. -/
def runShell (o : Options) (input : String) : Result :=
  let result := converse (newShell o) (inputLines input)
  { result with stdout := Shell.intro ++ result.stdout }

/-! ### The whole program -/

/-- What is to be done for a command line. -/
inductive Plan where
  /-- Nothing more than to write an answer. -/
  | answer (r : Result)
  | file (o : Options) (path : String)
  | shell (o : Options)
deriving DecidableEq

/-- What a command line asks for; it may name one file at most. -/
def plan (arguments : List String) : Plan :=
  match read arguments with
  | .error e => .answer (refuse e)
  | .ok .help => .answer ⟨0, helpText, ""⟩
  | .ok (.run o) =>
    match o.files with
    | [] => .shell o
    | [path] => .file o path
    | _ => .answer tooManyFiles

/-- Runs the program. -/
def run (arguments : List String) (readFile : String → Option String) (input : String) : Result :=
  match plan arguments with
  | .answer r => r
  | .file o path => runFile o path (readFile path)
  | .shell o => runShell o input

end Lisplet.CommandLine
