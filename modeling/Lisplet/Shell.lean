import Lisplet.Session

/-!
# The shell

Lines typed by the user, each a unit of its own or one of three commands.
-/

namespace Lisplet.Shell

/-- What the shell says at its start. -/
def intro : String :=
  "tarantula interpreter :: Python backend\nType 'help' for more information.\n"

/-- What the shell writes before it reads a line. -/
def prompt : String := "> "

/-- What the help command says. -/
def help : String :=
  "\n".intercalate
    ["Welcome to the tarantula interpreter!",
     "",
     "tarantula is a small functional language written in S-expressions. It has ",
     "numbers, strings, booleans, null, arithmetic, comparisons, 'let' bindings, ",
     "'if', 'cond', 'and', 'or' and 'print'/'println'.",
     "",
     "Try it out by typing '(let [x 1 y (+ x 1)] (println x y))'. This binds 1 to ",
     "'x' and 2 to 'y', then prints both on their own line.",
     ""]

/-- What a line asks for. -/
inductive Request where
  | nothing
  | help
  | exit
  | endOfInput
  | unit (source : String)
deriving DecidableEq

/-- A command stands alone on its line, but for blanks around it. -/
def Request.ofLine (line : String) : Request :=
  if line.isEmpty then nothing
  else
    match String.ofList (Text.trim line.toList) with
    | "help" => help
    | "exit" => exit
    | "EOF" => endOfInput
    | _ => unit line

/-- What becomes of a line. -/
structure Reply where
  session : Session
  /-- Whether the shell is to stop. -/
  stop : Bool
  /-- What the program and the reporter wrote. -/
  trace : Trace
  /-- What the shell itself wrote. -/
  said : String

/-- Does what a line asks for. -/
def enter (s : Session) (line : String) : Reply :=
  match Request.ofLine line with
  | .nothing => ⟨s, false, .empty, ""⟩
  | .help => ⟨s, false, .empty, help⟩
  | .exit => ⟨s, true, .empty, ""⟩
  | .endOfInput => ⟨s, true, .empty, "\n"⟩
  | .unit source =>
    let (s, trace, ending) := (Work.run source).guarded s
    ⟨s, ending != .goesOn, trace, ""⟩

end Lisplet.Shell
