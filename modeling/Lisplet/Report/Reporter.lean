import Lisplet.Report.Failure
import Lisplet.Text.Blank
import Lisplet.Text.Style

/-!
# Reports

A `Reporter` writes failures and warnings to the user.  While a source is registered, a report about
a token says where the token is and quotes its line, with carets below the lexeme.  A fatal reporter
ends the program after a failure; one that is not fatal forgets the source and goes on.

`Reporter.leave` is the end of a guarded block: it reports whatever the block was left by.
-/

namespace Lisplet

/-- How reports are written, and the source they quote. -/
structure Reporter where
  /-- Whether a failure ends the program. -/
  fatal : Bool
  /-- Whether the source is a line just typed, whose places are told by columns alone. -/
  interactive : Bool
  /-- Whether reports are styled for a terminal. -/
  styled : Bool
  /-- The path of the source that was registered last. -/
  path : Option String
  /-- The registered source. -/
  source : Option Lexer

/-- What a report tells of. -/
inductive Severity where
  | error
  | warning
deriving DecidableEq

/-- Errors are red, warnings magenta. -/
def Severity.colour : Severity → Text.Colour
  | error => .red
  | warning => .magenta

/-- Why a line cannot be quoted. -/
inductive QuoteError where
  | noSource
  | noLine (e : NoSuchLine)
deriving DecidableEq

/-- What a block of work is left by before its end. -/
inductive Departure where
  /-- The program is to end with a code. -/
  | exit (code : Option Int)
  | interrupt
  | tooDeep
  | failure (f : Failure)
  /-- A failure of the interpreter itself, by its name and message. -/
  | internal (name message : String)
deriving DecidableEq

/-- How a guarded block is left. -/
inductive Ending where
  | goesOn
  | leaves (d : Departure)
  /-- Nothing was reported, since the line of the token does not exist. -/
  | unreported (e : NoSuchLine)
deriving DecidableEq

/-- What a report leads to. -/
structure Handling where
  reporter : Reporter
  written : String
  ending : Ending

namespace Reporter

/-- A reporter with no source. -/
def new (fatal styled : Bool) : Reporter := ⟨fatal, false, styled, none, none⟩

/-- The reporter for lines just typed: a failure ends the line, but not the program. -/
def forTyping (r : Reporter) : Reporter := { r with fatal := false, interactive := true }

/-- Registers the source that reports quote from now on. -/
def register (r : Reporter) (path : String) (source : Lexer) : Reporter :=
  { r with path := some path, source := some source }

/-- Forgets the source, but not its path. -/
def removeSource (r : Reporter) : Reporter := { r with source := none }

/-! ### The text of a report -/

/-- Where a token is: its column, or the path, the line and the column. -/
def context (r : Reporter) (t : Token) : String :=
  if r.interactive then toString t.column
  else r.path.getD "None" ++ ":" ++ toString t.line ++ ":" ++ toString t.column

/-- The column marks under a line whose margin is left out: one caret for each character of the
lexeme, and at least one. -/
def carets (line : List Char) (t : Token) : String :=
  String.ofList (List.replicate (t.column - Text.margin line).toNat ' ' ++
    List.replicate (max t.lexeme.length 1) '^')

/-- A line without its margins between quotes, and the carets below it. -/
def quote (r : Reporter) (severity : Severity) (line : List Char) (t : Token) : String :=
  "\n\t\"" ++ String.ofList (Text.trim line) ++ "\"\n\t" ++
    Text.bold r.styled (some severity.colour) (carets line t)

/-- The line of a token, quoted from the registered source. -/
def diagnose (r : Reporter) (severity : Severity) (t : Token) : Except QuoteError String :=
  match r.source with
  | none => .error .noSource
  | some l =>
    match l.line t.line with
    | .ok line => .ok (r.quote severity line t)
    | .error e => .error (.noLine e)

/-- The place at the front of a report: that of the token if its line can be quoted, otherwise the
path alone. -/
def place (r : Reporter) (token : Option Token) : String :=
  match r.source, token with
  | some _, some t => r.context t
  | _, _ => r.path.getD ""

/-- The first line of a report: the place, the kind and the message. -/
def headline (r : Reporter) (severity : Severity) (f : Failure) : String :=
  let place := r.place f.token
  let kind := match severity with
    | .error => f.kind.name
    | .warning => "warning"
  (if place.isEmpty then "" else Text.bold r.styled none (place ++ ": ")) ++
    Text.bold r.styled (some severity.colour) (kind ++ ": ") ++ f.message

/-- The report of a failure.  It ends with the quoted line where there are a token and a source. -/
def format (r : Reporter) (severity : Severity) (f : Failure) : Except NoSuchLine String :=
  match r.source, f.token with
  | some l, some t =>
    (l.line t.line).map fun line =>
      r.headline severity f ++ "\n" ++ r.quote severity line t
  | _, _ => .ok (r.headline severity f)

/-! ### Reporting -/

/-- The text of a warning. -/
def warn (r : Reporter) (token : Option Token) (message : String) : Except NoSuchLine String :=
  (r.format .warning ⟨.general, token, message⟩).map (· ++ "\n")

/-- What marks a failure of the interpreter itself. -/
def internalMark (r : Reporter) : String := Text.bold r.styled (some .red) "[internal] "

/-- Reports a failure.  A fatal reporter then ends the program and keeps the source; any other goes
on and forgets it. -/
def throw (r : Reporter) (f : Failure) (internal : Bool) : Handling :=
  match r.format .error f with
  | .error e => ⟨r, "", .unreported e⟩
  | .ok text =>
    let written := (if internal then r.internalMark else "") ++ text ++ "\n"
    if r.fatal then ⟨r, written, .leaves (.exit (some f.kind.exitCode))⟩
    else ⟨r.removeSource, written, .goesOn⟩

/-- Ends a guarded block.  The end of the program passes; failures are reported and go no further; a
failure of the interpreter itself is reported and goes on to whoever is outside. -/
def leave (r : Reporter) : Option Departure → Handling
  | none => ⟨r, "", .goesOn⟩
  | some (.exit code) => ⟨r, "", .leaves (.exit code)⟩
  | some .interrupt => r.throw .interrupted false
  | some .tooDeep => r.throw .tooDeep false
  | some (.failure f) => r.throw f false
  | some (.internal name message) =>
    let handling := r.throw (.unknown name message) true
    match handling.ending with
    | .goesOn => { handling with ending := .leaves (.internal name message) }
    | _ => handling

end Reporter

end Lisplet
