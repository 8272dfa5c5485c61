import Lisplet.Eval.Evaluate
import Lisplet.Expr.Outline
import Lisplet.Parse.Expression
import Lisplet.Report.Reporter

/-!
# Sessions

A `Session` runs units of input, a whole file or one line at a time: it reads them and evaluates
them in one global scope, or lists their tokens or trees.  Its work is done under a reporter, with
which each unit is registered before it is read.
-/

namespace Lisplet

/-- What lasts from one unit of input to the next. -/
structure Session where
  reporter : Reporter
  path : String
  /-- Whether the units are lines just typed. -/
  interactive : Bool
  /-- The text of the file at the path. -/
  text : Option String
  /-- The global scope. -/
  globals : Scope

/-- What work writes: the output of programs, listings, and reports. -/
structure Trace where
  output : String
  listing : String
  reports : String
deriving DecidableEq

namespace Trace

/-- Nothing written. -/
def empty : Trace := ⟨"", "", ""⟩

/-- What was written first and what was written after it. -/
def append (a b : Trace) : Trace :=
  ⟨a.output ++ b.output, a.listing ++ b.listing, a.reports ++ b.reports⟩

end Trace

/-- Work in a session: it may change the session, and it ends with a result or is left before. -/
def Work (α : Type) := Session → Session × Trace × Except Departure α

namespace Work

variable {α β : Type}

instance : Monad Work where
  pure a := fun s => (s, .empty, .ok a)
  bind x f := fun s =>
    match x s with
    | (s, trace, .error d) => (s, trace, .error d)
    | (s, trace, .ok a) =>
      let (s, more, result) := f a s
      (s, trace.append more, result)

/-- Leaves the work. -/
def leave (d : Departure) : Work α := fun s => (s, .empty, .error d)

/-- Adds a line to the listing. -/
def list (line : String) : Work Unit := fun s =>
  (s, { Trace.empty with listing := line ++ "\n" }, .ok ())

/-- Adds a line for each item to the listing. -/
def listEach (line : α → Work String) : List α → Work Unit
  | [] => pure ()
  | a :: as => do
    list (← line a)
    listEach line as

/-- Forgets the unit that was registered. -/
def removeSource : Work Unit := fun s =>
  ({ s with reporter := s.reporter.removeSource }, .empty, .ok ())

/-- Registers what was read of a unit, for reports to quote. -/
def register (source : Lexer) : Work Unit := fun s =>
  ({ s with reporter := s.reporter.register s.path source }, .empty, .ok ())

/-- Warns of a file in which there is nothing to run; of lines just typed it does not. -/
def warnOfNothing (last : Token) : Work Unit := fun s =>
  if s.interactive then (s, .empty, .ok ())
  else
    match s.reporter.warn (some last) ("'" ++ s.path ++ "' contains no expressions") with
    | .ok text => (s, { Trace.empty with reports := text }, .ok ())
    | .error e => (s, .empty, .error (.internal "ValueError" e.message))

/-- Reads the tokens of a unit. -/
def lex (source : String) : Work Tokens := do
  let (tokens, lexer) := (Lexer.ofSource source).tokenize
  register lexer
  match tokens with
  | .error unclosed => leave (.failure unclosed.failure)
  | .ok tokens =>
    if tokens.ahead.isEmpty then warnOfNothing tokens.last
    return tokens

/-- Reads the expressions of a unit. -/
def parse (source : String) : Work (List Expr) := do
  match Lisplet.parse (← lex source) with
  | .ok es => return es
  | .error (.error e) => leave (.failure e.failure)
  | .error .tooDeep => leave .tooDeep

/-- Evaluates expressions in the global scope. -/
def evaluate (es : List Expr) : Work Unit := fun s =>
  let outcome := interpret depthLimit es s.globals
  let result := match outcome.result with
    | .ok _ => .ok ()
    | .error (.fault f) => .error (.failure f.failure)
    | .error .tooDeep => .error .tooDeep
  ({ s with globals := outcome.scope }, { Trace.empty with output := outcome.output }, result)

/-- Reads and evaluates a unit.  Nothing is evaluated unless all of it can be read. -/
def run (source : String) : Work Unit := do
  evaluate (← parse source)
  removeSource

/-- Lists the tokens of a unit, one on a line. -/
def showTokens (source : String) : Work Unit := do
  listEach (fun t => pure t.describe) (← lex source).toList
  removeSource

/-- The outline of an expression, if it is not too deep. -/
def outline (e : Expr) : Work String :=
  match e.display? depthLimit with
  | some text => pure text
  | none => leave .tooDeep

/-- The outlines of expressions. -/
def outlines : List Expr → Work (List String)
  | [] => pure []
  | e :: es => do return (← outline e) :: (← outlines es)

/-- Lists the outlines of a unit's expressions. -/
def showTree (source : String) : Work Unit := do
  listEach outline (← parse source)
  removeSource

/-- Does work in a block guarded by the session's reporter. -/
def guarded (x : Work α) (s : Session) : Session × Trace × Ending :=
  let (s, trace, result) := x s
  let handling := s.reporter.leave (match result with | .ok _ => none | .error d => some d)
  ({ s with reporter := handling.reporter },
    { trace with reports := trace.reports ++ handling.written }, handling.ending)

end Work

namespace Session

/-- The path that stands for input typed by the user. -/
def inputPath : String := "<in>"

/-- A session for lines that the user types. -/
def typed (reporter : Reporter) : Session := ⟨reporter.forTyping, inputPath, true, none, .empty⟩

/-- A session at a path, with the text of the file there if it can be read.  The reporter is set up
for typed lines, if that is what is to come, even where there can be no session. -/
def start (reporter : Reporter) (path : String) (interactive : Bool) (text : Option String) :
    Reporter × Except Failure Session :=
  let reporter := if interactive then reporter.forTyping else reporter
  let result :=
    if path = inputPath then
      if interactive then .ok (typed reporter)
      else .error ⟨.general, none, "'" ++ inputPath ++ "' is a reserved filename"⟩
    else
      match text with
      | some text => .ok ⟨reporter, path, interactive, some text, .empty⟩
      | none => .error ⟨.general, none, "'" ++ path ++ "' could not be opened"⟩
  (reporter, result)

end Session

end Lisplet
