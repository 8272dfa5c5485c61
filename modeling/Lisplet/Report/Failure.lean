import Lisplet.Eval.Fault
import Lisplet.Lexer
import Lisplet.Parse.Problem

/-!
# Failures

A `Failure` is what a report tells: a kind of error, the token to blame if there is one, and a
message. What stops the reading or the evaluation of a program becomes a failure of its kind.
-/

namespace Lisplet

/-- The kinds of errors that reports tell apart. -/
inductive FailureKind where
  | general
  | lexical
  | parse
  | runtime
  | interrupt
deriving DecidableEq

namespace FailureKind

/-- The name of a kind in reports.  An interruption is reported as a general error. -/
def name : FailureKind → String
  | general | interrupt => "Error"
  | lexical => "LexicalError"
  | parse => "ParseError"
  | runtime => "RuntimeError"

/-- The exit code of a program that ends because of the failure. -/
def exitCode : FailureKind → Int
  | general => 66
  | lexical | parse => 65
  | runtime => 70
  | interrupt => 130

end FailureKind

/-- An error to be reported. -/
structure Failure where
  kind : FailureKind
  token : Option Token
  message : String
deriving DecidableEq

/-- A string that is never closed, for a report. -/
def UnclosedString.failure (e : UnclosedString) : Failure := ⟨.lexical, some e.token, e.message⟩

/-- A violation of the grammar, for a report. -/
def ParseError.failure (e : ParseError) : Failure := ⟨.parse, some e.token, e.message⟩

/-- A fault of an evaluation, for a report. -/
def Fault.failure (f : Fault) : Failure := ⟨.runtime, some f.token, f.message⟩

/-- The report of expressions nested too deeply has no token to blame. -/
def Failure.tooDeep : Failure := ⟨.runtime, none, "maximum nesting depth exceeded"⟩

/-- The report of an interruption from outside. -/
def Failure.interrupted : Failure := ⟨.interrupt, none, "keyboard interrupt"⟩

/-- The report of a failure of the interpreter itself. -/
def Failure.unknown (name message : String) : Failure :=
  ⟨.runtime, none, "unknown error: '" ++ name ++ ": " ++ message ++ "'"⟩

end Lisplet
