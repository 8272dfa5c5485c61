import Lisplet.Segment
import Lisplet.Token.Stream
import Lisplet.Text.Lines

/-!
# Reading a source text

A `Lexer` reads one source text into tokens and keeps a table of its lines, so that a report can
show the line a token came from.  Reading ends with a token for the end of the text, which also
closes the last line.  A string that is never closed stops the reading after the tokens before it;
its line stays open, but can be looked up all the same.

Reading may be repeated: nothing is left to be read, so each repetition only closes the last line
and ends the text once more.
-/

namespace Lisplet

/-- A line was asked for that the table does not have. -/
structure NoSuchLine where
  count : Nat
  asked : Int
deriving DecidableEq

/-- What is told of a line that is not there. -/
def NoSuchLine.message (e : NoSuchLine) : String :=
  "line number must be in the range [1, " ++ toString e.count ++ "], got " ++ toString e.asked

/-- A string that is never closed, at the place of its opening quote. -/
structure UnclosedString where
  place : Place
deriving DecidableEq

namespace UnclosedString

/-- The token to blame: the opening quote alone. -/
def token (e : UnclosedString) : Token := Token.placedAt e.place .string "\"" .null

/-- What is told of a string that is never closed. -/
def message (e : UnclosedString) : String :=
  "Unterminated string starting at ln " ++ toString e.place.line ++ ", col " ++
    toString e.place.column

end UnclosedString

/-- The tokens of a text before its end, and the string that is never closed, if there is one. -/
def scan (cs : List Char) : List Token × Option UnclosedString :=
  let cut := Segment.cut cs
  let unclosed :=
    if cut.2.isEmpty then none
    else some ⟨Place.start.advance (cut.1.map Segment.text).flatten⟩
  (Segment.tokens .start cut.1, unclosed)

/-- The state of reading a source text. -/
structure Lexer where
  source : List Char
  /-- How often the end of the text was reached, once reading has begun.  A string that is never
  closed stops the first reading short of it. -/
  endings : Option Nat

namespace Lexer

/-- A lexer that has read nothing yet. -/
def ofSource (source : String) : Lexer := ⟨source.toList, none⟩

/-- The token that ends the text. -/
def eof (l : Lexer) : Token := Token.endOfText (Place.start.advance l.source)

/-- All tokens read so far. -/
def tokens (l : Lexer) : List Token :=
  match l.endings with
  | none => []
  | some n => (scan l.source).1 ++ List.replicate n l.eof

/-- Reads what is left of the text and ends it. -/
def tokenize (l : Lexer) : Except UnclosedString Tokens × Lexer :=
  match l.endings, scan l.source with
  | none, (_, some unclosed) => (.error unclosed, { l with endings := some 0 })
  | endings, (tokens, _) =>
    let before := endings.getD 0
    (.ok ⟨tokens ++ List.replicate before l.eof, l.eof, rfl⟩,
      { l with endings := some (before + 1) })

/-! ### Lines -/

/-- The last line of the text. -/
def lastLine (l : Lexer) : List Char := (Text.lines l.source).getLastD []

/-- The closed lines: those that a line feed ends, and the last one each time the end was reached.
-/
def closedLines (l : Lexer) : List (List Char) :=
  match l.endings with
  | none => []
  | some n => (Text.lines l.source).dropLast ++ List.replicate n l.lastLine

/-- The line that is being read: what was read of it so far. -/
def openLine (l : Lexer) : List Char := if l.endings.isSome then l.lastLine else []

/-- The offsets of lines that follow each other, each with its end. -/
def spans (start : Nat) : List (List Char) → List (Nat × Nat)
  | [] => []
  | l :: ls => (start, start + l.length) :: spans (start + l.length + 1) ls

/-- The table of closed lines, as offsets into the source. -/
def lineTable (l : Lexer) : List (Nat × Nat) :=
  match l.endings with
  | none => []
  | some n =>
    let all := spans 0 (Text.lines l.source)
    all.dropLast ++ List.replicate n (all.getLastD (0, 0))

/-- The `n`-th line of the source.  The line after the last closed one can be asked for while the
text has not ended. -/
def line (l : Lexer) (n : Int) : Except NoSuchLine (List Char) :=
  let closed := l.closedLines
  if n = closed.length + 1 ∧ l.endings.getD 0 = 0 then .ok l.openLine
  else if 1 ≤ n then
    match closed[(n - 1).toNat]? with
    | some text => .ok text
    | none => .error ⟨closed.length, n⟩
  else .error ⟨closed.length, n⟩

end Lexer

/-- The tokens of a source text with the token that ends it. -/
def tokenize (source : String) : Except UnclosedString Tokens :=
  (Lexer.ofSource source).tokenize.1

end Lisplet
