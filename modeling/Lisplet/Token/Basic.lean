import Lisplet.Token.Kind
import Lisplet.Value

/-!
# Tokens

A token is a piece of source text with its kind, the value it denotes if it is a string or a number,
and the place of its first character.
-/

namespace Lisplet

/-- The place of a character: lines and columns count from one. -/
structure Place where
  line : Nat
  column : Nat
deriving DecidableEq

namespace Place

/-- The place of the first character of a text. -/
def start : Place := ⟨1, 1⟩

/-- The place of the character after the given one. -/
def step (p : Place) (c : Char) : Place :=
  if c = '\n' then ⟨p.line + 1, 1⟩ else ⟨p.line, p.column + 1⟩

/-- The place of the character after a text. -/
def advance (p : Place) (cs : List Char) : Place := cs.foldl step p

@[simp] theorem advance_nil (p : Place) : p.advance [] = p := rfl

@[simp] theorem advance_cons (p : Place) (c : Char) (cs : List Char) :
    p.advance (c :: cs) = (p.step c).advance cs := rfl

theorem advance_append (p : Place) (cs ds : List Char) :
    p.advance (cs ++ ds) = (p.advance cs).advance ds := List.foldl_append

end Place

/-- A token.  The literal is null for every kind but strings and numbers. -/
structure Token where
  kind : Kind
  lexeme : String
  literal : Value
  line : Int
  column : Int
deriving DecidableEq

namespace Token

/-- A token at a place of a text. -/
def placedAt (p : Place) (kind : Kind) (lexeme : String) (literal : Value) : Token :=
  ⟨kind, lexeme, literal, p.line, p.column⟩

/-- The token that ends a text. -/
def endOfText (p : Place) : Token := Token.placedAt p .eof "" .null

/-- A token as it is listed: place, kind, lexeme and, unless it is null, the literal. -/
def describe (t : Token) : String :=
  let literal := if t.literal = .null then "" else " " ++ t.literal.text
  toString t.line ++ ":" ++ toString t.column ++ " " ++ t.kind.name ++ " '" ++ t.lexeme ++ "'"
    ++ literal

end Token

end Lisplet
