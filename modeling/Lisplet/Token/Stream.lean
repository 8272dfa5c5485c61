import Lisplet.Token.Basic

/-!
# Token streams

A `Tokens` is what a parser has left to read: some tokens, and behind them one that ends the text.
The parser looks at the current token and the one after it; at the end both are the ending token,
and the parser never moves past it.
-/

namespace Lisplet

/-- Tokens of which the last one ends the text. -/
structure Tokens where
  ahead : List Token
  last : Token
  last_kind : last.kind = .eof

namespace Tokens

/-- All the tokens, the last one included. -/
def toList (ts : Tokens) : List Token := ts.ahead ++ [ts.last]

/-- The token to be read next. -/
def current (ts : Tokens) : Token := ts.ahead.headD ts.last

/-- The token after the current one; the last token if there is none. -/
def following (ts : Tokens) : Token := ts.ahead.tail.headD ts.last

/-- Whether the text has ended here. -/
def atEnd (ts : Tokens) : Bool := ts.current.kind == .eof

/-- Moves past the current token unless it ends the text. -/
def advance (ts : Tokens) : Tokens :=
  if ts.atEnd then ts else { ts with ahead := ts.ahead.tail }

end Tokens

end Lisplet
