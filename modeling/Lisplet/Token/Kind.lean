/-!
# Kinds of tokens

Every token has one of 35 kinds.  Punctuation and operators are given by single characters or pairs
of them, keywords by whole words; the rest are strings, numbers, identifiers, characters that belong
to nothing, and the end of the text.
-/

namespace Lisplet

/-- The kind of a token. -/
inductive Kind where
  | lparen | rparen | lbracket | rbracket
  | plus | minus | star | slash | doubleSlash | percent
  | greater | greaterEqual | less | lessEqual
  | print | println | letWord | trueWord | falseWord | nullWord | notWord
  | equal | notEqual | isTrue | ifWord | thenWord | elseWord | condWord | andWord | orWord
  | string | number | identifier | unidentified | eof
deriving DecidableEq

namespace Kind

/-- The kinds in the order of their description. -/
def all : List Kind :=
  [lparen, rparen, lbracket, rbracket, plus, minus, star, slash, doubleSlash, percent,
   greater, greaterEqual, less, lessEqual, print, println, letWord, trueWord, falseWord, nullWord,
   notWord, equal, notEqual, isTrue, ifWord, thenWord, elseWord, condWord, andWord, orWord,
   string, number, identifier, unidentified, eof]

/-- The name of a kind in token lists. -/
def name : Kind → String
  | lparen => "LPAREN"
  | rparen => "RPAREN"
  | lbracket => "LBRACKET"
  | rbracket => "RBRACKET"
  | plus => "PLUS"
  | minus => "MINUS"
  | star => "STAR"
  | slash => "SLASH"
  | doubleSlash => "SLASHSLASH"
  | percent => "PERCENT"
  | greater => "GREATER_THAN"
  | greaterEqual => "GREATER_THAN_OR_EQUAL_TO"
  | less => "LESS_THAN"
  | lessEqual => "LESS_THAN_OR_EQUAL_TO"
  | print => "PRINT"
  | println => "PRINTLN"
  | letWord => "LET"
  | trueWord => "TRUE"
  | falseWord => "FALSE"
  | nullWord => "NULL"
  | notWord => "NOT"
  | equal => "EQUAL_PREDICATE"
  | notEqual => "NEQUAL_PREDICATE"
  | isTrue => "TRUE_PREDICATE"
  | ifWord => "IF"
  | thenWord => "THEN"
  | elseWord => "ELSE"
  | condWord => "COND"
  | andWord => "AND"
  | orWord => "OR"
  | string => "STRING"
  | number => "NUMBER"
  | identifier => "IDENTIFIER"
  | unidentified => "UNIDENTIFIED"
  | eof => "EOF"

/-- The kind of a given name. -/
def ofName? (s : String) : Option Kind := all.find? fun k => k.name == s

/-- The kind of a character that is a token by itself, whatever follows. -/
def ofSingle? : Char → Option Kind
  | '(' => some lparen
  | ')' => some rparen
  | '[' => some lbracket
  | ']' => some rbracket
  | '+' => some plus
  | '-' => some minus
  | '*' => some star
  | '%' => some percent
  | _ => none

/-- For a character that may stand alone or with a second one: the second character, the kind of the
pair and the kind of the character alone. -/
def ofPair? : Char → Option (Char × Kind × Kind)
  | '>' => some ('=', greaterEqual, greater)
  | '<' => some ('=', lessEqual, less)
  | '/' => some ('/', doubleSlash, slash)
  | _ => none

/-- The words that are keywords. -/
def keywords : List (String × Kind) :=
  [("print", print), ("println", println), ("let", letWord), ("true", trueWord),
   ("false", falseWord), ("null", nullWord), ("not", notWord), ("equal?", equal),
   ("nequal?", notEqual), ("true?", isTrue), ("if", ifWord), ("then", thenWord),
   ("else", elseWord), ("cond", condWord), ("and", andWord), ("or", orWord)]

/-- The kind of a word: that of the keyword it is, otherwise an identifier. -/
def ofWord (s : String) : Kind := (keywords.lookup s).getD identifier

theorem ofName?_name (k : Kind) : ofName? k.name = some k := by cases k <;> rfl

/-- A kind is found by its name, and by no other text. -/
theorem ofName?_eq_some_iff {s : String} {k : Kind} : ofName? s = some k ↔ k.name = s := by
  constructor
  · intro found
    simpa using List.find?_some found
  · rintro rfl
    exact ofName?_name k

end Kind

end Lisplet
