import Lisplet.Text.Ranges

/-!
# Blank characters

The wide class of blank characters, and texts without the blanks at their ends.  The class is wider
than what the language itself skips between tokens; it serves the quoted lines of reports and the
commands of the shell.
-/

namespace Lisplet.Text

/-- White space of every kind, the four separators of information included. -/
def blankRanges : Ranges :=
  [(0x09, 0x0D), (0x1C, 0x20), (0x85, 0x85), (0xA0, 0xA0), (0x1680, 0x1680), (0x2000, 0x200A),
   (0x2028, 0x2029), (0x202F, 0x202F), (0x205F, 0x205F), (0x3000, 0x3000)]

/-- Whether a character is blank. -/
def isBlank (c : Char) : Bool := blankRanges.contains c

/-- The text without the blanks before it. -/
def trimLeft (cs : List Char) : List Char := cs.dropWhile isBlank

/-- The text without the blanks after it. -/
def trimRight (cs : List Char) : List Char := (cs.reverse.dropWhile isBlank).reverse

/-- The text without the blanks before and after it. -/
def trim (cs : List Char) : List Char := trimRight (trimLeft cs)

/-- How many blanks stand before the text. -/
def margin (cs : List Char) : Nat := (cs.takeWhile isBlank).length

end Lisplet.Text
