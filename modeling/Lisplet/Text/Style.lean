/-!
# Styled text

Text for a terminal is set off by control sequences: one for bold, one for a colour, and one that
ends both.  A style that is switched off leaves the text as it is.
-/

namespace Lisplet.Text

/-- The colours in use. -/
inductive Colour where
  | red
  | magenta
deriving DecidableEq

/-- The number of a colour in control sequences. -/
def Colour.code : Colour → List Char
  | red => ['3', '1']
  | magenta => ['3', '5']

/-- A control sequence with a number. -/
def controlSequence (code : List Char) : List Char := '\x1b' :: '[' :: (code ++ ['m'])

/-- Bold text, in a colour if one is given; plain text where styles are switched off. -/
def bold (styled : Bool) (colour : Option Colour) (s : String) : String :=
  if styled then
    let start := controlSequence ['1'] ++ (colour.map fun c => controlSequence c.code).getD []
    String.ofList (start ++ s.toList ++ controlSequence ['0'])
  else s

end Lisplet.Text
