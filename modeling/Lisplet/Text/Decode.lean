import Lisplet.Text.Lines

/-!
# Texts of files

The text of a file is its bytes read as UTF-8, with the line ends of all systems as line feeds.
-/

namespace Lisplet.Text

/-- The text of a file's bytes, unless they are malformed. -/
def decode? (bytes : ByteArray) : Option String :=
  (String.fromUTF8? bytes).map fun s => String.ofList (unifyLineEnds s.toList)

end Lisplet.Text
