import Lisplet.Text.Digits
import Lisplet.Text.Quoted

/-!
# Command-line arguments

The arguments of the program are flags and at most one file.  A long flag may be shortened as long
as only one flag begins that way; a double dash ends the flags.  Files are taken from one run of
arguments without flags in between; what is left over is refused.
-/

namespace Lisplet.CommandLine

/-- The flags of the program. -/
inductive Flag where
  | help
  | plain
  | tokens
  | tree
deriving DecidableEq

namespace Flag

/-- Every flag, in the order of the help text. -/
def all : List Flag := [help, plain, tokens, tree]

/-- The long form of a flag. -/
def long : Flag → String
  | help => "--help"
  | plain => "--no-color"
  | tokens => "--tokens"
  | tree => "--ast"

/-- The short form of the one flag that has one. -/
def short : String := "-h"

/-- A flag in messages, with all its forms. -/
def label : Flag → String
  | help => short ++ "/" ++ help.long
  | f => f.long

/-- The flag that excludes another one. -/
def rival : Flag → Option Flag
  | tokens => some tree
  | tree => some tokens
  | _ => none

end Flag

/-- Why a command line is refused. -/
inductive UsageError where
  | ambiguous (argument : String)
  | explicitValue (flag : Flag) (value : String)
  | exclusive (flag earlier : Flag)
  | unrecognized (arguments : List String)
deriving DecidableEq

/-- What is told of a refused command line. -/
def UsageError.message : UsageError → String
  | ambiguous argument =>
    "ambiguous option: " ++ argument ++ " could match " ++
      ", ".intercalate (Flag.all.map Flag.long)
  | explicitValue flag value =>
    "argument " ++ flag.label ++ ": ignored explicit argument " ++ Text.quoted value
  | exclusive flag earlier =>
    "argument " ++ flag.label ++ ": not allowed with argument " ++ earlier.label
  | unrecognized arguments => "unrecognized arguments: " ++ " ".intercalate arguments

/-- What a single argument is. -/
inductive Argument where
  /-- A flag, with the value that is attached to it. -/
  | flag (f : Flag) (value : Option String)
  /-- Something that looks like a flag. -/
  | unknown (text : String)
  | file (path : String)
  /-- The end of the flags. -/
  | separator
deriving DecidableEq

namespace Argument

/-- A text before its first equals sign, and what follows the sign. -/
def splitValue (cs : List Char) : List Char × Option (List Char) :=
  match cs.dropWhile (· != '=') with
  | [] => (cs, none)
  | _ :: value => (cs.takeWhile (· != '='), some value)

/-- A text without the line feed at its end, if there is one. -/
def withoutFeed (cs : List Char) : List Char :=
  if cs.getLast? = some '\n' then cs.dropLast else cs

/-- Whether a text is a minus sign and a decimal number, with or without digits before the point.
The digits may be of any script, and a line feed may follow. -/
def isNegativeNumber (cs : List Char) : Bool :=
  match withoutFeed cs with
  | '-' :: digits =>
    match digits.dropWhile Text.isDecimal with
    | [] => !digits.isEmpty
    | '.' :: fraction => !fraction.isEmpty && fraction.all Text.isDecimal
    | _ => false
  | _ => false

/-- An argument with a dash that is no flag: a file if it is a negative number or holds a blank. -/
def orUnknown (text : String) : Argument :=
  if isNegativeNumber text.toList || text.toList.contains ' ' then file text else unknown text

/-- An argument that begins with two dashes.  It may be the beginning of more than one flag only if
there is nothing between the dashes and an equals sign. -/
def ofLong (text : String) : Except UsageError Argument :=
  let (name, value) := splitValue text.toList
  match Flag.all.filter fun f => name.isPrefixOf f.long.toList with
  | [] => .ok (orUnknown text)
  | [f] => .ok (flag f (value.map String.ofList))
  | _ => .error (.ambiguous text)

/-- What follows the short flag in one argument: the letter of the flag, any number of times.  What
comes after that is taken for a value. -/
def ofShortTail : List Char → Argument
  | [] => flag .help none
  | 'h' :: cs => ofShortTail cs
  | value => flag .help (some (String.ofList value))

/-- An argument that begins with the short flag.  An equals sign may stand between the flag and what
follows; behind it there is a value even if nothing follows. -/
def ofShort : List Char → Argument
  | ['='] => flag .help (some "")
  | '=' :: cs => ofShortTail cs
  | cs => ofShortTail cs

/-- An argument before the end of the flags. -/
def ofText (text : String) : Except UsageError Argument :=
  match text.toList with
  | ['-', '-'] => .ok separator
  | '-' :: '-' :: _ => ofLong text
  | '-' :: 'h' :: cs => .ok (ofShort cs)
  | '-' :: _ :: _ => .ok (orUnknown text)
  | _ => .ok (file text)

/-- The arguments of a command line.  Behind the end of the flags all are files. -/
def ofTexts : List String → Except UsageError (List Argument)
  | [] => .ok []
  | text :: texts => do
    match ← ofText text with
    | separator => return separator :: texts.map file
    | a => return a :: (← ofTexts texts)

end Argument

/-- How far the one run of files has come. -/
inductive FileRun where
  | before
  | during
  | after
deriving DecidableEq

/-- What the arguments so far have said. -/
structure Options where
  plain : Bool
  tokens : Bool
  tree : Bool
  files : List String
  leftOver : List String
  run : FileRun
deriving DecidableEq

namespace Options

/-- Nothing was said yet. -/
def empty : Options := ⟨false, false, false, [], [], .before⟩

/-- Whether a flag was given. -/
def has (o : Options) : Flag → Bool
  | .help => false
  | .plain => o.plain
  | .tokens => o.tokens
  | .tree => o.tree

/-- Records a flag. -/
def set (o : Options) : Flag → Options
  | .help => o
  | .plain => { o with plain := true }
  | .tokens => { o with tokens := true }
  | .tree => { o with tree := true }

/-- A flag ends the run of files. -/
def interrupt (o : Options) : Options := if o.run = .during then { o with run := .after } else o

/-- Takes an argument that is no flag, and the file it names if it names one. -/
def takeFile (o : Options) (text : String) (file : Option String) : Options :=
  if o.run = .after then { o with leftOver := o.leftOver ++ [text] }
  else { o with files := o.files ++ file.toList, run := .during }

end Options

/-- What a command line asks for. -/
inductive Request where
  | help
  | run (o : Options)
deriving DecidableEq

/-- Reads arguments in order.  The first error ends the reading, and so does a request for help. -/
def readArguments : Options → List Argument → Except UsageError Request
  | o, [] => if o.leftOver.isEmpty then .ok (.run o) else .error (.unrecognized o.leftOver)
  | o, a :: rest =>
    match a with
    | .unknown text =>
      let o := o.interrupt
      readArguments { o with leftOver := o.leftOver ++ [text] } rest
    | .file path => readArguments (o.takeFile path (some path)) rest
    | .separator => readArguments (o.takeFile "--" none) rest
    | .flag f (some value) => .error (.explicitValue f value)
    | .flag .help none => .ok .help
    | .flag f none =>
      match f.rival with
      | some earlier =>
        if o.has earlier then .error (.exclusive f earlier)
        else readArguments (o.interrupt.set f) rest
      | none => readArguments (o.interrupt.set f) rest

/-- Reads a command line. -/
def read (arguments : List String) : Except UsageError Request := do
  readArguments .empty (← Argument.ofTexts arguments)

end Lisplet.CommandLine
