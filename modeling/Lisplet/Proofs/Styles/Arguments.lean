import Lisplet.Proofs.CommandLine.Flags
import Lisplet.Proofs.Styles.Unstyled

/-!
# The flag against styles among the arguments

With `--no-color` in front of a command line the program plans the same, but for the option against
styles (`plan_noColor`).  What it may tell of a command line without escape characters, and the path
that it takes from it, have none either (`clean_plan`).
-/

namespace Lisplet.CommandLine

/-! ### What the flag changes in a command line -/

namespace Options

variable (o : Options)

theorem interrupt_set_plain : (o.set .plain).interrupt = o.interrupt.set .plain := by
  unfold interrupt
  rw [show (o.set .plain).run = o.run from rfl]
  split <;> rfl

theorem takeFile_set_plain (text : String) (file : Option String) :
    (o.set .plain).takeFile text file = (o.takeFile text file).set .plain := by
  unfold takeFile
  rw [show (o.set .plain).run = o.run from rfl]
  split <;> rfl

theorem set_plain_comm (f : Flag) : (o.set .plain).set f = (o.set f).set .plain := by
  cases f <;> rfl

theorem has_set_plain {g : Flag} (other : g ≠ .plain) : (o.set .plain).has g = o.has g := by
  rw [has_set (by decide), decide_eq_false other, Bool.false_or]

end Options

/-- What is asked for without styles. -/
def Request.plain : Request → Request
  | .help => .help
  | .run o => .run (o.set .plain)

theorem readArguments_set_plain (o : Options) (arguments : List Argument) :
    readArguments (o.set .plain) arguments = (readArguments o arguments).map Request.plain := by
  induction arguments generalizing o with
  | nil =>
    unfold readArguments
    rw [show (o.set .plain).leftOver = o.leftOver from rfl]
    split <;> rfl
  | cons a rest ih =>
    cases a with
    | unknown text =>
      simp only [readArguments, Options.interrupt_set_plain]
      exact ih { o.interrupt with leftOver := o.interrupt.leftOver ++ [text] }
    | file path => simp only [readArguments, Options.takeFile_set_plain, ih]
    | separator => simp only [readArguments, Options.takeFile_set_plain, ih]
    | flag f value =>
      cases value with
      | some value => rfl
      | none =>
        cases f with
        | help => rfl
        | plain =>
          simp only [readArguments, Flag.rival, Options.interrupt_set_plain]
          exact ih (o.interrupt.set .plain)
        | tokens | tree =>
          simp only [readArguments, Flag.rival, Options.interrupt_set_plain]
          rw [Options.has_set_plain _ (by decide), Options.set_plain_comm, ih]
          split <;> rfl

/-- What the program plans without styles. -/
def Plan.plain : Plan → Plan
  | .answer r => .answer r
  | .file o path => .file (o.set .plain) path
  | .shell o => .shell (o.set .plain)

/-- The flag in front changes nothing in what is planned but the styles. -/
theorem plan_noColor (arguments : List String) :
    plan ("--no-color" :: arguments) = (plan arguments).plain := by
  have flag : Argument.ofText "--no-color" = .ok (.flag .plain none) := Argument.ofText_long .plain
  have request : read ("--no-color" :: arguments) = (read arguments).map Request.plain := by
    simp only [read, Argument.ofTexts, flag]
    cases Argument.ofTexts arguments with
    | error e => rfl
    | ok found => exact readArguments_set_plain .empty found
  unfold plan
  rw [request]
  cases read arguments with
  | error e => rfl
  | ok request =>
    cases request with
    | help => rfl
    | run o =>
      simp only [Except.map, Request.plain, show (o.set .plain).files = o.files from rfl]
      split <;> rfl

/-! ### Texts without escape characters -/

namespace Argument

/-- The text that an argument may be told with has no escape characters. -/
def Clean : Argument → Prop
  | .unknown text | .file text => Text.Clean text
  | .flag _ _ | .separator => True

theorem clean_ofShortTail (cs : List Char) : (ofShortTail cs).Clean := by
  fun_induction ofShortTail cs with
  | case1 => trivial
  | case2 cs ih => exact ih
  | case3 => trivial

theorem clean_ofShort (cs : List Char) : (ofShort cs).Clean := by
  unfold ofShort
  split
  · trivial
  · exact clean_ofShortTail _
  · exact clean_ofShortTail _

theorem clean_ofText {text : String} (clean : Text.Clean text) :
    (∃ a, ofText text = .ok a ∧ a.Clean) ∨ ofText text = .error (.ambiguous text) := by
  have orUnknown : (orUnknown text).Clean := by
    unfold Argument.orUnknown
    split <;> exact clean
  unfold ofText
  split
  · exact .inl ⟨_, rfl, trivial⟩
  · unfold ofLong
    dsimp only
    split
    · exact .inl ⟨_, rfl, orUnknown⟩
    · exact .inl ⟨_, rfl, trivial⟩
    · exact .inr rfl
  · exact .inl ⟨_, rfl, clean_ofShort _⟩
  · exact .inl ⟨_, rfl, orUnknown⟩
  · exact .inl ⟨_, rfl, clean⟩

theorem clean_ofTexts {texts : List String} (clean : ∀ text ∈ texts, Text.Clean text) :
    (∃ found, ofTexts texts = .ok found ∧ ∀ a ∈ found, a.Clean) ∨
      ∃ text, ofTexts texts = .error (.ambiguous text) ∧ Text.Clean text := by
  induction texts with
  | nil => exact .inl ⟨[], rfl, List.forall_mem_nil _⟩
  | cons text texts ih =>
    obtain ⟨first, others⟩ := List.forall_mem_cons.1 clean
    rcases clean_ofText first with ⟨a, eq, ha⟩ | eq
    · cases a with
      | separator =>
        refine .inl ⟨separator :: texts.map file, by simp only [ofTexts, eq]; rfl, ?_⟩
        exact List.forall_mem_cons.2 ⟨trivial, List.forall_mem_map.2 others⟩
      | flag | unknown | file =>
        rcases ih others with ⟨found, more, hfound⟩ | ⟨text', more, clean'⟩
        · exact .inl ⟨_ :: found, by simp only [ofTexts, eq, more]; rfl,
            List.forall_mem_cons.2 ⟨ha, hfound⟩⟩
        · exact .inr ⟨text', by simp only [ofTexts, eq, more]; rfl, clean'⟩
    · exact .inr ⟨text, by simp only [ofTexts, eq]; rfl, first⟩

end Argument

theorem Flag.clean_label (f : Flag) : Text.Clean f.label := by
  cases f with
  | help =>
    exact Text.clean_append.2 ⟨Text.clean_append.2 ⟨.ofList rfl, .ofList rfl⟩, .ofList rfl⟩
  | plain | tokens | tree => exact .ofList rfl

theorem UsageError.clean_ambiguous {text : String} (clean : Text.Clean text) :
    Text.Clean (ambiguous text).message := by
  have flags : Text.Clean (", ".intercalate (Flag.all.map Flag.long)) := by
    refine Text.clean_intercalate (.ofList rfl) (List.forall_mem_map.2 fun f _ => ?_)
    cases f <;> exact .ofList rfl
  unfold message
  simp only [Text.clean_append, clean, flags, and_true]
  exact ⟨.ofList rfl, .ofList rfl⟩

theorem UsageError.clean_explicitValue (f : Flag) (value : String) :
    Text.Clean (explicitValue f value).message := by
  unfold message
  simp only [Text.clean_append, f.clean_label, Text.clean_quoted, and_true]
  exact ⟨.ofList rfl, .ofList rfl⟩

theorem UsageError.clean_exclusive (f earlier : Flag) :
    Text.Clean (exclusive f earlier).message := by
  unfold message
  simp only [Text.clean_append, Flag.clean_label, and_true]
  exact ⟨.ofList rfl, .ofList rfl⟩

theorem UsageError.clean_unrecognized {texts : List String}
    (clean : ∀ text ∈ texts, Text.Clean text) : Text.Clean (unrecognized texts).message := by
  have listed : Text.Clean (" ".intercalate texts) := Text.clean_intercalate (.ofList rfl) clean
  unfold message
  simp only [Text.clean_append, listed, and_true]
  exact .ofList rfl

/-- The texts of the options have no escape characters. -/
structure Options.Clean (o : Options) : Prop where
  files : ∀ path ∈ o.files, Text.Clean path
  leftOver : ∀ text ∈ o.leftOver, Text.Clean text

namespace Options

variable {o : Options}

theorem Clean.interrupt (h : o.Clean) : o.interrupt.Clean := by
  unfold Options.interrupt
  split
  · exact ⟨h.files, h.leftOver⟩
  · exact h

theorem Clean.set (h : o.Clean) (f : Flag) : (o.set f).Clean := by
  cases f <;> exact ⟨h.files, h.leftOver⟩

theorem Clean.leave (h : o.Clean) {text : String} (clean : Text.Clean text) :
    Options.Clean { o with leftOver := o.leftOver ++ [text] } :=
  ⟨h.files, List.forall_mem_append.2 ⟨h.leftOver, List.forall_mem_singleton.2 clean⟩⟩

theorem Clean.takeFile (h : o.Clean) {text : String} (clean : Text.Clean text)
    {file : Option String} (names : ∀ path ∈ file, Text.Clean path) :
    (o.takeFile text file).Clean := by
  unfold Options.takeFile
  split
  · exact h.leave clean
  · exact ⟨List.forall_mem_append.2 ⟨h.files, by simpa using names⟩, h.leftOver⟩

end Options

/-- What is told of the reading of a command line has no escape characters. -/
def CleanReading : Except UsageError Request → Prop
  | .error e => Text.Clean e.message
  | .ok .help => True
  | .ok (.run o) => o.Clean

theorem clean_readArguments {o : Options} (ho : o.Clean) {arguments : List Argument}
    (clean : ∀ a ∈ arguments, a.Clean) : CleanReading (readArguments o arguments) := by
  induction arguments generalizing o with
  | nil =>
    unfold readArguments
    split
    · exact ho
    · exact UsageError.clean_unrecognized ho.leftOver
  | cons a rest ih =>
    obtain ⟨first, others⟩ := List.forall_mem_cons.1 clean
    cases a with
    | unknown text => exact ih (ho.interrupt.leave first) others
    | file path => exact ih (ho.takeFile first fun _ eq => Option.some.inj eq ▸ first) others
    | separator => exact ih (ho.takeFile (.ofList rfl) fun _ eq => by cases eq) others
    | flag f value =>
      cases value with
      | some value => exact UsageError.clean_explicitValue f value
      | none =>
        cases f with
        | help => trivial
        | plain => exact ih (ho.interrupt.set .plain) others
        | tokens | tree =>
          simp only [readArguments, Flag.rival]
          split
          · exact UsageError.clean_exclusive _ _
          · exact ih (ho.interrupt.set _) others

/-- What is reported of a command line has no escape characters, and neither has the path that is
taken from it. -/
def Plan.Clean : Plan → Prop
  | .answer r => Text.Clean r.stderr
  | .file _ path => Text.Clean path
  | .shell _ => True

theorem clean_plan {arguments : List String} (clean : ∀ a ∈ arguments, Text.Clean a) :
    (plan arguments).Clean := by
  have reading : CleanReading (read arguments) := by
    have empty : Options.empty.Clean := ⟨List.forall_mem_nil _, List.forall_mem_nil _⟩
    rcases Argument.clean_ofTexts clean with ⟨found, eq, hfound⟩ | ⟨text, eq, htext⟩
    · simp only [read, eq]
      exact clean_readArguments empty hfound
    · simp only [read, eq]
      exact UsageError.clean_ambiguous htext
  unfold plan
  cases request : read arguments with
  | error e =>
    rw [request] at reading
    have message : Text.Clean e.message := reading
    simp only [Plan.Clean, refuse, usageLine, Text.clean_append, message, and_true]
    exact ⟨⟨.ofList rfl, .ofList rfl⟩, .ofList rfl⟩
  | ok r =>
    rw [request] at reading
    cases r with
    | help => exact Text.clean_empty
    | run o =>
      dsimp only
      split
      · trivial
      · rename_i path files
        exact reading.files path (by simp [files])
      · exact Text.clean_empty

end Lisplet.CommandLine
