import Lisplet.Proofs.CommandLine.FileRun
import Lisplet.Proofs.Styles.Arguments
import Lisplet.Proofs.Styles.Work

/-!
# The program with styles and without

With `--no-color` in front of a command line the program does the same and writes the same; only the
control sequences are missing from what it writes to the standard error (`run_noColor`).  This is so
for every command line, every set of files and every input without escape characters.
-/

namespace Lisplet

namespace Shell

/-- Two replies differ in nothing but that the first one decorates what is reported. -/
structure Reply.Decorates (styled plain : Reply) : Prop where
  clean : styled.session.Clean
  session : plain.session = styled.session.plain
  stop : plain.stop = styled.stop
  trace : styled.trace.Decorates plain.trace
  said : plain.said = styled.said

theorem source_eq_of_unit {line source : String} (h : Request.ofLine line = .unit source) :
    source = line := by
  unfold Request.ofLine at h
  split at h
  · cases h
  · split at h <;> cases h
    rfl

theorem decorates_enter {s : Session} (hs : s.Clean) {line : String} (clean : Text.Clean line) :
    (enter s line).Decorates (enter s.plain line) := by
  have silent : Trace.empty.Decorates Trace.empty := Trace.decorates_silent _ _
  cases request : Request.ofLine line with
  | nothing | help | exit | endOfInput =>
    simp only [enter, request]
    exact ⟨hs, rfl, rfl, silent, rfl⟩
  | unit source =>
    obtain rfl := source_eq_of_unit request
    obtain ⟨session, same, trace, ending⟩ := (Work.OnlyDecorates.run clean).guarded hs
    simp only [enter, request]
    exact ⟨session, same, by rw [ending], trace, rfl⟩

end Shell

namespace CommandLine

/-! ### Runs with styles and without -/

/-- Two results differ in nothing but that the first one decorates what it writes to the standard
error. -/
structure Result.Decorates (styled plain : Result) : Prop where
  code : plain.code = styled.code
  stdout : plain.stdout = styled.stdout
  stderr : Text.Decorates styled.stderr plain.stderr

theorem onlyDecorates_workOn (o : Options) {text : String} (clean : Text.Clean text) :
    (workOn o text).OnlyDecorates fun _ => True := by
  unfold workOn
  split
  · exact .showTokens clean
  · split
    · exact .showTree clean
    · exact .run clean

/-! ### Files -/

theorem decorates_concluded {x : Work Unit} (h : x.OnlyDecorates fun _ => True) {s : Session}
    (clean : s.Clean) : (concluded x s).Decorates (concluded x s.plain) := by
  obtain ⟨-, -, trace, ending⟩ := h.guarded clean
  refine ⟨congrArg exitCode ending, ?_, trace.reports⟩
  simp only [concluded, trace.output, trace.listing]

/-- What the program answers where there can be no session for a file. -/
def unstarted (plain : Bool) (message : String) : Result :=
  let handling := (Reporter.new true (!plain)).leave (some (.failure ⟨.general, none, message⟩))
  ⟨exitCode handling.ending, "", handling.written⟩

theorem runFile_inputPath (o : Options) (text : Option String) :
    runFile o Session.inputPath text =
      unstarted o.plain ("'" ++ Session.inputPath ++ "' is a reserved filename") := rfl

theorem runFile_none {path : String} (named : path ≠ Session.inputPath) (o : Options) :
    runFile o path none = unstarted o.plain ("'" ++ path ++ "' could not be opened") := by
  simp only [runFile, Session.start, if_neg named]
  rfl

theorem decorates_unstarted (plain : Bool) {message : String} (clean : Text.Clean message) :
    (unstarted plain message).Decorates (unstarted true message) := by
  have left := (Reporter.clean_new true (!plain)).leave
    (d := some (.failure ⟨.general, none, message⟩)) fun _ eq => Option.some.inj eq ▸ clean
  exact ⟨congrArg exitCode left.ending, rfl, left.written⟩

theorem decorates_runFile (o : Options) {path : String} (cleanPath : Text.Clean path)
    {text : Option String} (cleanText : ∀ t ∈ text, Text.Clean t) :
    (runFile o path text).Decorates (runFile (o.set .plain) path text) := by
  by_cases reserved : path = Session.inputPath
  · subst reserved
    have clean : Text.Clean ("'" ++ Session.inputPath ++ "' is a reserved filename") :=
      Text.clean_append.2 ⟨Text.clean_append.2 ⟨.ofList rfl, cleanPath⟩, .ofList rfl⟩
    rw [runFile_inputPath, runFile_inputPath]
    exact decorates_unstarted o.plain clean
  cases text with
  | none =>
    have clean : Text.Clean ("'" ++ path ++ "' could not be opened") :=
      Text.clean_append.2 ⟨Text.clean_append.2 ⟨.ofList rfl, cleanPath⟩, .ofList rfl⟩
    rw [runFile_none reserved, runFile_none reserved]
    exact decorates_unstarted o.plain clean
  | some text =>
    have session : (fileSession o.plain path text).Clean :=
      ⟨Reporter.clean_new true (!o.plain), cleanPath⟩
    rw [runFile_eq reserved, runFile_eq reserved]
    exact decorates_concluded (onlyDecorates_workOn o (cleanText text rfl)) session

/-! ### The shell -/

theorem decorates_converse {s : Session} (hs : s.Clean) {lines : List String}
    (clean : ∀ line ∈ lines, Text.Clean line) :
    (converse s lines).Decorates (converse s.plain lines) := by
  induction lines generalizing s with
  | nil =>
    have reply := Shell.decorates_enter hs (Text.Clean.ofList rfl : Text.Clean "EOF")
    simp only [converse, reply.trace.output, reply.said]
    exact ⟨rfl, rfl, reply.trace.reports⟩
  | cons line lines ih =>
    obtain ⟨first, others⟩ := List.forall_mem_cons.1 clean
    have reply := Shell.decorates_enter hs first
    have rest := ih reply.clean others
    simp only [converse, reply.trace.output, reply.said, reply.stop, reply.session]
    split
    · exact ⟨rfl, rfl, reply.trace.reports⟩
    · exact ⟨rest.code, by rw [rest.stdout], reply.trace.reports.append rest.stderr⟩

theorem clean_inputLines {input : String} (clean : Text.Clean input) :
    ∀ line ∈ inputLines input, Text.Clean line := by
  have piece : ∀ l ∈ Text.lines input.toList, Text.Clean (String.ofList l) := fun l hl =>
    Text.clean_ofList.2 fun mem => clean (Text.mem_of_mem_lines hl mem).1
  unfold inputLines
  dsimp only
  rw [List.forall_mem_map]
  split
  · exact fun l hl => piece l (List.dropLast_subset _ hl)
  · exact piece

theorem decorates_runShell (o : Options) {input : String} (clean : Text.Clean input) :
    (runShell o input).Decorates (runShell (o.set .plain) input) := by
  have session : (newShell o).Clean :=
    ⟨(Reporter.clean_new true (!o.plain)).forTyping, .ofList rfl⟩
  have result := decorates_converse session (clean_inputLines clean)
  unfold runShell
  rw [show newShell (o.set .plain) = (newShell o).plain from rfl]
  exact ⟨result.code, congrArg (Shell.intro ++ ·) result.stdout, result.stderr⟩

/-! ### Every command line -/

theorem decorates_run {arguments : List String} {readFile : String → Option String} {input : String}
    (cleanArguments : ∀ a ∈ arguments, Text.Clean a)
    (cleanFiles : ∀ path text, readFile path = some text → Text.Clean text)
    (cleanInput : Text.Clean input) :
    (run arguments readFile input).Decorates (run ("--no-color" :: arguments) readFile input) := by
  have clean := clean_plan cleanArguments
  unfold run
  rw [plan_noColor]
  generalize plan arguments = planned at clean ⊢
  cases planned with
  | answer r => exact ⟨rfl, rfl, Text.Clean.decorates clean⟩
  | file o path => exact decorates_runFile o clean fun text => cleanFiles path text
  | shell o => exact decorates_runShell o cleanInput

/-- **Colour is decoration only.**  Take any command line, any set of files and any input, in none
of which there is an escape character.  With `--no-color` in front of the command line the program
ends with the same code and writes the same to the standard output; and what it writes to the
standard error is what it writes there without the flag, less all control sequences. -/
theorem run_noColor {arguments : List String} {readFile : String → Option String} {input : String}
    (cleanArguments : ∀ a ∈ arguments, Text.Clean a)
    (cleanFiles : ∀ path text, readFile path = some text → Text.Clean text)
    (cleanInput : Text.Clean input) :
    (run ("--no-color" :: arguments) readFile input).code = (run arguments readFile input).code ∧
      (run ("--no-color" :: arguments) readFile input).stdout =
        (run arguments readFile input).stdout ∧
      (run ("--no-color" :: arguments) readFile input).stderr.toList =
        Text.unstyled (run arguments readFile input).stderr.toList := by
  have decorates := decorates_run cleanArguments cleanFiles cleanInput
  exact ⟨decorates.code, decorates.stdout, decorates.stderr.unstyled_eq.symm⟩

/-- A file that asks for an unbound name: the place, the kind and the caret of the report are
styled, each by itself. -/
theorem run_noColor_unbound_name :
    let files (path : String) : Option String := if path = "f" then some "x" else none
    let styled := run ["f"] files ""
    let plain := run ["--no-color", "f"] files ""
    styled = ⟨70, "", "\x1b[1mf:1:1: \x1b[0m\x1b[1m\x1b[31mRuntimeError: \x1b[0m" ++
        "Undefined identifier 'x'\n\n\t\"x\"\n\t\x1b[1m\x1b[31m ^\x1b[0m\n"⟩ ∧
      plain.code = styled.code ∧ plain.stdout = styled.stdout ∧
      plain.stderr.toList = Text.unstyled styled.stderr.toList := by
  intro files styled plain
  have cleanFiles : ∀ path text, files path = some text → Text.Clean text := by
    intro path text found
    by_cases named : path = "f"
    · obtain rfl : "x" = text := Option.some.inj ((if_pos named).symm.trans found)
      exact .ofList rfl
    · cases (if_neg named).symm.trans found
  exact ⟨by decide +kernel, run_noColor (List.forall_mem_singleton.2 (.ofList rfl)) cleanFiles
    Text.clean_empty⟩

end CommandLine

end Lisplet
