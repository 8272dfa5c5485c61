import Lisplet.Proofs.CommandLine.Flags
import Lisplet.Proofs.Evaluation.Sequence
import Lisplet.Proofs.Segmentation.Cut
import Lisplet.Proofs.Sessions.Listing

/-!
# What comes of a file

A command line of flags and one path has the program run the file at that path, or list its tokens
or trees.  `FileOutcome` and `TokensOutcome` tell by cases what comes of a file that can be read:
the exit code, what is written to the standard output, and what is reported.  For every text there
is just one outcome, and it is that of the program (`run_fileLine`).
-/

namespace Lisplet

namespace Reporter

/-- What is written is the report of the failure, on lines of its own. -/
def Tells (r : Reporter) (f : Failure) (written : String) : Prop :=
  ∃ report, r.format .error f = .ok report ∧ written = report ++ "\n"

/-- What is written before anything else of a file with these tokens: a warning if there is none but
the one that ends the text, and otherwise nothing.  The warning quotes the last line. -/
def Warns (r : Reporter) (path : String) (ts : Tokens) (written : String) : Prop :=
  if ts.ahead = [] then
    ∃ source line, r.source = some source ∧ source.line ts.last.line = .ok line ∧
      written = Text.bold r.styled none (r.context ts.last ++ ": ") ++
        Text.bold r.styled (some .magenta) "warning: " ++
        ("'" ++ path ++ "' contains no expressions") ++ "\n" ++
        r.quote .warning line ts.last ++ "\n"
  else written = ""

theorem isEmpty_context {r : Reporter} (typed : r.interactive = false) (t : Token) :
    (r.context t).isEmpty = false := by
  simp [context, typed]

/-- The text of a warning about a token of the registered source. -/
theorem warn_eq_ok_iff {r : Reporter} {l : Lexer} (source : r.source = some l)
    (typed : r.interactive = false) (t : Token) (message : String) {written : String} :
    r.warn (some t) message = .ok written ↔ ∃ line, l.line t.line = .ok line ∧
      written = Text.bold r.styled none (r.context t ++ ": ") ++
        Text.bold r.styled (some .magenta) "warning: " ++ message ++ "\n" ++
        r.quote .warning line t ++ "\n" := by
  have headline : r.headline .warning ⟨.general, some t, message⟩ =
      Text.bold r.styled none (r.context t ++ ": ") ++
        Text.bold r.styled (some .magenta) "warning: " ++ message := by
    simp only [Reporter.headline, place, source, isEmpty_context typed]
    rfl
  simp only [warn, format, source, headline]
  cases l.line t.line with
  | error e => simp [Except.map]
  | ok line => simp [Except.map, eq_comm]

theorem Warns.unique {r : Reporter} {path : String} {ts : Tokens} {w w' : String}
    (h : r.Warns path ts w) (h' : r.Warns path ts w') : w = w' := by
  unfold Warns at h h'
  split at h
  · obtain ⟨source, line, registered, found, rfl⟩ := h
    rw [if_pos ‹_›] at h'
    obtain ⟨source', line', registered', found', rfl⟩ := h'
    rw [registered] at registered'
    obtain rfl := Option.some.inj registered'
    rw [found] at found'
    rw [Except.ok.inj found']
  · rw [if_neg ‹_›] at h'
    rw [h, h']

end Reporter

/-- What is told of a departure that is none of the interpreter itself. -/
def Departure.failure? : Departure → Option Failure
  | .failure f => some f
  | .tooDeep => some .tooDeep
  | _ => none

theorem Reporter.leave_of_failure? {d : Departure} {f : Failure} (h : d.failure? = some f)
    (r : Reporter) : r.leave (some d) = r.throw f false := by
  cases d with
  | failure g => cases h; rfl
  | tooDeep => cases h; rfl
  | exit | interrupt | internal => cases h

/-- What is told of a halt. -/
def Halt.failure : Halt → Failure
  | .fault x => x.failure
  | .tooDeep => .tooDeep

theorem Halt.failure?_departure (halt : Halt) : halt.departure.failure? = some halt.failure := by
  cases halt <;> rfl

theorem Halt.exitCode_failure (halt : Halt) : halt.failure.kind.exitCode = 70 := by
  cases halt <;> rfl

/-- All items have a property, or there is a first one that has not. -/
theorem forall_or_first {α : Type} (p : α → Prop) (as : List α) :
    (∀ a ∈ as, p a) ∨
      ∃ before a after, as = before ++ a :: after ∧ (∀ b ∈ before, p b) ∧ ¬ p a := by
  induction as with
  | nil => exact .inl (by simp)
  | cons a as ih =>
    by_cases ha : p a
    · rcases ih with all | ⟨before, b, after, rfl, hbefore, hb⟩
      · exact .inl (List.forall_mem_cons.2 ⟨ha, all⟩)
      · exact .inr ⟨a :: before, b, after, rfl, List.forall_mem_cons.2 ⟨ha, hbefore⟩, hb⟩
    · exact .inr ⟨[], a, as, rfl, by simp, ha⟩

namespace CommandLine

/-- What the program is asked to do with a file. -/
inductive Mode where
  | run
  | tokens
  | tree
deriving DecidableEq

namespace Mode

/-- The flag that asks for a mode. -/
def flag? : Mode → Option Flag
  | run => none
  | tokens => some .tokens
  | tree => some .tree

/-- What is done in a mode. -/
def work : Mode → String → Work Unit
  | run => Work.run
  | tokens => Work.showTokens
  | tree => Work.showTree

end Mode

/-- The flags ask for a mode and, if `plain` is set, for reports that are not styled. -/
def Asks (flags : List Flag) (plain : Bool) (mode : Mode) : Prop :=
  ∀ f, f ∈ flags ↔ (f = .plain ∧ plain = true) ∨ mode.flag? = some f

/-- The reporter of a file: it quotes the text of the file, and a failure ends the program. -/
def fileReporter (plain : Bool) (path text : String) : Reporter :=
  (Reporter.new true (!plain)).register path (readOf text)

/-- What comes of tokens that were read from a file, where `r` reports. -/
inductive TokensOutcome (r : Reporter) (ts : Tokens) : Mode → Result → Prop where
  /-- The tokens cannot be parsed.  That does not matter where only these are asked for. -/
  | malformed {mode : Mode} {e : ParseError} {report : String} (parses : mode ≠ .tokens)
      (refused : parse ts = .error (.error e)) (told : r.Tells e.failure report) :
      TokensOutcome r ts mode ⟨65, "", report⟩
  /-- All expressions have values. -/
  | finished {es : List Expr} (parsed : parse ts = .ok es)
      (finish : ∀ e ∈ es, e.Finishes depthLimit .empty) :
      TokensOutcome r ts .run ⟨0, outputOf depthLimit .empty es, ""⟩
  /-- One expression halts; those before it have values, and those after it are not evaluated. -/
  | halted {before after : List Expr} {e : Expr} {halt : Halt} {report : String}
      (parsed : parse ts = .ok (before ++ e :: after))
      (finish : ∀ b ∈ before, b.Finishes depthLimit .empty)
      (halts : (evaluate depthLimit e .empty).result = .error halt)
      (told : r.Tells halt.failure report) :
      TokensOutcome r ts .run
        ⟨70, outputOf depthLimit .empty before ++ (evaluate depthLimit e .empty).output, report⟩
  /-- The tokens are listed, one on a line. -/
  | listed : TokensOutcome r ts .tokens
      ⟨0, String.join (ts.toList.map fun t => t.describe ++ "\n"), ""⟩
  /-- The trees are listed. -/
  | drawn {es : List Expr} (parsed : parse ts = .ok es)
      (shallow : ∀ e ∈ es, e.outline.depth ≤ depthLimit) :
      TokensOutcome r ts .tree ⟨0, String.join (es.map fun e => e.outline.text ++ "\n"), ""⟩
  /-- The expressions are nested too deeply to be parsed. -/
  | tooDeep {mode : Mode} {report : String} (parses : mode ≠ .tokens)
      (deep : parse ts = .error .tooDeep) (told : r.Tells .tooDeep report) :
      TokensOutcome r ts mode ⟨70, "", report⟩
  /-- One tree has too many levels to be listed. -/
  | tooDeepToDraw {before after : List Expr} {e : Expr} {report : String}
      (parsed : parse ts = .ok (before ++ e :: after))
      (shallow : ∀ b ∈ before, b.outline.depth ≤ depthLimit)
      (deep : ¬ e.outline.depth ≤ depthLimit) (told : r.Tells .tooDeep report) :
      TokensOutcome r ts .tree
        ⟨70, String.join (before.map fun e => e.outline.text ++ "\n"), report⟩

/-- What comes of a file with a text, where `r` reports. -/
inductive FileOutcome (r : Reporter) (path text : String) (mode : Mode) : Result → Prop where
  /-- A string is never closed. -/
  | unclosed {e : UnclosedString} {report : String} (stopped : tokenize text = .error e)
      (told : r.Tells e.failure report) : FileOutcome r path text mode ⟨65, "", report⟩
  /-- The text is read to its end. -/
  | read {ts : Tokens} {warning stdout stderr : String} {code : Int}
      (read : tokenize text = .ok ts) (warned : r.Warns path ts warning)
      (outcome : TokensOutcome r ts mode ⟨code, stdout, stderr⟩) :
      FileOutcome r path text mode ⟨code, stdout, warning ++ stderr⟩

/-! ### Work on a file -/

/-- The session in which a file is worked on. -/
def fileSession (plain : Bool) (path text : String) : Session :=
  ⟨Reporter.new true (!plain), path, false, some text, .empty⟩

/-- The session in which what was read of the file is registered. -/
def fileRead (plain : Bool) (path text : String) : Session :=
  (fileSession plain path text).registered (readOf text)

/-- What the program answers that does some work in a session. -/
def concluded (x : Work Unit) (s : Session) : Result :=
  let block := x.guarded s
  ⟨exitCode block.2.2, block.2.1.output ++ block.2.1.listing, block.2.1.reports⟩

section Outcome

variable {plain : Bool} {path text : String} {mode : Mode} {ts : Tokens} {warning : String}

/-- Work that comes to its end reports nothing more. -/
theorem concluded_of_ok {x : Work Unit} {s s' : Session} {trace : Trace}
    (done : x s = (s', trace, .ok ())) :
    concluded x s = ⟨0, trace.output ++ trace.listing, trace.reports⟩ := by
  simp only [concluded, Work.guarded, done, Reporter.leave]
  rw [String.append_empty]
  rfl

/-- Work on a file that is left ends with one report and the exit code of what is told in it. -/
theorem concluded_of_left {x : Work Unit} {s : Session} {trace : Trace} {d : Departure}
    {f : Failure} {report : String} (left : x s = (fileRead plain path text, trace, .error d))
    (failure : d.failure? = some f) (told : (fileReporter plain path text).Tells f report) :
    concluded x s =
      ⟨f.kind.exitCode, trace.output ++ trace.listing, trace.reports ++ report⟩ := by
  obtain ⟨written, formatted, rfl⟩ := told
  have thrown : (fileRead plain path text).reporter.leave (some d) =
      ⟨fileReporter plain path text, written ++ "\n", .leaves (.exit (some f.kind.exitCode))⟩ := by
    rw [Reporter.leave_of_failure? failure, Reporter.throw,
      show (fileRead plain path text).reporter = fileReporter plain path text from rfl, formatted]
    simp [fileReporter, Reporter.register, Reporter.new]
  simp only [concluded, Work.guarded, left, thrown]
  rfl

/-- There is a warning or nothing to be written first, and the tokens are read. -/
theorem exists_lexed (plain : Bool) (path : String) (read : tokenize text = .ok ts) :
    ∃ warning, (fileReporter plain path text).Warns path ts warning ∧
      Work.lex text (fileSession plain path text) =
        (fileRead plain path text, ⟨"", "", warning⟩, .ok ts) := by
  obtain ⟨warning, lexed, reports⟩ := Work.lex_of_ok read (fileSession plain path text)
  refine ⟨warning, ?_, lexed⟩
  unfold Reporter.Warns
  split
  · have warned := (if_pos ⟨‹_›, rfl⟩).mp reports
    obtain ⟨line, found, told⟩ := (Reporter.warn_eq_ok_iff rfl rfl _ _).1 warned
    exact ⟨_, line, rfl, found, told⟩
  · exact (if_neg fun h => ‹¬ _› h.1).mp reports

theorem lex_of_warns (read : tokenize text = .ok ts)
    (warned : (fileReporter plain path text).Warns path ts warning) :
    Work.lex text (fileSession plain path text) =
      (fileRead plain path text, ⟨"", "", warning⟩, .ok ts) := by
  obtain ⟨warning', warned', lexed⟩ := exists_lexed plain path read
  rwa [warned.unique warned']

/-- In every mode the tokens are read first. -/
theorem Mode.work_of_unclosed {e : UnclosedString} (stopped : tokenize text = .error e)
    (mode : Mode) (s : Session) :
    mode.work text s = (s.registered (readOf text), .empty, .error (.failure e.failure)) := by
  cases mode with
  | run | tree => exact Work.closing_of_error (Work.parse_of_unclosed stopped s)
  | tokens => exact Work.closing_of_error (Work.lex_of_error stopped s)

/-- In every mode but that for tokens, nothing comes of tokens that cannot be parsed. -/
theorem Mode.work_of_parse_left (parses : mode ≠ .tokens) {s s' : Session} {trace : Trace}
    {d : Departure} (left : Work.parse text s = (s', trace, .error d)) :
    mode.work text s = (s', trace, .error d) := by
  cases mode with
  | run | tree => exact Work.closing_of_error left
  | tokens => exact absurd rfl parses

/-- What comes of the tokens is what the program answers, behind the warning. -/
theorem TokensOutcome.concluded_eq {result : Result} (read : tokenize text = .ok ts)
    (warned : (fileReporter plain path text).Warns path ts warning)
    (h : TokensOutcome (fileReporter plain path text) ts mode result) :
    concluded (mode.work text) (fileSession plain path text) =
      { result with stderr := warning ++ result.stderr } := by
  -- The globals of the session are empty, and stay so.
  have globals : (fileRead plain path text).globals = .empty := rfl
  have parse_eq {x : Except ParseStop (List Expr)} (hx : parse ts = x) :
      Work.parse text (fileSession plain path text) =
        (fileRead plain path text, ⟨"", "", warning⟩, x.mapError ParseStop.departure) := by
    rw [← hx]
    exact Work.parse_of_lex (lex_of_warns read warned)
  cases h with
  | malformed parses refused told =>
    exact concluded_of_left (mode.work_of_parse_left parses (parse_eq refused)) rfl told
  | tooDeep parses deep told =>
    exact concluded_of_left (mode.work_of_parse_left parses (parse_eq deep)) rfl told
  | finished parsed finish =>
    obtain ⟨output, result⟩ := interpret_of_finish finish
    refine (concluded_of_ok (Work.run_of_finished (parse_eq parsed) result)).trans ?_
    rw [globals, output]
    simp
  | halted parsed finish halts told =>
    obtain ⟨output, result⟩ := interpret_of_halt finish halts _
    have left := Work.run_of_halted (parse_eq parsed) result
    refine (concluded_of_left left (Halt.failure?_departure _) told).trans ?_
    rw [globals, output, Halt.exitCode_failure]
    simp
  | listed =>
    refine (concluded_of_ok (Work.showTokens_of_lex (lex_of_warns read warned))).trans ?_
    simp [Function.comp_def]
  | drawn parsed shallow =>
    refine (concluded_of_ok (Work.showTree_of_shallow (parse_eq parsed) shallow)).trans ?_
    simp [Function.comp_def]
  | tooDeepToDraw parsed shallow deep told =>
    have left := Work.showTree_of_deep (parse_eq parsed) shallow deep
    refine (concluded_of_left left rfl told).trans ?_
    simp [Function.comp_def, Failure.tooDeep, FailureKind.exitCode]

theorem FileOutcome.concluded_eq {result : Result}
    (h : FileOutcome (fileReporter plain path text) path text mode result) :
    concluded (mode.work text) (fileSession plain path text) = result := by
  cases h with
  | unclosed stopped told =>
    refine (concluded_of_left (mode.work_of_unclosed stopped _) rfl told).trans ?_
    simp [UnclosedString.failure, FailureKind.exitCode]
  | read read warned outcome => exact outcome.concluded_eq read warned

/-- What can be explained can be told of. -/
theorem exists_tells {f : Failure} (h : Work.Explained text (.failure f)) :
    ∃ written, (fileReporter plain path text).Tells f written := by
  obtain ⟨report, formatted⟩ := h.canTell (fileSession plain path text)
  exact ⟨report ++ "\n", report, formatted, rfl⟩

theorem exists_tells_tooDeep (plain : Bool) (path text : String) :
    ∃ written, (fileReporter plain path text).Tells .tooDeep written :=
  ⟨_, _, rfl, rfl⟩

/-- Expressions that were read have values, or there is a first one that halts. -/
theorem exists_outcome_of_run {es : List Expr} (read : tokenize text = .ok ts)
    (parsed : parse ts = .ok es) :
    ∃ result, TokensOutcome (fileReporter plain path text) ts .run result := by
  rcases forall_or_first (Expr.Finishes depthLimit .empty) es with
    finish | ⟨before, e, after, rfl, finish, unfinished⟩
  · exact ⟨_, .finished parsed finish⟩
  · cases halts : (evaluate depthLimit e .empty).result with
    | ok v => exact absurd ⟨v, halts⟩ unfinished
    | error halt =>
      have told : ∃ written, (fileReporter plain path text).Tells halt.failure written := by
        cases halt with
        | tooDeep => exact exists_tells_tooDeep plain path text
        | fault x =>
          have left := (interpret_of_halt finish halts after).2
          exact exists_tells (Work.explained_of_fault read parsed left)
      obtain ⟨written, told⟩ := told
      exact ⟨_, .halted parsed finish halts told⟩

theorem exists_outcome_of_tree {es : List Expr} (parsed : parse ts = .ok es) :
    ∃ result, TokensOutcome (fileReporter plain path text) ts .tree result := by
  rcases forall_or_first (fun e => e.outline.depth ≤ depthLimit) es with
    shallow | ⟨before, e, after, rfl, shallow, deep⟩
  · exact ⟨_, .drawn parsed shallow⟩
  · obtain ⟨written, told⟩ := exists_tells_tooDeep plain path text
    exact ⟨_, .tooDeepToDraw parsed shallow deep told⟩

/-- Something comes of all tokens that were read. -/
theorem exists_tokensOutcome (plain : Bool) (path : String) (mode : Mode)
    (read : tokenize text = .ok ts) :
    ∃ result, TokensOutcome (fileReporter plain path text) ts mode result := by
  by_cases tokens : mode = .tokens
  · subst tokens
    exact ⟨_, .listed⟩
  cases parsed : parse ts with
  | error stop =>
    cases stop with
    | error e =>
      obtain ⟨written, told⟩ := exists_tells (Work.explained_of_refused read parsed)
      exact ⟨_, .malformed tokens parsed told⟩
    | tooDeep =>
      obtain ⟨written, told⟩ := exists_tells_tooDeep plain path text
      exact ⟨_, .tooDeep tokens parsed told⟩
  | ok es =>
    cases mode with
    | run => exact exists_outcome_of_run read parsed
    | tokens => exact absurd rfl tokens
    | tree => exact exists_outcome_of_tree parsed

/-- Something comes of every text. -/
theorem exists_outcome (plain : Bool) (path text : String) (mode : Mode) :
    ∃ result, FileOutcome (fileReporter plain path text) path text mode result := by
  cases read : tokenize text with
  | error e =>
    obtain ⟨written, told⟩ := exists_tells (.unclosed read)
    exact ⟨_, .unclosed read told⟩
  | ok ts =>
    obtain ⟨warning, warned, -⟩ := exists_lexed plain path read
    obtain ⟨result, outcome⟩ := exists_tokensOutcome plain path mode read
    exact ⟨_, .read read warned outcome⟩

/-- What the program answers is what comes of the text. -/
theorem concluded_eq_iff {result : Result} :
    concluded (mode.work text) (fileSession plain path text) = result ↔
      FileOutcome (fileReporter plain path text) path text mode result := by
  refine ⟨?_, FileOutcome.concluded_eq⟩
  rintro rfl
  obtain ⟨result, outcome⟩ := exists_outcome plain path text mode
  rwa [outcome.concluded_eq]

end Outcome

/-! ### The command line -/

section Flags

variable {flags : List Flag} {plain : Bool} {mode : Mode}

/-- Flags that ask for a mode can be given. -/
theorem Asks.allows (h : Asks flags plain mode) : Options.empty.Allows flags where
  noHelp := fun mem => by
    rcases (h .help).1 mem with ⟨help, -⟩ | help
    · cases help
    · cases mode <;> cases help
  noRival := fun f mem g rival => by
    refine ⟨fun mem' => ?_, by cases g <;> rfl⟩
    have one := (h f).1 mem
    have other := (h g).1 mem'
    -- Tokens and trees exclude each other, and a mode has one flag at most.
    cases f <;> cases rival <;> cases mode <;> simp_all [Mode.flag?]

/-- Options that have just the flags that ask for a mode ask for the work of that mode. -/
theorem Asks.workOn_eq (h : Asks flags plain mode) {o : Options}
    (has : ∀ f, o.has f = decide (f ∈ flags)) : o.plain = plain ∧ workOn o = mode.work := by
  have given (f : Flag) : o.has f = true ↔ (f = .plain ∧ plain = true) ∨ mode.flag? = some f := by
    rw [has, decide_eq_true_iff, h f]
  have plain_iff : o.plain = true ↔ plain = true :=
    (given .plain).trans (by cases mode <;> simp [Mode.flag?])
  have tokens_iff : o.tokens = true ↔ mode = .tokens :=
    (given .tokens).trans (by cases mode <;> simp [Mode.flag?])
  have tree_iff : o.tree = true ↔ mode = .tree :=
    (given .tree).trans (by cases mode <;> simp [Mode.flag?])
  refine ⟨Bool.eq_iff_iff.2 plain_iff, ?_⟩
  funext text
  cases mode <;> simp_all [workOn, Mode.work]

end Flags

theorem runFile_eq {path : String} (named : path ≠ Session.inputPath) (o : Options)
    (text : String) :
    runFile o path (some text) = concluded (workOn o text) (fileSession o.plain path text) := by
  simp only [runFile, Session.start, if_neg named]
  rfl

/-- **What comes of a file.**  Flags that ask for a mode, before or behind the path of a file that
can be read, in any order, make the program end with just one of the outcomes of the file's text in
that mode. -/
theorem run_fileLine {before after : List Flag} {plain : Bool} {mode : Mode} {path text : String}
    {readFile : String → Option String} (asks : Asks (before ++ after) plain mode)
    (named : path ≠ Session.inputPath) (noFlag : path.toList.head? ≠ some '-')
    (readable : readFile path = some text) (input : String) (result : Result) :
    CommandLine.run (fileLine before path after) readFile input = result ↔
      FileOutcome (fileReporter plain path text) path text mode result := by
  obtain ⟨o, planned, has⟩ := plan_fileLine asks.allows noFlag
  obtain ⟨rfl, work⟩ := asks.workOn_eq has
  rw [← concluded_eq_iff, ← work, ← runFile_eq named]
  simp only [CommandLine.run, planned, readable]

open Segment in
/-- A file that prints a string and then asks for an unbound name: what was printed stays, and there
is one report. -/
theorem run_fileLine_print_name :
    let text := "(print \"a\") x"
    let files (path : String) := if path = "f" then some text else none
    let fault : Fault := ⟨⟨.identifier, "x", .null, 1, 13⟩, .undefinedIdentifier⟩
    ∃ report, (fileReporter true "f" text).Tells fault.failure report ∧
      CommandLine.run ["--no-color", "f"] files "" = ⟨70, "a", report⟩ := by
  intro text files fault
  have chars : text.toList =
      ['(', 'p', 'r', 'i', 'n', 't', ' ', '"', 'a', '"', ')', ' ', 'x'] :=
    show "(print \"a\") x".toList = _ from rfl
  let segments : List Segment :=
    [lexeme .lparen ['('], lexeme .print ['p', 'r', 'i', 'n', 't'], blank ' ',
      lexeme .string ['"', 'a', '"'], lexeme .rparen [')'], blank ' ', lexeme .identifier ['x']]
  have cuts : Cuts text.toList segments [] := by
    rw [chars]
    exact .of_next rfl (.of_next rfl (.of_next rfl (.of_next rfl (.of_next rfl (.of_next rfl
      (.of_next rfl .nil))))))
  have read := tokenize_of_closed cuts
  let printed : Expr := .print ⟨.print, "print", .null, 1, 2⟩ [.literal (.string "a")]
  let unbound : Expr := .identifier fault.token
  have parsed : parse ⟨tokens .start segments, (Lexer.ofSource text).eof, rfl⟩ =
    .ok ([printed] ++ unbound :: []) := rfl
  have finish : ∀ b ∈ [printed], b.Finishes depthLimit .empty := by
    simp only [List.mem_singleton]
    rintro b rfl
    exact ⟨.null, rfl⟩
  have halts : (evaluate depthLimit unbound .empty).result = .error (.fault fault) := rfl
  have left := (interpret_of_halt finish halts []).2
  obtain ⟨report, told⟩ := exists_tells (Work.explained_of_fault read parsed left)
  have asks : Asks ([.plain] ++ []) true .run := by
    intro f
    cases f <;> simp [Mode.flag?]
  have outcome : FileOutcome (fileReporter true "f" text) "f" text .run ⟨70, "a", report⟩ :=
    .read read rfl (.halted parsed finish halts told)
  have readable : files "f" = some text := if_pos rfl
  exact ⟨report, told, (run_fileLine asks (by decide) (by decide) readable "" _).2 outcome⟩

end CommandLine

end Lisplet
