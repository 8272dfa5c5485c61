import Lisplet.Proofs.Sessions.Isolation

/-!
# How guarded blocks are left

A reporter guards a block of work and handles whatever the block is left by.  What it writes and
where the program goes on depends on three things: what the block is left by, whether the reporter
is fatal, and whether the line of the token to blame can be quoted (`Reporter.leave_eq`).  A line
can be quoted just where the table of the registered source has it (`Lexer.HasLine`).

A reporter that is not fatal forgets the source of each block that is left by a failure.  Since work
that comes to its end forgets it as well, nothing is registered between the lines of a shell,
however many there are.
-/

namespace Lisplet

/-! ### Lines that can be quoted -/

namespace Lexer

variable {l : Lexer} {n : Int}

/-- The table of lines has the line: it is closed, or it is the one that is being read. -/
def HasLine (l : Lexer) (n : Int) : Prop :=
  (1 ≤ n ∧ n ≤ l.closedLines.length) ∨ (n = l.closedLines.length + 1 ∧ l.endings.getD 0 = 0)

theorem exists_line_of_hasLine (has : l.HasLine n) : ∃ text, l.line n = .ok text := by
  unfold line
  dsimp only
  by_cases isOpen : n = l.closedLines.length + 1 ∧ l.endings.getD 0 = 0
  · exact ⟨_, if_pos isOpen⟩
  · obtain ⟨first, last⟩ := has.resolve_right isOpen
    have lt : (n - 1).toNat < l.closedLines.length := by omega
    rw [if_neg isOpen, if_pos first, List.getElem?_eq_getElem lt]
    exact ⟨_, rfl⟩

theorem line_of_not_hasLine (lacks : ¬ l.HasLine n) :
    l.line n = .error ⟨l.closedLines.length, n⟩ := by
  obtain ⟨outside, notOpen⟩ := not_or.1 lacks
  unfold line
  dsimp only
  rw [if_neg notOpen]
  split
  · have beyond : l.closedLines[(n - 1).toNat]? = none := by
      rw [List.getElem?_eq_none_iff]
      omega
    rw [beyond]
  · rfl

end Lexer

namespace Reporter

variable {r : Reporter} {f : Failure}

/-- If there are a source and a token, the line of the token can be quoted. -/
def CanQuote (r : Reporter) (f : Failure) : Prop :=
  ∀ l ∈ r.source, ∀ t ∈ f.token, l.HasLine t.line

theorem canQuote_of_token (noToken : f.token = none) : r.CanQuote f := by
  intro l _ t mem
  rw [noToken] at mem
  cases mem

theorem exists_format_of_canQuote (can : r.CanQuote f) (severity : Severity) :
    ∃ report, r.format severity f = .ok report := by
  unfold format
  split
  · rename_i l t source token
    obtain ⟨text, line⟩ := Lexer.exists_line_of_hasLine (can l source t token)
    exact ⟨_, by rw [line]; rfl⟩
  · exact ⟨_, rfl⟩

theorem format_of_not_canQuote (cannot : ¬ r.CanQuote f) (severity : Severity) :
    ∃ l t, r.source = some l ∧ f.token = some t ∧ ¬ l.HasLine t.line ∧
      r.format severity f = .error ⟨l.closedLines.length, t.line⟩ := by
  simp only [CanQuote, Classical.not_forall] at cannot
  obtain ⟨l, source, t, token, lacks⟩ := cannot
  have source : r.source = some l := source
  have token : f.token = some t := token
  refine ⟨l, t, source, token, lacks, ?_⟩
  simp only [format, source, token, Lexer.line_of_not_hasLine lacks, Except.map]

end Reporter

/-! ### Blocks -/

/-- What is told of a departure: nothing of the end of the program, and of a failure of the
interpreter itself not what is told of the others. -/
def Departure.told? : Departure → Option Failure
  | .exit _ | .internal .. => none
  | .interrupt => some .interrupted
  | .tooDeep => some .tooDeep
  | .failure f => some f

namespace Reporter

variable {r : Reporter} {d : Departure} {f : Failure}

theorem leave_of_told (told : d.told? = some f) (r : Reporter) :
    r.leave (some d) = r.throw f false := by
  cases d <;> cases told <;> rfl

theorem throw_of_format {report : String} (formatted : r.format .error f = .ok report)
    (internal : Bool) :
    r.throw f internal =
      if r.fatal then ⟨r, (if internal then r.internalMark else "") ++ report ++ "\n",
        .leaves (.exit (some f.kind.exitCode))⟩
      else ⟨{ r with source := none },
        (if internal then r.internalMark else "") ++ report ++ "\n", .goesOn⟩ := by
  simp only [throw, formatted]
  rfl

/-- A failure whose token can be quoted is reported once.  Then the program ends if the reporter is
fatal; otherwise the source is forgotten, and the failure goes no further. -/
theorem leave_of_canQuote (told : d.told? = some f) (can : r.CanQuote f) :
    ∃ report, r.format .error f = .ok report ∧
      r.leave (some d) =
        if r.fatal then ⟨r, report ++ "\n", .leaves (.exit (some f.kind.exitCode))⟩
        else ⟨{ r with source := none }, report ++ "\n", .goesOn⟩ := by
  obtain ⟨report, formatted⟩ := exists_format_of_canQuote can .error
  refine ⟨report, formatted, ?_⟩
  rw [leave_of_told told, throw_of_format formatted]
  simp

/-- Where the token cannot be quoted, nothing is reported and nothing changes. -/
theorem leave_of_not_canQuote (told : d.told? = some f) (cannot : ¬ r.CanQuote f) :
    ∃ l t, r.source = some l ∧ f.token = some t ∧ ¬ l.HasLine t.line ∧
      r.leave (some d) = ⟨r, "", .unreported ⟨l.closedLines.length, t.line⟩⟩ := by
  obtain ⟨l, t, source, token, lacks, refused⟩ := format_of_not_canQuote cannot .error
  refine ⟨l, t, source, token, lacks, ?_⟩
  rw [leave_of_told told, throw, refused]

/-- A failure of the interpreter itself has no token, so that it is always reported. -/
theorem leave_internal (r : Reporter) (name message : String) :
    ∃ report, r.format .error (.unknown name message) = .ok report ∧
      r.leave (some (.internal name message)) =
        let mark := Text.bold r.styled (some .red) "[internal] "
        if r.fatal then ⟨r, mark ++ report ++ "\n", .leaves (.exit (some 70))⟩
        else ⟨{ r with source := none }, mark ++ report ++ "\n",
          .leaves (.internal name message)⟩ := by
  have can : r.CanQuote (.unknown name message) := canQuote_of_token rfl
  obtain ⟨report, formatted⟩ := exists_format_of_canQuote can .error
  refine ⟨report, formatted, ?_⟩
  rw [leave, throw_of_format formatted]
  cases r.fatal <;> rfl

end Reporter

/-- Between the lines of a shell nothing is registered, and each unit among them goes on. -/
theorem Shell.guarded_run_between {s : Session} (resumes : s.reporter.fatal = false)
    (nothing : s.reporter.source = none) (lines : List String) (source : String) :
    (enterAll s lines).reporter.source = none ∧
      ((Work.run source).guarded (enterAll s lines)).2.2 = .goesOn ∧
      ((Work.run source).guarded (enterAll s lines)).1.reporter.source = none := by
  refine ⟨source_enterAll nothing (.inl resumes), ?_⟩
  rcases Work.guarded_run_cases source (enterAll s lines) with ⟨forgotten, goesOn⟩ | ⟨fatal, -⟩
  · exact ⟨goesOn, forgotten⟩
  · rw [Session.fatal_eq (renewed_enterAll s lines), resumes] at fatal
    cases fatal

/-- **How a guarded block is left.**  If the block comes to its end, or is left by the end of the
program, then nothing is written, the reporter stays as it is, and the end of the program goes on
with its code.  An interruption, a nesting that is too deep and any failure are reported once; then
a fatal reporter ends the program with the exit code of the failure and keeps the source, and any
other goes on and forgets it.  Any failure of the interpreter itself is reported once, behind a
mark; then a fatal reporter ends the program with 70, and any other forgets the source and lets the
failure go on.  Only where the table of the registered source lacks the line of the token to blame
is nothing written; then it is told that there is no such line, and the reporter stays as it is.

So a reporter that is not fatal has nothing registered between the lines of a shell. -/
theorem Reporter.leave_eq (r : Reporter) :
    r.leave none = ⟨r, "", .goesOn⟩ ∧
      (∀ code, r.leave (some (.exit code)) = ⟨r, "", .leaves (.exit code)⟩) ∧
      (∀ d f, d.told? = some f → r.CanQuote f →
        ∃ report, r.format .error f = .ok report ∧
          r.leave (some d) =
            if r.fatal then ⟨r, report ++ "\n", .leaves (.exit (some f.kind.exitCode))⟩
            else ⟨{ r with source := none }, report ++ "\n", .goesOn⟩) ∧
      (∀ name message, ∃ report, r.format .error (.unknown name message) = .ok report ∧
        r.leave (some (.internal name message)) =
          let mark := Text.bold r.styled (some .red) "[internal] "
          if r.fatal then ⟨r, mark ++ report ++ "\n", .leaves (.exit (some 70))⟩
          else ⟨{ r with source := none }, mark ++ report ++ "\n",
            .leaves (.internal name message)⟩) ∧
      (∀ d f, d.told? = some f → ¬ r.CanQuote f →
        ∃ l t, d = .failure f ∧ r.source = some l ∧ f.token = some t ∧ ¬ l.HasLine t.line ∧
          r.leave (some d) = ⟨r, "", .unreported ⟨l.closedLines.length, t.line⟩⟩) ∧
      ∀ (s : Session) (lines : List String) (source : String),
        s.reporter = r → r.fatal = false → r.source = none →
        (Shell.enterAll s lines).reporter.source = none ∧
          ((Work.run source).guarded (Shell.enterAll s lines)).2.2 = .goesOn ∧
          ((Work.run source).guarded (Shell.enterAll s lines)).1.reporter.source = none := by
  refine ⟨rfl, fun _ => rfl, fun d f => leave_of_canQuote, r.leave_internal,
    fun d f told cannot => ?_, ?_⟩
  · obtain ⟨l, t, source, token, lacks, left⟩ := leave_of_not_canQuote told cannot
    refine ⟨l, t, ?_, source, token, lacks, left⟩
    -- What is told of an interruption or of a nesting too deep has no token.
    cases d with
    | failure g => rw [Option.some.inj told]
    | interrupt | tooDeep => cases told; cases token
    | exit | internal => cases told
  · rintro s lines source rfl resumes nothing
    exact Shell.guarded_run_between resumes nothing lines source

/-- A typed line fails at its only name.  The failure is reported and goes no further; but if it
blames a line below, then it is told that there is none.  After such a line nothing is registered.
-/
theorem Reporter.leave_eq_of_typed_name :
    let r := (Reporter.new true false).forTyping
    let registered := r.register "<in>" ⟨['x'], some 1⟩
    let failure := fun line : Int => (⟨.runtime, some ⟨.identifier, "x", .null, line, 1⟩,
      "Undefined identifier 'x'"⟩ : Failure)
    (∃ report, registered.leave (some (.failure (failure 1))) =
        ⟨registered.removeSource, report ++ "\n", .goesOn⟩) ∧
      registered.leave (some (.failure (failure 2))) = ⟨registered, "", .unreported ⟨1, 2⟩⟩ ∧
      (Shell.enterAll ⟨r, "<in>", true, none, .empty⟩ ["x", "(x"]).reporter.source = none := by
  intro r registered failure
  refine ⟨?_, ?_, ?_⟩
  · have can : registered.CanQuote (failure 1) := by
      rintro l ⟨⟩ t ⟨⟩
      exact .inl (by decide)
    obtain ⟨report, -, left⟩ := registered.leave_eq.2.2.1 (.failure (failure 1)) _ rfl can
    exact ⟨report, left⟩
  · have cannot : ¬ registered.CanQuote (failure 2) := by
      intro can
      rcases can _ rfl _ rfl with ⟨-, le⟩ | ⟨-, stillRead⟩
      · exact absurd le (by decide)
      · exact absurd stillRead (by decide)
    obtain ⟨l, t, -, ⟨⟩, ⟨⟩, -, left⟩ :=
      registered.leave_eq.2.2.2.2.1 (.failure (failure 2)) _ rfl cannot
    exact left
  · exact (r.leave_eq.2.2.2.2.2 ⟨r, "<in>", true, none, .empty⟩ ["x", "(x"] "x" rfl rfl rfl).1

end Lisplet
