import Lisplet.Proofs.Sessions.Outcome
import Lisplet.Shell

/-!
# No unit influences a later one

A session lives through any number of steps, each of them one method applied to one unit of input,
bare or in a guarded block, and each coming to its end or not.  What is registered is left behind in
various states, but whatever a step finds there it overwrites before it looks; the globals are given
back as they were.  So each step comes out as it would have come out first (`Session.isolated`), and
likewise each line that is given to a shell.
-/

namespace Lisplet

/-! ### Steps of a session -/

/-- What a session can do with a unit of input. -/
inductive Method where
  | run
  | lex
  | parse
  | showTokens
  | showTree
deriving DecidableEq

/-- What a method gives that comes to its end. -/
inductive Product where
  | nothing
  | tokens (ts : Tokens)
  | expressions (es : List Expr)

/-- The work of a method on a unit. -/
def Method.work (source : String) : Method → Work Product
  | run => do
    Work.run source
    return .nothing
  | lex => do return .tokens (← Work.lex source)
  | parse => do return .expressions (← Work.parse source)
  | showTokens => do
    Work.showTokens source
    return .nothing
  | showTree => do
    Work.showTree source
    return .nothing

/-- One method applied to one unit of input, in a block guarded by the reporter or not. -/
structure Step where
  method : Method
  source : String
  guarded : Bool

/-- All that is seen of a step: what it gives or is left by, how the guarded block is left if there
is one, what was written, and whether a unit is registered afterwards. -/
structure Observation where
  result : Except Departure Product
  ending : Option Ending
  trace : Trace
  registered : Bool

namespace Step

/-- The session after a step, and what is seen of the step. -/
def take (step : Step) (s : Session) : Session × Observation :=
  let done := step.method.work step.source s
  if step.guarded then
    let block := (step.method.work step.source).guarded s
    (block.1, ⟨done.2.2, some block.2.2, block.2.1, block.1.reporter.source.isSome⟩)
  else (done.1, ⟨done.2.2, none, done.2.1, done.1.reporter.source.isSome⟩)

/-- The session after some steps. -/
def takeAll (s : Session) (steps : List Step) : Session :=
  steps.foldl (fun s step => (step.take s).1) s

end Step

namespace Session

/-- A session that was just made has nothing registered and binds no names. -/
theorem renewed_of_start {fatal styled interactive : Bool} {path : String} {text : Option String}
    {s : Session} (h : (start (Reporter.new fatal styled) path interactive text).2 = .ok s) :
    s.renewed = s ∧ s.globals = .empty := by
  simp only [start] at h
  split at h
  · cases interactive with
    | true => cases h; exact ⟨rfl, rfl⟩
    | false => cases h
  · cases text with
    | some text => cases h; cases interactive <;> exact ⟨rfl, rfl⟩
    | none => cases h

end Session

/-! ### What a step does to a session -/

namespace Method

theorem blind_work (m : Method) (source : String) : (m.work source).Blind := by
  cases m with
  | run => exact (Work.blind_run source).bind _
  | lex => exact (Work.blind_lex source).bind _
  | parse => exact (Work.blind_parse source).bind _
  | showTokens => exact (Work.blind_showTokens source).bind _
  | showTree => exact (Work.blind_showTree source).bind _

/-- A method registers the unit, and at most forgets it again. -/
theorem session_work (m : Method) (source : String) (s : Session) :
    (m.work source s).1 = s.registered (readOf source) ∨
      (m.work source s).1 = (s.registered (readOf source)).forgotten := by
  cases m with
  | run =>
    rw [work, Work.session_bind fun _ => Work.static_pure _]
    exact (Work.closes_run source).session s
  | lex => exact .inl ((Work.registers_lex source).bind (fun _ => Work.static_pure _) s)
  | parse => exact .inl ((Work.registers_parse source).bind (fun _ => Work.static_pure _) s)
  | showTokens =>
    rw [work, Work.session_bind fun _ => Work.static_pure _]
    exact (Work.closes_showTokens source).session s
  | showTree =>
    rw [work, Work.session_bind fun _ => Work.static_pure _]
    exact (Work.closes_showTree source).session s

theorem renewed_work (m : Method) (source : String) (s : Session) :
    (m.work source s).1.renewed = s.renewed :=
  Session.renewed_of_registered (m.session_work source s)

end Method

namespace Reporter

theorem reporter_throw (r : Reporter) (f : Failure) (internal : Bool) :
    (r.throw f internal).reporter = r ∨ (r.throw f internal).reporter = r.removeSource := by
  unfold throw
  split
  · exact .inl rfl
  · dsimp only
    split
    · exact .inl rfl
    · exact .inr rfl

/-- The end of a guarded block at most forgets the unit. -/
theorem reporter_leave (r : Reporter) (d : Option Departure) :
    (r.leave d).reporter = r ∨ (r.leave d).reporter = r.removeSource := by
  unfold leave
  split
  · exact .inl rfl
  · exact .inl rfl
  · exact r.reporter_throw _ _
  · exact r.reporter_throw _ _
  · exact r.reporter_throw _ _
  · dsimp only
    split <;> exact r.reporter_throw _ _

/-- A departure that can be told of ends the program if the reporter is fatal; otherwise the unit is
forgotten. -/
theorem leave_of_canTell {r : Reporter} {d : Departure} (h : r.CanTell d) :
    if r.fatal then ∃ code, (r.leave (some d)).ending = .leaves (.exit (some code))
    else (r.leave (some d)).reporter = r.removeSource ∧ (r.leave (some d)).ending = .goesOn := by
  -- All that can be told of is told in the same way.
  have told : ∀ (f : Failure) (internal : Bool), (∃ text, r.format .error f = .ok text) →
      if r.fatal then ∃ code, (r.throw f internal).ending = .leaves (.exit (some code))
      else (r.throw f internal).reporter = r.removeSource ∧
        (r.throw f internal).ending = .goesOn := by
    rintro f internal ⟨text, hf⟩
    simp only [throw, hf]
    split
    · exact ⟨_, rfl⟩
    · exact ⟨rfl, rfl⟩
  cases d with
  | tooDeep =>
    refine told .tooDeep false ?_
    simp only [format]
    split
    · rename_i token
      cases token
    · exact ⟨_, rfl⟩
  | failure f => exact told f false h
  | exit code => exact h.elim
  | interrupt => exact h.elim
  | internal name message => exact h.elim

end Reporter

/-! ### Steps -/

namespace Work

variable {α : Type}

/-- How the reporter handles what the work ends with. -/
def handling (x : Work α) (s : Session) : Handling :=
  (x s).1.reporter.leave (match (x s).2.2 with | .ok _ => none | .error d => some d)

theorem guarded_eq (x : Work α) (s : Session) :
    x.guarded s = ({ (x s).1 with reporter := (x.handling s).reporter },
      { (x s).2.1 with reports := (x s).2.1.reports ++ (x.handling s).written },
      (x.handling s).ending) := rfl

theorem renewed_guarded {x : Work α} {s : Session} (h : (x s).1.renewed = s.renewed) :
    (x.guarded s).1.renewed = s.renewed := by
  rw [guarded_eq, ← h]
  rcases (x s).1.reporter.reporter_leave
    (match (x s).2.2 with | .ok _ => none | .error d => some d) with same | same
  · simp only [handling, same]
  · simp only [handling, same]
    rfl

theorem Blind.guarded {x : Work α} (h : x.Blind) (s : Session) :
    x.guarded s = x.guarded s.renewed := by
  simp only [guarded_eq, handling, h s]

/-- Once a guarded run has gone on, no unit is registered. -/
theorem guarded_run_cases (source : String) (s : Session) :
    (((run source).guarded s).1.reporter.source = none ∧
        ((run source).guarded s).2.2 = .goesOn) ∨
      (s.reporter.fatal = true ∧ ∃ d, ((run source).guarded s).2.2 = .leaves d) := by
  rw [guarded_eq]
  rcases closes_run source s with ⟨result, session⟩ | ⟨d, result, session⟩
  · simp only [handling, result, session]
    exact .inl ⟨rfl, rfl⟩
  · have left := Reporter.leave_of_canTell (canTell_of_run result)
    simp only [handling, result, session]
    cases fatal : s.reporter.fatal with
    | true =>
      obtain ⟨code, ending⟩ := (if_pos fatal).mp left
      exact .inr ⟨rfl, _, ending⟩
    | false =>
      have goesOn : ¬ (s.registered (readOf source)).reporter.fatal = true := by
        simp [Session.registered, Reporter.register, fatal]
      obtain ⟨reporter, ending⟩ := (if_neg goesOn).mp left
      refine .inl ⟨?_, ending⟩
      rw [reporter]
      rfl

end Work

namespace Step

/-- A step comes out the same whatever was registered before. -/
theorem take_renewed (step : Step) (s : Session) : step.take s = step.take s.renewed := by
  have blind := step.method.blind_work step.source
  simp only [take, blind s, blind.guarded s]

/-- A step leaves a session that differs at most in what is registered. -/
theorem renewed_take (step : Step) (s : Session) : (step.take s).1.renewed = s.renewed := by
  have work := step.method.renewed_work step.source s
  unfold take
  split
  · exact Work.renewed_guarded work
  · exact work

theorem renewed_takeAll (s : Session) (steps : List Step) :
    (takeAll s steps).renewed = s.renewed := by
  induction steps generalizing s with
  | nil => rfl
  | cons step steps ih => exact (ih _).trans (step.renewed_take s)

end Step

/-! ### Lines of a shell -/

namespace Shell

/-- What a line is answered with: whether the shell is to stop, and what was written. -/
def Reply.answer (r : Reply) : Bool × Trace × String := (r.stop, r.trace, r.said)

/-- Whether a unit is registered after a line. -/
def Reply.registered (r : Reply) : Bool := r.session.reporter.source.isSome

/-- The session after some lines. -/
def enterAll (s : Session) (lines : List String) : Session :=
  lines.foldl (fun s line => (enter s line).session) s

/-- None of the lines makes the shell stop. -/
def GoesOn : Session → List String → Prop
  | _, [] => True
  | s, line :: lines => (enter s line).stop = false ∧ GoesOn (enter s line).session lines

theorem enter_of_unit {line source : String} (h : Request.ofLine line = .unit source)
    (s : Session) :
    enter s line =
      ⟨((Work.run source).guarded s).1, ((Work.run source).guarded s).2.2 != .goesOn,
        ((Work.run source).guarded s).2.1, ""⟩ := by
  simp only [enter, h]

/-- A line is answered the same whatever was registered before. -/
theorem answer_enter (s : Session) (line : String) :
    (enter s line).answer = (enter s.renewed line).answer := by
  cases request : Request.ofLine line with
  | nothing | help | exit | endOfInput => simp only [enter, request, Reply.answer]
  | unit source =>
    rw [enter_of_unit request, enter_of_unit request, (Work.blind_run source).guarded s]

/-- Where nothing was registered before, the same is registered after a line as if the session had
just been made. -/
theorem registered_enter {s : Session} (nothing : s.reporter.source = none) (line : String) :
    (enter s line).registered = (enter s.renewed line).registered := by
  have same : s.renewed.reporter.source = s.reporter.source := nothing.symm
  cases request : Request.ofLine line with
  | nothing | help | exit | endOfInput => simp only [enter, request, Reply.registered, same]
  | unit source =>
    rw [enter_of_unit request, enter_of_unit request, (Work.blind_run source).guarded s]

/-- A line leaves a session that differs at most in what is registered. -/
theorem renewed_enter (s : Session) (line : String) :
    (enter s line).session.renewed = s.renewed := by
  cases request : Request.ofLine line with
  | nothing | help | exit | endOfInput => simp only [enter, request]
  | unit source =>
    rw [enter_of_unit request]
    exact Work.renewed_guarded ((Work.closes_run source).renewed s)

theorem renewed_enterAll (s : Session) (lines : List String) :
    (enterAll s lines).renewed = s.renewed := by
  induction lines generalizing s with
  | nil => rfl
  | cons line lines ih => exact (ih _).trans (renewed_enter s line)

/-- A line leaves nothing registered, unless a failure has ended the program. -/
theorem source_enter {s : Session} (nothing : s.reporter.source = none) {line : String}
    (h : s.reporter.fatal = false ∨ (enter s line).stop = false) :
    (enter s line).session.reporter.source = none := by
  cases request : Request.ofLine line with
  | nothing | help | exit | endOfInput =>
    simp only [enter, request]
    exact nothing
  | unit source =>
    rw [enter_of_unit request] at h ⊢
    rcases Work.guarded_run_cases source s with ⟨forgotten, -⟩ | ⟨fatal, d, ending⟩
    · exact forgotten
    · -- A fatal reporter has ended the program, and the shell stops.
      simp [fatal, ending] at h

theorem source_enterAll {s : Session} (nothing : s.reporter.source = none) {lines : List String}
    (h : s.reporter.fatal = false ∨ GoesOn s lines) :
    (enterAll s lines).reporter.source = none := by
  induction lines generalizing s with
  | nil => exact nothing
  | cons line lines ih =>
    refine ih (source_enter nothing (h.imp id And.left)) ?_
    rw [Session.fatal_eq (renewed_enter s line)]
    exact h.imp id And.right

end Shell

/-! ### Isolation -/

/-- **No unit of input influences a later one.**  Whatever steps a session has gone through, the
next step comes out as it would if nothing had been registered yet; the globals are the same before
and after it; and what a report of it quotes from is what was read of its own unit.  Likewise,
whatever lines a shell was given, the next one is answered as the first one would have been; and as
long as no failure has ended the program, the same is registered after it.  A session that was just
made is one with nothing registered. -/
theorem Session.isolated :
    (∀ (s : Session) (steps : List Step) (step : Step),
      (step.take (Step.takeAll s steps)).2 = (step.take s.renewed).2 ∧
      (Step.takeAll s steps).globals = s.globals ∧
      (step.take (Step.takeAll s steps)).1.globals = s.globals ∧
      ∀ l, (step.method.work step.source (Step.takeAll s steps)).1.reporter.source = some l →
        l = readOf step.source) ∧
    (∀ (s : Session) (lines : List String) (line : String),
      (Shell.enter (Shell.enterAll s.renewed lines) line).answer =
        (Shell.enter s.renewed line).answer ∧
      (Shell.enterAll s.renewed lines).globals = s.globals ∧
      (Shell.enter (Shell.enterAll s.renewed lines) line).session.globals = s.globals ∧
      (s.reporter.fatal = false ∨ Shell.GoesOn s.renewed lines →
        (Shell.enter (Shell.enterAll s.renewed lines) line).registered =
          (Shell.enter s.renewed line).registered)) ∧
    (∀ (fatal styled interactive : Bool) (path : String) (text : Option String) (s : Session),
      (Session.start (Reporter.new fatal styled) path interactive text).2 = .ok s →
      s.renewed = s ∧ s.globals = .empty) := by
  refine ⟨fun s steps step => ?_, fun s lines line => ?_,
    fun _ _ _ _ _ _ => Session.renewed_of_start⟩
  · have renewed := Step.renewed_takeAll s steps
    refine ⟨?_, Session.globals_eq renewed,
      Session.globals_eq ((step.renewed_take _).trans renewed), fun l hl => ?_⟩
    · rw [step.take_renewed, renewed]
    · rcases step.method.session_work step.source (Step.takeAll s steps) with hs | hs
      · rw [hs] at hl
        exact (Option.some.inj hl).symm
      · rw [hs] at hl
        cases hl
  · have renewed := Shell.renewed_enterAll s.renewed lines
    refine ⟨?_, Session.globals_eq renewed,
      Session.globals_eq ((Shell.renewed_enter _ line).trans renewed), fun goesOn => ?_⟩
    · rw [Shell.answer_enter, renewed, Session.renewed_renewed]
    · have nothing := Shell.source_enterAll (s := s.renewed) rfl goesOn
      rw [Shell.registered_enter nothing, renewed, Session.renewed_renewed]

/-- A line that fails inside a `let` leaves nothing behind for the next one. -/
theorem Session.isolated_after_open_let :
    let s := Session.typed (Reporter.new true false)
    let left := Shell.enterAll s ["(let [x 1] y)"]
    (Shell.enter left "x").answer = (Shell.enter s "x").answer ∧
      (Shell.enter left "x").registered = (Shell.enter s "x").registered := by
  intro s left
  obtain ⟨answer, -, -, registered⟩ := Session.isolated.2.1 s ["(let [x 1] y)"] "x"
  exact ⟨answer, registered (.inl rfl)⟩

end Lisplet
