import Lisplet.Proofs.Places.Lines
import Lisplet.Proofs.Relocation.Origin
import Lisplet.Proofs.Sessions.Work

/-!
# How work on a unit ends

What `Work.lex`, `Work.parse` and `Work.run` write and end with is that of reading and evaluating
the unit by themselves: `Work.lex_of_ok`, `Work.parse_of_ok`, `Work.run_of_ok` and their companions
for failures.  Whatever work is left by can be told of by the reporter it leaves behind
(`Work.canTell_of_run`): the tokens that are blamed were read from the unit that is registered, so
their lines are there to be quoted.
-/

namespace Lisplet

namespace Trace

@[simp] theorem output_empty : empty.output = "" := rfl

@[simp] theorem listing_empty : empty.listing = "" := rfl

@[simp] theorem reports_empty : empty.reports = "" := rfl

@[simp] theorem output_append (t u : Trace) : (t.append u).output = t.output ++ u.output := rfl

@[simp] theorem listing_append (t u : Trace) : (t.append u).listing = t.listing ++ u.listing := rfl

@[simp] theorem reports_append (t u : Trace) : (t.append u).reports = t.reports ++ u.reports := rfl

@[simp] theorem empty_append (t : Trace) : empty.append t = t := by
  simp [empty, append]

@[simp] theorem append_empty (t : Trace) : t.append empty = t := by
  simp [empty, append]

theorem append_assoc (t u v : Trace) : (t.append u).append v = t.append (u.append v) := by
  simp [append, String.append_assoc]

end Trace

/-! ### What was read -/

section Reading

variable {source : String} {ts : Tokens}

@[simp] theorem source_readOf (source : String) : (readOf source).source = source.toList := by
  unfold readOf Lexer.tokenize
  split <;> rfl

@[simp] theorem begun_readOf (source : String) : (readOf source).endings.isSome = true := by
  unfold readOf Lexer.tokenize
  split <;> rfl

theorem scan_of_unclosed {e : UnclosedString} (h : tokenize source = .error e) :
    (scan source.toList).2 = some e := by
  simp only [tokenize, Lexer.tokenize, Lexer.ofSource] at h
  split at h
  · rename_i hs
    rw [hs, Except.error.inj h]
  · cases h

theorem mem_scan_of_tokenize {t : Token} (h : tokenize source = .ok ts) (ht : t ∈ ts.toList) :
    t ∈ (scan source.toList).1 ∨ t = (readOf source).eof := by
  rcases hs : scan source.toList with ⟨tokens, unclosed⟩
  simp only [tokenize, Lexer.tokenize, Lexer.ofSource, hs] at h
  cases unclosed with
  | some e => cases h
  | none =>
    cases h
    simpa [Tokens.toList, Lexer.eof] using ht

/-- Each token that was read stands on a line of the unit. -/
theorem exists_isLine_of_tokenize {t : Token} (h : tokenize source = .ok ts) (ht : t ∈ ts.toList) :
    ∃ text, (readOf source).IsLine t.line text := by
  rcases mem_scan_of_tokenize h ht with mem | rfl
  · exact Lexer.exists_isLine_of_mem_scan (by rwa [source_readOf])
  · exact Lexer.exists_isLine_of_eof (readOf source)

theorem exists_isLine_of_unclosed {e : UnclosedString} (h : tokenize source = .error e) :
    ∃ text, (readOf source).IsLine e.token.line text :=
  Lexer.exists_isLine_of_unclosed (by rw [source_readOf, scan_of_unclosed h])

end Reading

/-! ### Departures -/

/-- What work is left by where the evaluation of its unit halts. -/
def Halt.departure : Halt → Departure
  | .fault x => .failure x.failure
  | .tooDeep => .tooDeep

/-- What work is left by where the reading of its unit stops. -/
def ParseStop.departure : ParseStop → Departure
  | .error e => .failure e.failure
  | .tooDeep => .tooDeep

/-! ### Reports that can be made -/

namespace Reporter

/-- The reporter can tell of the departure: it is none of the interpreter itself, and if there is a
line to be quoted, it can be. -/
def CanTell (r : Reporter) : Departure → Prop
  | .tooDeep => True
  | .failure f => ∃ text, r.format .error f = .ok text
  | _ => False

/-- A report about a token ends with its line. -/
theorem format_of_line {r : Reporter} {l : Lexer} {f : Failure} {t : Token} {text : List Char}
    (severity : Severity) (source : r.source = some l) (token : f.token = some t)
    (line : l.line t.line = .ok text) :
    r.format severity f = .ok (r.headline severity f ++ "\n" ++ r.quote severity text t) := by
  simp only [format, source, token, line, Except.map]

end Reporter

namespace Work

variable {source : String} {ts : Tokens} {es : List Expr}

/-! ### Reading tokens -/

theorem register_bind {α : Type} (l : Lexer) (f : Unit → Work α) (s : Session) :
    (register l >>= f) s = f () (s.registered l) := by
  rw [bind_of_ok (a := ()) rfl, show (register l s).2.1 = .empty from rfl, Trace.empty_append]
  rfl

theorem lex_of_error {e : UnclosedString} (h : tokenize source = .error e) (s : Session) :
    lex source s = (s.registered (readOf source), .empty, .error (.failure e.failure)) := by
  have hl : (Lexer.ofSource source).tokenize = (.error e, readOf source) := Prod.ext h rfl
  simp only [lex, hl]
  rfl

theorem lex_eq (h : tokenize source = .ok ts) (s : Session) :
    lex source s =
      (if ts.ahead = [] then warnOfNothing ts.last >>= fun _ => pure ts else pure ts : Work Tokens)
        (s.registered (readOf source)) := by
  have hl : (Lexer.ofSource source).tokenize = (.ok ts, readOf source) := Prod.ext h rfl
  simp only [lex, hl, List.isEmpty_iff]
  exact register_bind _ _ s

theorem exists_warning (h : tokenize source = .ok ts) (s : Session) (message : String) :
    ∃ text, (s.registered (readOf source)).reporter.warn (some ts.last) message = .ok text := by
  obtain ⟨line, isLine⟩ := exists_isLine_of_tokenize h (List.mem_append_right _ List.mem_cons_self)
  have told := Reporter.format_of_line (r := (s.registered (readOf source)).reporter)
    (f := ⟨.general, some ts.last, message⟩) .warning rfl rfl
    (Lexer.line_eq_ok (begun_readOf source) isLine)
  exact ⟨_, by rw [Reporter.warn, told]; rfl⟩

/-- Work on a unit that can be read begins with its tokens.  Of a file with none it warns. -/
theorem lex_of_ok (h : tokenize source = .ok ts) (s : Session) :
    ∃ reports, lex source s = (s.registered (readOf source), ⟨"", "", reports⟩, .ok ts) ∧
      if ts.ahead = [] ∧ s.interactive = false then
        (s.registered (readOf source)).reporter.warn (some ts.last)
          ("'" ++ s.path ++ "' contains no expressions") = .ok reports
      else reports = "" := by
  obtain ⟨text, warning⟩ := exists_warning h s ("'" ++ s.path ++ "' contains no expressions")
  rw [lex_eq h s]
  by_cases ahead : ts.ahead = []
  · rw [if_pos ahead]
    cases typed : s.interactive with
    | true =>
      have quiet : warnOfNothing ts.last (s.registered (readOf source)) =
          (s.registered (readOf source), .empty, .ok ()) := if_pos typed
      refine ⟨"", ?_, by simp⟩
      rw [bind_of_ok (a := ()) (by rw [quiet]), quiet]
      rfl
    | false =>
      have told : warnOfNothing ts.last (s.registered (readOf source)) =
          (s.registered (readOf source), ⟨"", "", text⟩, .ok ()) := by
        rw [warnOfNothing, if_neg (by simp [Session.registered, typed])]
        simp only [Session.registered] at warning ⊢
        rw [warning]
        rfl
      refine ⟨text, ?_, by simp [ahead, warning]⟩
      rw [bind_of_ok (a := ()) (by rw [told]), told]
      exact congrArg (fun t => (s.registered (readOf source), t, Except.ok ts))
        (Trace.append_empty ⟨"", "", text⟩)
  · rw [if_neg ahead]
    exact ⟨"", rfl, by simp [ahead]⟩

/-! ### Work that forgets the unit in the end -/

section Closing

variable {α : Type} {x : Work α} {f : α → Work Unit} {s s' : Session} {first second : Trace} {a : α}

theorem closing_of_ok (read : x s = (s', first, .ok a)) (done : f a s' = (s', second, .ok ())) :
    (x >>= fun a => f a >>= fun _ => removeSource) s =
      (s'.forgotten, first.append second, .ok ()) := by
  rw [bind_of_ok (by rw [read]), read]
  dsimp only
  rw [bind_of_ok (by rw [done]), done]
  exact congrArg (fun t => (s'.forgotten, first.append t, Except.ok ())) (Trace.append_empty second)

theorem closing_of_left {d : Departure} (read : x s = (s', first, .ok a))
    (left : f a s' = (s', second, .error d)) :
    (x >>= fun a => f a >>= fun _ => removeSource) s = (s', first.append second, .error d) := by
  rw [bind_of_ok (by rw [read]), read]
  dsimp only
  rw [bind_of_error (by rw [left]), left]

theorem closing_of_error {d : Departure} (read : x s = (s', first, .error d)) :
    (x >>= fun a => f a >>= fun _ => removeSource) s = (s', first, .error d) := by
  rw [bind_of_error (by rw [read]), read]

end Closing

/-! ### Reading and evaluating expressions -/

/-- Reading expressions writes what reading tokens has written. -/
theorem parse_of_lex {s s' : Session} {trace : Trace} (h : lex source s = (s', trace, .ok ts)) :
    parse source s = (s', trace, (Lisplet.parse ts).mapError ParseStop.departure) := by
  rw [parse, bind_of_ok (by rw [h]), h]
  cases Lisplet.parse ts with
  | ok es => exact congrArg (fun t => (s', t, Except.ok es)) (Trace.append_empty trace)
  | error stop => cases stop <;> exact congrArg (fun t => (s', t, _)) (Trace.append_empty trace)

theorem parse_of_unclosed {e : UnclosedString} (h : tokenize source = .error e) (s : Session) :
    parse source s = (s.registered (readOf source), .empty, .error (.failure e.failure)) := by
  rw [parse, bind_of_error (by rw [lex_of_error h]), lex_of_error h]

/-- Work on a unit that can be cut into tokens has the expressions that these are parsed to. -/
theorem parse_of_ok (h : tokenize source = .ok ts) (s : Session) :
    (parse source s).2.1.output = "" ∧
      (parse source s).2.2 = (Lisplet.parse ts).mapError ParseStop.departure := by
  obtain ⟨reports, lexed, -⟩ := lex_of_ok h s
  rw [parse_of_lex lexed]
  exact ⟨rfl, rfl⟩

theorem evaluate_eq (es : List Expr) (s : Session) :
    evaluate es s = (s, { Trace.empty with output := (interpret depthLimit es s.globals).output },
      (interpret depthLimit es s.globals).result.mapError Halt.departure) := by
  simp only [evaluate, scope_interpret]
  cases (interpret depthLimit es s.globals).result with
  | ok u => rfl
  | error halt => cases halt <;> rfl

/-- A unit whose expressions all have values is forgotten after its run. -/
theorem run_of_finished {s s' : Session} {trace : Trace}
    (parsed : parse source s = (s', trace, .ok es))
    (finished : (interpret depthLimit es s'.globals).result = .ok ()) :
    run source s = (s'.forgotten,
      trace.append { Trace.empty with output := (interpret depthLimit es s'.globals).output },
      .ok ()) :=
  closing_of_ok parsed (by rw [evaluate_eq, finished]; rfl)

/-- A unit one of whose expressions halts is left by that. -/
theorem run_of_halted {s s' : Session} {trace : Trace} {halt : Halt}
    (parsed : parse source s = (s', trace, .ok es))
    (halted : (interpret depthLimit es s'.globals).result = .error halt) :
    run source s = (s',
      trace.append { Trace.empty with output := (interpret depthLimit es s'.globals).output },
      .error halt.departure) :=
  closing_of_left parsed (by rw [evaluate_eq, halted]; rfl)

/-- A unit that can be read runs as its expressions do in the globals of the session. -/
theorem run_of_ok (h : tokenize source = .ok ts) (hp : Lisplet.parse ts = .ok es) (s : Session) :
    (run source s).2.1.output = (interpret depthLimit es s.globals).output ∧
      (run source s).2.2 =
        (interpret depthLimit es s.globals).result.mapError Halt.departure := by
  obtain ⟨reports, lexed, -⟩ := lex_of_ok h s
  have parsed := parse_of_lex lexed
  rw [hp] at parsed
  have globals : (s.registered (readOf source)).globals = s.globals := rfl
  rw [← globals]
  cases hr : (interpret depthLimit es (s.registered (readOf source)).globals).result with
  | error halt =>
    rw [run_of_halted parsed hr]
    exact ⟨String.empty_append, rfl⟩
  | ok u =>
    rw [run_of_finished parsed hr]
    exact ⟨String.empty_append, rfl⟩

theorem run_of_parse_error {d : Departure} {s : Session} (h : (parse source s).2.2 = .error d) :
    (run source s).2.1 = (parse source s).2.1 ∧ (run source s).2.2 = .error d := by
  rw [run, bind_of_error h]
  exact ⟨rfl, rfl⟩

/-! ### Departures that can be told of -/

/-- What the work on a unit may be left by: expressions that are nested too deeply, a string that is
never closed, or a failure that blames a token that was read from the unit. -/
inductive Explained (source : String) : Departure → Prop where
  | tooDeep : Explained source .tooDeep
  | unclosed {e : UnclosedString} (stopped : tokenize source = .error e) :
      Explained source (.failure e.failure)
  | token {ts : Tokens} {f : Failure} {t : Token} (read : tokenize source = .ok ts)
      (kind : f.kind ≠ .lexical) (token : f.token = some t) (mem : t ∈ ts.toList) :
      Explained source (.failure f)

/-- A token that is blamed stands on a line of the unit. -/
theorem Explained.exists_isLine {f : Failure} (h : Explained source (.failure f)) :
    ∃ t text, f.token = some t ∧ (readOf source).IsLine t.line text := by
  cases h with
  | unclosed stopped =>
    obtain ⟨text, isLine⟩ := exists_isLine_of_unclosed stopped
    exact ⟨_, text, rfl, isLine⟩
  | token read kind token mem =>
    obtain ⟨text, isLine⟩ := exists_isLine_of_tokenize read mem
    exact ⟨_, text, token, isLine⟩

theorem Explained.canTell {d : Departure} (h : Explained source d) (s : Session) :
    (s.registered (readOf source)).reporter.CanTell d := by
  cases d with
  | tooDeep => trivial
  | failure f =>
    obtain ⟨t, text, token, isLine⟩ := h.exists_isLine
    exact ⟨_, Reporter.format_of_line .error rfl token
      (Lexer.line_eq_ok (begun_readOf source) isLine)⟩
  | exit code | interrupt | internal name message => cases h

theorem explained_of_refused {e : ParseError} (read : tokenize source = .ok ts)
    (refused : Lisplet.parse ts = .error (.error e)) : Explained source (.failure e.failure) :=
  .token read (by simp [ParseError.failure]) rfl (mem_of_parseWithin_error refused)

theorem explained_of_fault {globals : Scope} {x : Fault} (read : tokenize source = .ok ts)
    (parsed : Lisplet.parse ts = .ok es)
    (halted : (interpret depthLimit es globals).result = .error (.fault x)) :
    Explained source (.failure x.failure) :=
  .token read (by simp [Fault.failure]) rfl (mem_of_interpret_fault parsed halted)

/-- A unit can be read, or the work is left by what can be explained. -/
theorem parse_cases (source : String) (s : Session) :
    (∃ ts es, tokenize source = .ok ts ∧ Lisplet.parse ts = .ok es) ∨
      ∃ d, (parse source s).2.2 = .error d ∧ Explained source d := by
  cases ht : tokenize source with
  | error e =>
    exact .inr ⟨.failure e.failure, by rw [parse_of_unclosed ht], .unclosed ht⟩
  | ok ts =>
    have result := (parse_of_ok ht s).2
    cases hp : Lisplet.parse ts with
    | ok es => exact .inl ⟨ts, es, rfl, hp⟩
    | error stop =>
      rw [hp] at result
      refine .inr ⟨stop.departure, result, ?_⟩
      cases stop with
      | tooDeep => exact .tooDeep
      | error e => exact explained_of_refused ht hp

/-- Whatever the run of a unit is left by, it can be explained. -/
theorem explained_of_run {d : Departure} {s : Session} (h : (run source s).2.2 = .error d) :
    Explained source d := by
  rcases parse_cases source s with ⟨ts, es, ht, hp⟩ | ⟨d', hd, explained⟩
  · rw [(run_of_ok ht hp s).2] at h
    cases hr : (interpret depthLimit es s.globals).result with
    | ok u => simp [hr] at h
    | error halt =>
      rw [hr] at h
      cases h
      cases halt with
      | tooDeep => exact .tooDeep
      | fault x => exact explained_of_fault ht hp hr
  · rw [(run_of_parse_error hd).2] at h
    cases h
    exact explained

/-- Whatever the run of a unit is left by, the reporter can tell of it. -/
theorem canTell_of_run {d : Departure} {s : Session} (h : (run source s).2.2 = .error d) :
    (s.registered (readOf source)).reporter.CanTell d :=
  (explained_of_run h).canTell s

end Work

end Lisplet
