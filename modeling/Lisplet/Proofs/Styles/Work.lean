import Lisplet.Proofs.Sessions.Outcome
import Lisplet.Proofs.Styles.Reports

/-!
# Work with styles and without

Whatever is done in a session with styles is done in the same way in the session with its styles
switched off: the sessions afterwards still differ in their styles only, the output and the listing
are the same, and the reports with styles decorate those without (`Work.OnlyDecorates`).  This is
put together along the sequences that work is made of, down to the guarded block around a unit
(`Work.OnlyDecorates.guarded`).
-/

namespace Lisplet

namespace Session

/-- The session with its styles switched off. -/
def plain (s : Session) : Session := { s with reporter := s.reporter.plain }

/-- Nothing that reports in the session may quote has escape characters. -/
structure Clean (s : Session) : Prop where
  reporter : s.reporter.Clean
  path : Text.Clean s.path

end Session

/-- The second trace is the first one but for the decoration of reports. -/
structure Trace.Decorates (styled plain : Trace) : Prop where
  output : plain.output = styled.output
  listing : plain.listing = styled.listing
  reports : Text.Decorates styled.reports plain.reports

namespace Trace

theorem Decorates.append {t t' u u' : Trace} (h : t.Decorates t') (h' : u.Decorates u') :
    (t.append u).Decorates (t'.append u') where
  output := by rw [output_append, output_append, h.output, h'.output]
  listing := by rw [listing_append, listing_append, h.listing, h'.listing]
  reports := h.reports.append h'.reports

theorem Decorates.report {t t' : Trace} (h : t.Decorates t') {text text' : String}
    (told : Text.Decorates text text') :
    Decorates { t with reports := t.reports ++ text } { t' with reports := t'.reports ++ text' } :=
  ⟨h.output, h.listing, h.reports.append told⟩

/-- Where nothing is reported, there is nothing to be decorated. -/
theorem decorates_silent (output listing : String) :
    Decorates ⟨output, listing, ""⟩ ⟨output, listing, ""⟩ :=
  ⟨rfl, rfl, Text.clean_empty.decorates⟩

end Trace

/-! ### Lexemes of a source -/

/-- The lexemes of a source are made of its characters. -/
theorem mem_of_mem_scan {cs : List Char} {t : Token} {c : Char} (read : t ∈ (scan cs).1)
    (mem : c ∈ t.lexeme.toList) : c ∈ cs := by
  obtain ⟨before, k, text, after, segments, rfl⟩ := Segment.mem_tokens_iff.1 read
  rw [← Segment.flatten_cut cs, segments]
  have mem : c ∈ text := by simpa [Token.placedAt] using mem
  simp [Segment.text, mem]

theorem spell_of_tokenize {source : String} {ts : Tokens} (read : tokenize source = .ok ts)
    (clean : Text.Clean source) : ts.Spell Text.Clean := by
  intro t ht
  rcases mem_scan_of_tokenize read ht with scanned | rfl
  · exact fun mem => clean (mem_of_mem_scan scanned mem)
  · exact Text.clean_empty

namespace Work

variable {α β : Type} {good : α → Prop} {good' : β → Prop}

/-- What work has done in a session, and what it has done in the session without styles. -/
structure Decorates (good : α → Prop) (styled plain : Session × Trace × Except Departure α) :
    Prop where
  clean : styled.1.Clean
  session : plain.1 = styled.1.plain
  trace : styled.2.1.Decorates plain.2.1
  result : plain.2.2 = styled.2.2
  ok : ∀ a, styled.2.2 = .ok a → good a
  error : ∀ d, styled.2.2 = .error d → d.Clean

theorem Decorates.of_ok {s : Session} {t t' : Trace} {a : α} (clean : s.Clean)
    (trace : t.Decorates t') (h : good a) : Decorates good (s, t, .ok a) (s.plain, t', .ok a) :=
  ⟨clean, rfl, trace, rfl, fun _ eq => Except.ok.inj eq ▸ h, fun _ eq => by cases eq⟩

theorem Decorates.of_error {s : Session} {t t' : Trace} {d : Departure} (clean : s.Clean)
    (trace : t.Decorates t') (h : d.Clean) :
    Decorates good (s, t, .error d) (s.plain, t', .error d) :=
  ⟨clean, rfl, trace, rfl, (fun _ eq => by cases eq), fun _ eq => Except.error.inj eq ▸ h⟩

/-- Styles decorate the reports of the work and change nothing else; its result is `good`. -/
def OnlyDecorates (good : α → Prop) (x : Work α) : Prop :=
  ∀ s, s.Clean → Decorates good (x s) (x s.plain)

namespace OnlyDecorates

theorem pure {a : α} (h : good a) : OnlyDecorates good (Pure.pure a : Work α) :=
  fun _ hs => .of_ok hs (Trace.decorates_silent _ _) h

theorem leave {d : Departure} (h : d.Clean) : OnlyDecorates good (Work.leave d : Work α) :=
  fun _ hs => .of_error hs (Trace.decorates_silent _ _) h

theorem bind {x : Work α} {f : α → Work β} (hx : OnlyDecorates good x)
    (hf : ∀ a, good a → OnlyDecorates good' (f a)) : OnlyDecorates good' (x >>= f) := by
  intro s hs
  have first := hx s hs
  cases result : (x s).2.2 with
  | error d =>
    rw [bind_of_error result, bind_of_error (first.result.trans result), first.session]
    exact .of_error first.clean first.trace (first.error d result)
  | ok a =>
    have second := hf a (first.ok a result) (x s).1 first.clean
    rw [← first.session] at second
    rw [bind_of_ok result, bind_of_ok (first.result.trans result)]
    exact { second with trace := first.trace.append second.trace }

theorem list (line : String) : OnlyDecorates (fun _ => True) (Work.list line) :=
  fun _ hs => .of_ok hs (Trace.decorates_silent _ _) trivial

theorem listEach {line : α → Work String} (h : ∀ a, OnlyDecorates (fun _ => True) (line a))
    (as : List α) : OnlyDecorates (fun _ => True) (Work.listEach line as) := by
  induction as with
  | nil => exact pure trivial
  | cons a as ih => exact (h a).bind fun text _ => (list text).bind fun _ _ => ih

theorem removeSource : OnlyDecorates (fun _ => True) Work.removeSource := fun s hs =>
  .of_ok (s := s.forgotten) ⟨hs.reporter.removeSource, hs.path⟩ (Trace.decorates_silent _ _) trivial

theorem warnOfNothing (last : Token) :
    OnlyDecorates (fun _ => True) (Work.warnOfNothing last) := by
  intro s hs
  have message : Text.Clean ("'" ++ s.path ++ "' contains no expressions") := by
    simp only [Text.clean_append, hs.path, and_true]
    exact ⟨.ofList rfl, .ofList rfl⟩
  unfold Work.warnOfNothing
  rw [show s.plain.interactive = s.interactive from rfl]
  split
  · exact .of_ok hs (Trace.decorates_silent _ _) trivial
  rcases hs.reporter.warn (some last) message with
    ⟨text, text', styled, plain, decorates⟩ | ⟨e, styled, plain⟩
  · rw [styled, show s.plain.reporter.warn _ ("'" ++ s.plain.path ++ _) = _ from plain]
    exact .of_ok hs ⟨rfl, rfl, decorates⟩ trivial
  · rw [styled, show s.plain.reporter.warn _ ("'" ++ s.plain.path ++ _) = _ from plain]
    exact .of_error hs (Trace.decorates_silent _ _) ⟨.ofList rfl, e.clean_message⟩

theorem lex {source : String} (clean : Text.Clean source) :
    OnlyDecorates (fun ts => ts.Spell Text.Clean) (Work.lex source) := by
  intro s hs
  have registered : (s.registered (readOf source)).Clean :=
    ⟨Reporter.clean_register hs.path (by rwa [source_readOf]), hs.path⟩
  cases read : tokenize source with
  | error e =>
    rw [lex_of_error read, lex_of_error read]
    exact .of_error registered (Trace.decorates_silent _ _) e.clean_message
  | ok ts =>
    have tokens : OnlyDecorates (fun ts => ts.Spell Text.Clean) (Pure.pure ts : Work Tokens) :=
      pure (spell_of_tokenize read clean)
    rw [lex_eq read, lex_eq read]
    split
    · exact (warnOfNothing ts.last).bind (fun _ _ => tokens) _ registered
    · exact tokens _ registered

theorem clean_formWords : ∀ word ∈ formWords, Text.Clean word := by
  simp only [formWords, List.forall_mem_cons]
  and_intros
  any_goals exact .ofList rfl
  exact List.forall_mem_nil _

/-- What the reading of expressions gives: trees of tokens whose lexemes are clean. -/
def ReadClean (es : List Expr) : Prop :=
  ∃ ts : Tokens, ts.Spell Text.Clean ∧ Lisplet.parse ts = .ok es

theorem parse {source : String} (clean : Text.Clean source) :
    OnlyDecorates ReadClean (Work.parse source) := by
  refine (lex clean).bind fun ts spell => ?_
  split
  · exact pure ⟨ts, spell, ‹_›⟩
  · rename_i e refused
    obtain ⟨lexeme, names⟩ := mentions_of_parseWithin_error clean_formWords spell refused
    exact leave (ParseError.clean_message lexeme names)
  · exact leave trivial

theorem evaluate {es : List Expr} (read : ReadClean es) :
    OnlyDecorates (fun _ => True) (Work.evaluate es) := by
  obtain ⟨ts, spell, parsed⟩ := read
  intro s hs
  rw [evaluate_eq, evaluate_eq, show s.plain.globals = s.globals from rfl]
  cases halted : (interpret depthLimit es s.globals).result with
  | ok u => exact .of_ok hs (Trace.decorates_silent _ _) trivial
  | error halt =>
    refine .of_error hs (Trace.decorates_silent _ _) ?_
    cases halt with
    | tooDeep => trivial
    | fault f =>
      exact (faulting_interpret depthLimit es s.globals f halted).clean_message
        (spell _ (mem_of_interpret_fault parsed halted))

theorem outline (e : Expr) : OnlyDecorates (fun _ => True) (Work.outline e) := by
  unfold Work.outline
  split
  · exact pure trivial
  · exact leave trivial

theorem run {source : String} (clean : Text.Clean source) :
    OnlyDecorates (fun _ => True) (Work.run source) :=
  (parse clean).bind fun _ read => (evaluate read).bind fun _ _ => removeSource

theorem showTokens {source : String} (clean : Text.Clean source) :
    OnlyDecorates (fun _ => True) (Work.showTokens source) :=
  (lex clean).bind fun _ _ => (listEach (fun _ => pure trivial) _).bind fun _ _ => removeSource

theorem showTree {source : String} (clean : Text.Clean source) :
    OnlyDecorates (fun _ => True) (Work.showTree source) :=
  (parse clean).bind fun _ _ => (listEach outline _).bind fun _ _ => removeSource

/-- A block that is guarded by the reporter of its session ends the same with styles and without,
and its reports are decorated only. -/
theorem guarded {x : Work α} (h : OnlyDecorates good x) {s : Session} (hs : s.Clean) :
    (x.guarded s).1.Clean ∧ (x.guarded s.plain).1 = (x.guarded s).1.plain ∧
      (x.guarded s).2.1.Decorates (x.guarded s.plain).2.1 ∧
      (x.guarded s.plain).2.2 = (x.guarded s).2.2 := by
  have work := h s hs
  simp only [Work.guarded, work.session, work.result]
  cases result : (x s).2.2 with
  | ok a =>
    have left := work.clean.reporter.leave (d := none) fun _ eq => by cases eq
    exact ⟨⟨left.clean, work.clean.path⟩, congrArg (Session.mk · _ _ _ _) left.reporter,
      work.trace.report left.written, left.ending⟩
  | error d =>
    have left := work.clean.reporter.leave (d := some d) fun _ eq =>
      Option.some.inj eq ▸ work.error d result
    exact ⟨⟨left.clean, work.clean.path⟩, congrArg (Session.mk · _ _ _ _) left.reporter,
      work.trace.report left.written, left.ending⟩

end OnlyDecorates

end Work

end Lisplet
