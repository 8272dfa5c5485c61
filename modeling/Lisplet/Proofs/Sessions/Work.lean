import Lisplet.Proofs.Evaluation.Frame
import Lisplet.Session

/-!
# What work does to a session

All that work on a unit of input does to a session is that it registers the unit in the beginning
and, if it comes to its end, forgets it again (`Work.registers_lex`, `Work.closes_run` and so on).
Evaluation gives back the globals as they were.  Since the unit is registered first, work comes out
the same in sessions that differ only in what was registered before (`Work.Blind`).
-/

namespace Lisplet

namespace Session

/-- The session in which what was read of a unit is registered. -/
def registered (s : Session) (l : Lexer) : Session :=
  { s with reporter := s.reporter.register s.path l }

/-- The session that has forgotten the unit that was registered. -/
def forgotten (s : Session) : Session := { s with reporter := s.reporter.removeSource }

/-- The session as it was made: nothing was registered yet. -/
def renewed (s : Session) : Session :=
  { s with reporter := { s.reporter with path := none, source := none } }

@[simp] theorem renewed_registered (s : Session) (l : Lexer) :
    (s.registered l).renewed = s.renewed := rfl

@[simp] theorem renewed_forgotten (s : Session) : s.forgotten.renewed = s.renewed := rfl

@[simp] theorem renewed_renewed (s : Session) : s.renewed.renewed = s.renewed := rfl

theorem renewed_of_registered {s s' : Session} {l : Lexer}
    (h : s' = s.registered l ∨ s' = (s.registered l).forgotten) : s'.renewed = s.renewed := by
  rcases h with rfl | rfl
  · rw [renewed_registered]
  · rw [renewed_forgotten, renewed_registered]

theorem globals_eq {s s' : Session} (h : s.renewed = s'.renewed) : s.globals = s'.globals := by
  have globals := congrArg Session.globals h
  exact globals

theorem fatal_eq {s s' : Session} (h : s.renewed = s'.renewed) :
    s.reporter.fatal = s'.reporter.fatal := by
  have fatal := congrArg (fun s => s.reporter.fatal) h
  exact fatal

end Session

/-- What was read of a unit of input when its tokens have been. -/
def readOf (source : String) : Lexer := (Lexer.ofSource source).tokenize.2

namespace Work

variable {α β : Type}

/-! ### Sequences -/

theorem bind_of_error {x : Work α} {f : α → Work β} {s : Session} {d : Departure}
    (h : (x s).2.2 = .error d) : (x >>= f) s = ((x s).1, (x s).2.1, .error d) := by
  rcases hx : x s with ⟨s', trace, result⟩
  rw [hx] at h
  obtain rfl : result = .error d := h
  simp only [bind, hx]

theorem bind_of_ok {x : Work α} {f : α → Work β} {s : Session} {a : α}
    (h : (x s).2.2 = .ok a) :
    (x >>= f) s = ((f a (x s).1).1, (x s).2.1.append (f a (x s).1).2.1, (f a (x s).1).2.2) := by
  rcases hx : x s with ⟨s', trace, result⟩
  rw [hx] at h
  obtain rfl : result = .ok a := h
  simp only [bind, hx]

/-! ### Work that changes no session -/

/-- The work leaves the session as it is. -/
def Static (x : Work α) : Prop := ∀ s, (x s).1 = s

theorem static_pure (a : α) : (pure a : Work α).Static := fun _ => rfl

theorem static_leave (d : Departure) : (leave d : Work α).Static := fun _ => rfl

theorem static_list (line : String) : (list line).Static := fun _ => rfl

theorem session_bind {x : Work α} {f : α → Work β} (hf : ∀ a, (f a).Static) (s : Session) :
    ((x >>= f) s).1 = (x s).1 := by
  cases h : (x s).2.2 with
  | error d => rw [bind_of_error h]
  | ok a => rw [bind_of_ok h, hf a]

theorem Static.bind {x : Work α} {f : α → Work β} (hx : x.Static) (hf : ∀ a, (f a).Static) :
    (x >>= f).Static := fun s => (session_bind hf s).trans (hx s)

theorem static_listEach {line : α → Work String} (h : ∀ a, (line a).Static) (as : List α) :
    (listEach line as).Static := by
  induction as with
  | nil => exact static_pure ()
  | cons a as ih => exact (h a).bind fun _ => (static_list _).bind fun _ => ih

theorem static_warnOfNothing (last : Token) : (warnOfNothing last).Static := by
  intro s
  unfold warnOfNothing
  split
  · rfl
  · split <;> rfl

theorem static_evaluate (es : List Expr) : (evaluate es).Static := fun s => by
  rw [evaluate, scope_interpret]

theorem static_outline (e : Expr) : (outline e).Static := by
  unfold outline
  split
  · exact static_pure _
  · exact static_leave _

/-! ### The session after work on a unit -/

/-- The work registers the unit. -/
def Registers (source : String) (x : Work α) : Prop :=
  ∀ s, (x s).1 = s.registered (readOf source)

/-- The work registers the unit, and forgets it just where it comes to its end. -/
def Closes (source : String) (x : Work Unit) : Prop :=
  ∀ s, ((x s).2.2 = .ok () ∧ (x s).1 = (s.registered (readOf source)).forgotten) ∨
    ∃ d, (x s).2.2 = .error d ∧ (x s).1 = s.registered (readOf source)

theorem Registers.bind {source : String} {x : Work α} {f : α → Work β} (hx : x.Registers source)
    (hf : ∀ a, (f a).Static) : (x >>= f).Registers source :=
  fun s => (session_bind hf s).trans (hx s)

theorem Registers.closes {source : String} {x : Work α} {f : α → Work Unit}
    (hx : x.Registers source) (hf : ∀ a, (f a).Static) :
    (x >>= fun a => f a >>= fun _ => removeSource).Closes source := by
  intro s
  cases result : (x s).2.2 with
  | error d =>
    rw [bind_of_error result]
    exact .inr ⟨d, rfl, hx s⟩
  | ok a =>
    rw [bind_of_ok result]
    cases result' : (f a (x s).1).2.2 with
    | error d =>
      rw [bind_of_error result']
      exact .inr ⟨d, rfl, (hf a _).trans (hx s)⟩
    | ok u =>
      rw [bind_of_ok result', hf a, hx s]
      exact .inl ⟨rfl, rfl⟩

theorem registers_lex (source : String) : (lex source).Registers source := by
  intro s
  rcases hl : (Lexer.ofSource source).tokenize with ⟨tokens, lexer⟩
  have read : readOf source = lexer := by rw [readOf, hl]
  simp only [lex, hl, read]
  -- Behind the registration stands only what changes no session.
  refine session_bind (fun _ => ?_) s
  cases tokens with
  | error unclosed => exact static_leave _
  | ok tokens =>
    dsimp only
    split
    · exact (static_warnOfNothing _).bind fun _ => static_pure _
    · exact static_pure _

theorem registers_parse (source : String) : (parse source).Registers source := by
  refine (registers_lex source).bind fun tokens => ?_
  split
  · exact static_pure _
  · exact static_leave _
  · exact static_leave _

theorem closes_run (source : String) : (run source).Closes source :=
  (registers_parse source).closes static_evaluate

theorem closes_showTokens (source : String) : (showTokens source).Closes source :=
  (registers_lex source).closes fun _ => static_listEach (fun _ => static_pure _) _

theorem closes_showTree (source : String) : (showTree source).Closes source :=
  (registers_parse source).closes fun _ => static_listEach static_outline _

/-- Closing work leaves a session in which the unit is registered or forgotten again. -/
theorem Closes.session {source : String} {x : Work Unit} (h : x.Closes source) (s : Session) :
    (x s).1 = s.registered (readOf source) ∨
      (x s).1 = (s.registered (readOf source)).forgotten := by
  rcases h s with ⟨-, session⟩ | ⟨_, -, session⟩
  · exact .inr session
  · exact .inl session

/-- Work that closes a unit still has it registered when it is left. -/
theorem Closes.session_of_error {source : String} {x : Work Unit} {s : Session} {d : Departure}
    (h : x.Closes source) (left : (x s).2.2 = .error d) :
    (x s).1 = s.registered (readOf source) := by
  rcases h s with ⟨finished, -⟩ | ⟨_, -, session⟩
  · rw [finished] at left
    cases left
  · exact session

theorem Closes.renewed {source : String} {x : Work Unit} (h : x.Closes source) (s : Session) :
    (x s).1.renewed = s.renewed :=
  Session.renewed_of_registered (h.session s)

/-! ### Work that does not see what was registered -/

/-- The work comes out the same whatever was registered before. -/
def Blind (x : Work α) : Prop := ∀ s : Session, x s = x s.renewed

theorem Blind.bind {x : Work α} (h : x.Blind) (f : α → Work β) : (x >>= f).Blind := by
  intro s
  simp only [Bind.bind, h s]

theorem blind_register_bind (l : Lexer) (f : Unit → Work α) : (register l >>= f).Blind :=
  fun _ => rfl

theorem blind_lex (source : String) : (lex source).Blind := blind_register_bind _ _

theorem blind_parse (source : String) : (parse source).Blind := (blind_lex source).bind _

theorem blind_run (source : String) : (run source).Blind := (blind_parse source).bind _

theorem blind_showTokens (source : String) : (showTokens source).Blind := (blind_lex source).bind _

theorem blind_showTree (source : String) : (showTree source).Blind := (blind_parse source).bind _

end Work

end Lisplet
