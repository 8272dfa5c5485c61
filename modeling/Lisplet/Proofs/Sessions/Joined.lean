import Lisplet.Proofs.Evaluation.Sequence
import Lisplet.Proofs.Grammar.Exactness
import Lisplet.Proofs.Segmentation.Joined
import Lisplet.Proofs.Sessions.Outcome

/-!
# Units in a file and units by themselves

Units of input that can each be read by itself may be joined, each on lines of its own, to one text.
It is cut into the tokens of the units, parsed to the expressions of the units, and evaluated as the
units would be one after the other, since none sees what an earlier one has bound.  So the joined
text runs as its units do, and a failure in one of them is the same failure further down
(`run_joined`).
-/

namespace Lisplet

open Grammar

/-- Runs units in order.  The first one that is left is the last one. -/
def Work.runEach : List String → Work Unit
  | [] => pure ()
  | u :: us => do
    Work.run u
    runEach us

/-- Units as one text, each on lines of its own. -/
def joined (us : List String) : String := "\n".intercalate us

/-- The number of lines that some units take up in the text they are joined to: their line feeds and
one more for each unit. -/
def linesOf : List String → Nat
  | [] => 0
  | u :: us => u.toList.count '\n' + 1 + linesOf us

/-- A unit that can be read by itself and does not end inside a block comment. -/
structure Readable (u : String) : Prop where
  parsed : ∃ ts es, tokenize u = .ok ts ∧ parse ts = .ok es
  closed : ¬ EndsInOpenComment u

/-- The expressions of units that are joined: those of each unit by itself, and those behind it
further down. -/
inductive JoinedTo : List String → List Expr → Prop where
  | nil : JoinedTo [] []
  | cons {u : String} {us : List String} {ts : Tokens} {es es' : List Expr}
      (tokens : tokenize u = .ok ts) (parsed : parse ts = .ok es) (more : JoinedTo us es') :
      JoinedTo (u :: us)
        (es ++ es'.map (Expr.relocate (.down (u.toList.count '\n' + 1))))

/-! ### Reading -/

theorem Grammar.Derives.append {es es' : List Expr} {w w' : List Token}
    (d : Derives (.program es) w) (d' : Derives (.program es') w') :
    Derives (.program (es ++ es')) (w ++ w') := by
  cases d with
  | alternative h => cases h
  | program each =>
    cases d' with
    | alternative h => cases h
    | program each' =>
      rw [← trees_append, ← words_append]
      exact .program fun x hx => (List.mem_append.1 hx).elim (each x) (each' x)

/-- Relocated tokens derive as the relocated program. -/
theorem Grammar.Derives.relocate (f : Relocation) {ts : Tokens} {es : List Expr}
    (noEnd : ∀ t ∈ ts.ahead, t.kind ≠ .eof) (d : Derives (.program es) ts.ahead) :
    Derives (.program (es.map (Expr.relocate f))) (ts.ahead.map f) := by
  have parsed := (parseWithin_of_derives d).resolve_right
    (parseWithin_ne_tooDeep (Nat.lt_succ_self ts.ahead.length))
  have moved := parseWithin_relocate f (ts.ahead.length + 1) ts
  rw [parsed] at moved
  have noEnd' : ∀ t ∈ (ts.relocate f).ahead, t.kind ≠ .eof := by
    intro t ht
    obtain ⟨t', ht', rfl⟩ := List.mem_map.1 ht
    rw [f.kind_move]
    exact noEnd t' ht'
  exact derives_of_parseWithin noEnd' moved

theorem exists_joinedTo {us : List String} (h : ∀ u ∈ us, Readable u) : ∃ es, JoinedTo us es := by
  induction us with
  | nil => exact ⟨[], .nil⟩
  | cons u us ih =>
    obtain ⟨first, others⟩ := List.forall_mem_cons.1 h
    obtain ⟨ts, es, tokens, parsed⟩ := first.parsed
    obtain ⟨es', more⟩ := ih others
    exact ⟨_, .cons tokens parsed more⟩

/-- The joined text can be cut, and its tokens derive as the expressions of the units. -/
theorem JoinedTo.derives {us : List String} {es : List Expr} (h : JoinedTo us es)
    (readable : ∀ u ∈ us, Readable u) :
    ∃ ts, tokenize (joined us) = .ok ts ∧ Derives (.program es) ts.ahead := by
  induction h with
  | nil =>
    have cuts : Segment.Cuts (joined []).toList [] [] := .nil
    exact ⟨_, tokenize_of_closed cuts, @Derives.program [] (by simp)⟩
  | @cons u us ts es es' tokens parsed more ih =>
    obtain ⟨first, others⟩ := List.forall_mem_cons.1 readable
    have d := derives_of_parseWithin (kind_ne_eof_of_tokenize tokens) parsed
    cases us with
    | nil =>
      cases more
      exact ⟨ts, by rw [joined, String.intercalate_singleton, tokens], by simpa using d⟩
    | cons v vs =>
      obtain ⟨ts', tokens', d'⟩ := ih others
      have text : joined (u :: v :: vs) = u ++ "\n" ++ joined (v :: vs) :=
        String.intercalate_cons_cons
      refine ⟨_, by rw [text, tokenize_append_newline tokens first.closed tokens'], ?_⟩
      exact d.append (d'.relocate _ (kind_ne_eof_of_tokenize tokens'))

/-! ### Running -/

/-- The place of a halt in a text that stands below some lines. -/
def Halt.down (k : Nat) (halt : Halt) : Halt := halt.relocate (.down k)

theorem Halt.down_zero (halt : Halt) : halt.down 0 = halt := by
  cases halt with
  | tooDeep => rfl
  | fault x => simp [down, relocate, Fault.relocate, Relocation.down, Relocation.lines]

theorem Halt.down_down (j k : Nat) (halt : Halt) : (halt.down j).down k = halt.down (k + j) := by
  cases halt with
  | tooDeep => rfl
  | fault x =>
    simp [down, relocate, Fault.relocate, Relocation.down, Relocation.lines]
    omega

section Running

variable {u : String} {us : List String} {ts : Tokens} {es es' : List Expr} {s : Session}

theorem runEach_cons_of_error {d : Departure} (h : (Work.run u s).2.2 = .error d) :
    Work.runEach (u :: us) s = ((Work.run u s).1, (Work.run u s).2.1, .error d) :=
  Work.bind_of_error h

theorem runEach_cons_of_ok (h : (Work.run u s).2.2 = .ok ()) :
    Work.runEach (u :: us) s =
      ((Work.runEach us (Work.run u s).1).1,
        (Work.run u s).2.1.append (Work.runEach us (Work.run u s).1).2.1,
        (Work.runEach us (Work.run u s).1).2.2) :=
  Work.bind_of_ok h

/-- The expressions of joined units run as the units do one after the other. -/
theorem JoinedTo.runEach (h : JoinedTo us es) (s : Session) :
    (Work.runEach us s).2.1.output = (interpret depthLimit es s.globals).output ∧
    ((Work.runEach us s).2.2 = .ok () ↔ (interpret depthLimit es s.globals).result = .ok ()) ∧
    ∀ before u after, us = before ++ u :: after → (Work.runEach before s).2.2 = .ok () →
      ∀ d, (Work.run u (Work.runEach before s).1).2.2 = .error d →
        ∃ halt : Halt, d = halt.departure ∧
          (interpret depthLimit es s.globals).result = .error (halt.down (linesOf before)) := by
  induction h generalizing s with
  | nil => exact ⟨rfl, iff_of_true rfl rfl, by simp⟩
  | @cons u us ts es es' tokens parsed more ih =>
    obtain ⟨output, result⟩ := Work.run_of_ok tokens parsed s
    -- Either the first unit is left, and nothing behind it is run, or it gives the globals back.
    cases hr : (interpret depthLimit es s.globals).result with
    | error halt =>
      rw [hr] at result
      rw [runEach_cons_of_error result, interpret_append_of_error hr, hr]
      refine ⟨output, by simp, ?_⟩
      intro before v after hus begun d failed
      cases before with
      | nil =>
        obtain ⟨rfl, -⟩ := List.cons.inj hus
        refine ⟨halt, ?_, by rw [show linesOf [] = 0 from rfl, Halt.down_zero]⟩
        rw [show Work.runEach [] s = (s, .empty, .ok ()) from rfl, result] at failed
        exact (Except.error.inj failed).symm
      | cons b before =>
        obtain ⟨rfl, -⟩ := List.cons.inj hus
        rw [runEach_cons_of_error result] at begun
        cases begun
    | ok done =>
      rw [hr] at result
      have globals : (Work.run u s).1.globals = s.globals :=
        Session.globals_eq ((Work.closes_run u).renewed s)
      obtain ⟨output', iff, failures⟩ := ih (Work.run u s).1
      rw [globals] at output' iff failures
      rw [runEach_cons_of_ok result, interpret_append_of_ok hr, interpret_relocate]
      simp only [Run.relocate, Outcome.relocate]
      refine ⟨?_, iff.trans ?_, ?_⟩
      · simp only [Trace.append, output, output']
      · cases (interpret depthLimit es' s.globals).result <;> simp
      · intro before v after hus begun d failed
        cases before with
        | nil =>
          obtain ⟨rfl, -⟩ := List.cons.inj hus
          rw [show Work.runEach [] s = (s, .empty, .ok ()) from rfl, result] at failed
          cases failed
        | cons b before =>
          obtain ⟨rfl, others⟩ := List.cons.inj hus
          rw [runEach_cons_of_ok result] at begun failed
          obtain ⟨halt, hd, hh⟩ := failures before v after others begun d failed
          refine ⟨halt, hd, ?_⟩
          rw [hh, linesOf, ← Halt.down_down]
          rfl

end Running

/-! ### Files and lines -/

/-- **A text runs as the units do that it is joined from.**  Let each of the units be readable by
itself, and let nothing in the run of the joined text be nested too deeply.  Then the joined text
prints what the units print that are run in order, up to the first that fails; it comes to its end
just where all of them do; and where one of them fails, it fails in the same way, with the token to
blame further down by the lines of the units before. -/
theorem run_joined {us : List String} {s s' : Session} (readable : ∀ u ∈ us, Readable u)
    (globals : s.globals = s'.globals)
    (shallow : (Work.run (joined us) s).2.2 ≠ .error .tooDeep) :
    (Work.run (joined us) s).2.1.output = (Work.runEach us s').2.1.output ∧
    ((Work.run (joined us) s).2.2 = .ok () ↔ (Work.runEach us s').2.2 = .ok ()) ∧
    ∀ before u after, us = before ++ u :: after → (Work.runEach before s').2.2 = .ok () →
      ∀ d, (Work.run u (Work.runEach before s').1).2.2 = .error d →
        ∃ f t, d = .failure f ∧ f.token = some t ∧
          (Work.run (joined us) s).2.2 = .error (.failure
            { f with token := some { t with line := t.line + linesOf before } }) := by
  obtain ⟨es, joinedTo⟩ := exists_joinedTo readable
  obtain ⟨ts, tokens, d⟩ := joinedTo.derives readable
  have parsed : parse ts = .ok es := by
    -- Were the text nested too deeply for the parser, its run would be left by that.
    refine (parseWithin_of_derives d).resolve_right fun deep => shallow ?_
    have := (Work.parse_of_ok tokens s).2
    rw [show parse ts = .error .tooDeep from deep] at this
    exact (Work.run_of_parse_error this).2
  obtain ⟨output, result⟩ := Work.run_of_ok tokens parsed s
  obtain ⟨output', iff, failures⟩ := joinedTo.runEach s'
  rw [← globals] at output' iff failures
  refine ⟨output.trans output'.symm, ?_, ?_⟩
  · rw [iff, result]
    cases (interpret depthLimit es s.globals).result <;> simp
  · intro before u after hus begun d failed
    obtain ⟨halt, rfl, halted⟩ := failures before u after hus begun d failed
    rw [halted] at result
    cases halt with
    | tooDeep => exact absurd result shallow
    | fault x => exact ⟨x.failure, x.token, rfl, rfl, result⟩

theorem readable_of_cuts {source : String} {ss : List Segment} {es : List Expr}
    (cuts : Segment.Cuts source.toList ss []) (closed : ∀ s ∈ ss, ¬ s.IsOpenComment)
    (parsed : parse ⟨Segment.tokens .start ss, (Lexer.ofSource source).eof, rfl⟩ = .ok es) :
    Readable source where
  parsed := ⟨_, _, tokenize_of_closed cuts, parsed⟩
  closed := by
    rintro ⟨s, hs, open_⟩
    rw [cuts.cut_eq] at hs
    exact closed s hs open_

open Segment in
/-- A number and an unbound name, each on its line, run as the two units do. -/
theorem run_joined_number_name :
    let s := Session.typed (Reporter.new true false)
    (∀ u ∈ ["1", "x"], Readable u) ∧ (Work.run (joined ["1", "x"]) s).2.2 ≠ .error .tooDeep ∧
      (Work.run (joined ["1", "x"]) s).2.1.output = (Work.runEach ["1", "x"] s).2.1.output ∧
      ((Work.run (joined ["1", "x"]) s).2.2 = .ok () ↔
        (Work.runEach ["1", "x"] s).2.2 = .ok ()) := by
  intro s
  have noKeyword : ∀ p ∈ Kind.keywords, p.1 ≠ String.ofList ['x'] := by decide
  have number : ∀ rest, rest.head? ≠ some '.' → (∀ c ∈ rest.head?, c.isDigit = false) →
      Begins ('1' :: rest) (lexeme .number ['1']) rest := by
    intro rest point digit
    refine @Begins.integer ['1'] rest (by simp) ⟨by simp, digit⟩ ?_
    rintro ⟨d, ds, rfl, -⟩
    simp at point
  have one : Cuts ['1'] [lexeme .number ['1']] [] := .cons (number [] (by simp) (by simp)) .nil
  have name : Cuts ['x'] [lexeme .identifier ['x']] [] :=
    .cons (@Begins.identifier 'x' [] [] (by decide) ⟨by simp, by simp⟩
      fun k mem => noKeyword _ mem rfl) .nil
  have both : Cuts ['1', '\n', 'x']
      [lexeme .number ['1'], blank '\n', lexeme .identifier ['x']] [] :=
    .cons (number _ (by simp) (by simp)) (.cons (.blank (by simp)) name)
  have text : (joined ["1", "x"]).toList = ['1', '\n', 'x'] := rfl
  rw [← text] at both
  have readable : ∀ u ∈ ["1", "x"], Readable u := by
    simp only [List.forall_mem_cons]
    exact ⟨readable_of_cuts one (by simp [IsOpenComment]) rfl,
      readable_of_cuts name (by simp [IsOpenComment]) rfl, by simp⟩
  have shallow : (Work.run (joined ["1", "x"]) s).2.2 ≠ .error .tooDeep := by
    rw [(Work.run_of_ok (tokenize_of_closed both) rfl s).2]
    intro h
    cases h
  obtain ⟨output, iff, -⟩ := run_joined readable (rfl : s.globals = s.globals) shallow
  exact ⟨readable, shallow, output, iff⟩

end Lisplet
