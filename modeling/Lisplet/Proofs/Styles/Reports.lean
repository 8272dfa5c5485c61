import Lisplet.Proofs.Reports.Carets
import Lisplet.Proofs.Styles.Mentions
import Lisplet.Proofs.Styles.Unstyled

/-!
# Styled reports and plain ones

A reporter and the same one with its styles switched off say the same, and the styled report
decorates the plain one (`Reporter.format_plain`, `Reporter.leave_plain`), as long as neither the
source nor the path nor the message holds an escape character.  The messages of the language hold
none where the tokens hold none.
-/

namespace Lisplet

open Text (Decorates)

/-! ### Messages -/

theorem ParseError.clean_expressionStarts : Text.Clean expressionStarts := by
  refine Text.clean_intercalate (.ofList rfl) ?_
  simp only [List.forall_mem_cons]
  and_intros
  any_goals exact .ofList rfl
  exact List.forall_mem_nil _

theorem ParseError.clean_message {e : ParseError} (lexeme : Text.Clean e.token.lexeme)
    (names : ∀ name ∈ e.problem.names, Text.Clean name) : Text.Clean e.message := by
  unfold ParseError.message
  cases problem : e.problem with
  | boundValue name | close name =>
    have name : Text.Clean name := names _ (by simp [problem, ParseProblem.names])
    simp only [Text.clean_append, lexeme, name, and_true]
    and_intros <;> exact .ofList rfl
  | name | thenOpening | thenWord | clause | clauseOpening | condition => exact .ofList rfl
  | _ =>
    simp only [Text.clean_append, lexeme, clean_expressionStarts, and_true]
    and_intros <;> exact .ofList rfl

theorem Fault.Arises.clean_message {f : Fault} (h : f.Arises)
    (lexeme : Text.Clean f.token.lexeme) : Text.Clean f.message := by
  have typeName (v : Value) : Text.Clean v.typeName := by cases v <;> exact .ofList rfl
  unfold Fault.message
  cases cause : f.cause with
  | incomparable first second =>
    obtain ⟨v, w, rfl, rfl⟩ := h.exists_types cause
    simp only [Text.clean_append, lexeme, typeName, and_true]
    and_intros <;> exact .ofList rfl
  | divisionByZero => exact .ofList rfl
  | _ =>
    simp only [Text.clean_append, lexeme, and_true]
    and_intros <;> exact .ofList rfl

theorem UnclosedString.clean_message (e : UnclosedString) : Text.Clean e.message := by
  unfold UnclosedString.message
  simp only [Text.clean_append, Text.clean_toString_nat, and_true]
  and_intros <;> exact .ofList rfl

theorem NoSuchLine.clean_message (e : NoSuchLine) : Text.Clean e.message := by
  unfold NoSuchLine.message
  simp only [Text.clean_append, Text.clean_toString_nat, Text.clean_toString_int, and_true]
  and_intros <;> exact .ofList rfl

/-- What is told of a departure has no escape characters. -/
def Departure.Clean : Departure → Prop
  | .failure f => Text.Clean f.message
  | .internal name message => Text.Clean name ∧ Text.Clean message
  | _ => True

namespace Lexer

variable {l : Lexer} {line : List Char} {c : Char}

theorem mem_of_mem_lastLine (mem : c ∈ l.lastLine) : c ∈ l.source := by
  rw [lastLine, List.getLastD_eq_getLast?,
    List.getLast?_eq_some_getLast (Text.lines_ne_nil l.source)] at mem
  exact (Text.mem_of_mem_lines (List.getLast_mem _) mem).1

theorem mem_of_mem_closedLines (closed : line ∈ l.closedLines) (mem : c ∈ line) :
    c ∈ l.source := by
  unfold closedLines at closed
  split at closed
  · cases closed
  · rcases List.mem_append.1 closed with earlier | again
    · exact (Text.mem_of_mem_lines (List.dropLast_subset _ earlier) mem).1
    · rw [List.eq_of_mem_replicate again] at mem
      exact mem_of_mem_lastLine mem

/-- A line that can be looked up is made of characters of the source. -/
theorem mem_of_line {n : Int} (found : l.line n = .ok line) (mem : c ∈ line) : c ∈ l.source := by
  simp only [Lexer.line] at found
  split at found
  · obtain rfl := Except.ok.inj found
    unfold openLine at mem
    split at mem
    · exact mem_of_mem_lastLine mem
    · cases mem
  · split at found
    · split at found
      · rename_i text closed
        obtain rfl := Except.ok.inj found
        exact mem_of_mem_closedLines (List.mem_of_getElem? closed) mem
      · cases found
    · cases found

end Lexer

/-- The reporter with its styles switched off. -/
def Reporter.plain (r : Reporter) : Reporter := { r with styled := false }

/-- Neither the path nor the source has escape characters. -/
structure Reporter.Clean (r : Reporter) : Prop where
  path : ∀ p, r.path = some p → Text.Clean p
  source : ∀ l, r.source = some l → '\x1b' ∉ l.source

/-- Two ways to handle a departure differ in nothing but that the first one decorates what it
writes. -/
structure Handling.Decorates (styled plain : Handling) : Prop where
  clean : styled.reporter.Clean
  reporter : plain.reporter = styled.reporter.plain
  written : Text.Decorates styled.written plain.written
  ending : plain.ending = styled.ending

namespace Reporter

variable {r : Reporter}

theorem clean_new (fatal styled : Bool) : (new fatal styled).Clean := ⟨nofun, nofun⟩

theorem Clean.forTyping (h : r.Clean) : r.forTyping.Clean := ⟨h.path, h.source⟩

theorem Clean.removeSource (h : r.Clean) : r.removeSource.Clean := ⟨h.path, nofun⟩

theorem clean_register {path : String} (hpath : Text.Clean path) {l : Lexer}
    (source : '\x1b' ∉ l.source) : (r.register path l).Clean where
  path p hp := by
    obtain rfl := Option.some.inj hp
    exact hpath
  source k hk := by
    obtain rfl := Option.some.inj hk
    exact source

theorem Clean.getD_path (h : r.Clean) {default : String} (hd : Text.Clean default) :
    Text.Clean (r.path.getD default) := by
  cases path : r.path with
  | none => exact hd
  | some p => exact h.path p path

/-! ### The text of a report -/

theorem Clean.place (h : r.Clean) (token : Option Token) : Text.Clean (r.place token) := by
  unfold Reporter.place
  split
  · unfold context
    split
    · exact Text.clean_toString_int _
    · simp only [Text.clean_append, Text.clean_toString_int, and_true]
      exact ⟨⟨h.getD_path (.ofList rfl), .ofList rfl⟩, .ofList rfl⟩
  · exact h.getD_path Text.clean_empty

theorem Clean.headline (h : r.Clean) (severity : Severity) {f : Failure}
    (message : Text.Clean f.message) :
    Decorates (r.headline severity f) (r.plain.headline severity f) := by
  have place : Text.Clean (r.place f.token ++ ": ") :=
    Text.clean_append.2 ⟨h.place f.token, .ofList rfl⟩
  have name : Text.Clean (f.kind.name ++ ": ") := by
    refine Text.clean_append.2 ⟨?_, .ofList rfl⟩
    cases f.kind <;> exact .ofList rfl
  have warning : Text.Clean ("warning" ++ ": ") := Text.clean_append.2 ⟨.ofList rfl, .ofList rfl⟩
  refine (Decorates.append ?_ ?_).append message.decorates
  · by_cases empty : (r.place f.token).isEmpty = true
    · rw [if_pos empty, if_pos (show (r.plain.place f.token).isEmpty = true from empty)]
      exact Text.clean_empty.decorates
    · rw [if_neg empty, if_neg (show ¬ (r.plain.place f.token).isEmpty = true from empty)]
      exact place.decorates_bold _ _
  · cases severity with
    | error => exact name.decorates_bold _ _
    | warning => exact warning.decorates_bold _ _

theorem decorates_quote {line : List Char} (h : '\x1b' ∉ line) (severity : Severity) (t : Token) :
    Decorates (r.quote severity line t) (r.plain.quote severity line t) := by
  have trimmed : Text.Clean (String.ofList (Text.trim line)) :=
    Text.clean_ofList.2 fun mem => h (Text.mem_of_mem_trim mem)
  have marks : Text.Clean (carets line t) := by simp [carets]
  have quoted : Text.Clean ("\n\t\"" ++ String.ofList (Text.trim line) ++ "\"\n\t") :=
    Text.clean_append.2 ⟨Text.clean_append.2 ⟨.ofList rfl, trimmed⟩, .ofList rfl⟩
  exact quoted.decorates.append (marks.decorates_bold _ _)

/-- There is a styled report just where there is a plain one, and it decorates it. -/
theorem Clean.format (h : r.Clean) (severity : Severity) {f : Failure}
    (message : Text.Clean f.message) :
    (∃ text text', r.format severity f = .ok text ∧ r.plain.format severity f = .ok text' ∧
        Decorates text text') ∨
      ∃ e, r.format severity f = .error e ∧ r.plain.format severity f = .error e := by
  have headline := h.headline severity message
  -- The two reporters have the same source.
  cases source : r.source with
  | none =>
    have source' : r.plain.source = none := source
    exact .inl ⟨_, _, by simp only [Reporter.format, source],
      by simp only [Reporter.format, source'], headline⟩
  | some l =>
    have source' : r.plain.source = some l := source
    cases token : f.token with
    | none =>
      exact .inl ⟨_, _, by simp only [Reporter.format, source, token],
        by simp only [Reporter.format, source', token], headline⟩
    | some t =>
      cases found : l.line t.line with
      | error e =>
        exact .inr ⟨e, by simp only [Reporter.format, source, token, found, Except.map],
          by simp only [Reporter.format, source', token, found, Except.map]⟩
      | ok line =>
        have clean : '\x1b' ∉ line := fun mem => h.source l source (Lexer.mem_of_line found mem)
        have feed : Text.Clean "\n" := .ofList rfl
        exact .inl ⟨_, _, format_of_line severity source token found,
          format_of_line severity source' token found,
          (headline.append feed.decorates).append (decorates_quote clean severity t)⟩

theorem Clean.warn (h : r.Clean) (token : Option Token) {message : String}
    (clean : Text.Clean message) :
    (∃ text text', r.warn token message = .ok text ∧ r.plain.warn token message = .ok text' ∧
        Decorates text text') ∨
      ∃ e, r.warn token message = .error e ∧ r.plain.warn token message = .error e := by
  have feed : Text.Clean "\n" := .ofList rfl
  rcases h.format .warning (f := ⟨.general, token, message⟩) clean with
    ⟨text, text', styled, plain, decorates⟩ | ⟨e, styled, plain⟩
  · exact .inl ⟨_, _, by simp only [Reporter.warn, styled, Except.map],
      by simp only [Reporter.warn, plain, Except.map], decorates.append feed.decorates⟩
  · exact .inr ⟨e, by simp only [Reporter.warn, styled, Except.map],
      by simp only [Reporter.warn, plain, Except.map]⟩

/-! ### Handling -/

theorem Clean.throw (h : r.Clean) {f : Failure} (message : Text.Clean f.message)
    (internal : Bool) : (r.throw f internal).Decorates (r.plain.throw f internal) := by
  have feed : Text.Clean "\n" := .ofList rfl
  have mark : Decorates (if internal then r.internalMark else "")
      (if internal then r.plain.internalMark else "") := by
    cases internal with
    | false => exact Text.clean_empty.decorates
    | true => exact (Text.Clean.ofList rfl : Text.Clean "[internal] ").decorates_bold _ _
  rcases h.format .error message with
    ⟨text, text', styled, plain, decorates⟩ | ⟨e, styled, plain⟩
  · have written := (mark.append decorates).append feed.decorates
    simp only [Reporter.throw, styled, plain, show r.plain.fatal = r.fatal from rfl]
    split
    · exact ⟨h, rfl, written, rfl⟩
    · exact ⟨h.removeSource, rfl, written, rfl⟩
  · simp only [Reporter.throw, styled, plain]
    exact ⟨h, rfl, Text.clean_empty.decorates, rfl⟩

/-- A guarded block ends the same with styles and without. -/
theorem Clean.leave (h : r.Clean) {d : Option Departure} (told : ∀ x ∈ d, x.Clean) :
    (r.leave d).Decorates (r.plain.leave d) := by
  have silent (ending : Ending) : Handling.Decorates ⟨r, "", ending⟩ ⟨r.plain, "", ending⟩ :=
    ⟨h, rfl, Text.clean_empty.decorates, rfl⟩
  match d with
  | none | some (.exit _) => exact silent _
  | some .interrupt =>
    have clean : Text.Clean "keyboard interrupt" := .ofList rfl
    exact h.throw (f := .interrupted) clean false
  | some .tooDeep =>
    have clean : Text.Clean "maximum nesting depth exceeded" := .ofList rfl
    exact h.throw (f := .tooDeep) clean false
  | some (.failure f) => exact h.throw (told _ rfl) false
  | some (.internal name message) =>
    obtain ⟨cleanName, cleanMessage⟩ : Text.Clean name ∧ Text.Clean message := told _ rfl
    have clean : Text.Clean (Failure.unknown name message).message := by
      simp only [Failure.unknown, Text.clean_append, cleanName, cleanMessage, and_true]
      exact ⟨⟨.ofList rfl, .ofList rfl⟩, .ofList rfl⟩
    have thrown := h.throw clean true
    simp only [Reporter.leave, thrown.ending]
    split
    · exact ⟨thrown.clean, thrown.reporter, thrown.written, rfl⟩
    · exact thrown

end Reporter

end Lisplet
