import Lisplet.Proofs.Grammar.Exactness
import Lisplet.Proofs.Places.Distinct
import Lisplet.Proofs.Relocation.Origin
import Lisplet.Proofs.Relocation.Outline

/-!
# Layout does not change what a source means

Two sources whose tokens are the same but for their places differ by a relocation of these tokens
(`exists_relocation`), which takes each token of the one to the token at the same index of the
other.  What is read from them, displayed and evaluated is therefore the same, and errors blame
tokens of the same index (`same_of_layout`).
-/

namespace Lisplet

/-- All of a token but its place. -/
def Token.content (t : Token) : Kind × String × Value := (t.kind, t.lexeme, t.literal)

/-! ### Streams with the same tokens -/

namespace Tokens

/-- The streams have the same tokens but for their places. -/
def SameContent (ts ts' : Tokens) : Prop :=
  ts.toList.map Token.content = ts'.toList.map Token.content

/-- The token stands in the one stream where the other token stands in the other. -/
def SameIndex (ts ts' : Tokens) (t t' : Token) : Prop :=
  t ∈ ts.toList ∧ t' ∈ ts'.toList ∧ ts.toList.idxOf t = ts'.toList.idxOf t'

theorem toList_relocate (f : Relocation) (ts : Tokens) :
    (ts.relocate f).toList = ts.toList.map f := by
  simp [toList]

theorem eq_of_toList_eq {ts ts' : Tokens} (h : ts.toList = ts'.toList) : ts = ts' := by
  obtain ⟨ahead, last⟩ := List.append_inj' h rfl
  exact Tokens.ext ahead (List.singleton_inj.1 last)

end Tokens

/-- The relocation that takes each token of a list to the place of the one at the same index of
another list. -/
def Relocation.onto (as bs : List Token) : Relocation where
  move t := match bs[as.idxOf t]? with
    | some u => { t with line := u.line, column := u.column }
    | none => t
  kind_move t := by split <;> rfl
  lexeme_move t := by split <;> rfl
  literal_move t := by split <;> rfl

theorem Relocation.map_onto {as bs : List Token} (distinct : as.Nodup)
    (same : as.map Token.content = bs.map Token.content) : as.map (onto as bs) = bs := by
  have length : as.length = bs.length := by simpa using congrArg List.length same
  refine List.ext_getElem (by rw [List.length_map, length]) fun i _ hb => ?_
  have ha : i < as.length := length ▸ hb
  have content : as[i].content = bs[i].content := by
    have := List.getElem_of_eq same (by simpa using ha)
    simpa using this
  simp only [Token.content, Prod.mk.injEq] at content
  obtain ⟨kind, lexeme, literal⟩ := content
  rw [List.getElem_map]
  simp only [onto, distinct.idxOf_getElem i ha, List.getElem?_eq_getElem hb, kind, lexeme, literal]

/-- Streams with the same tokens but for their places differ by a relocation. -/
theorem exists_relocation {ts ts' : Tokens} (distinct : ts.toList.Nodup)
    (same : ts.SameContent ts') : ∃ f : Relocation, ts' = ts.relocate f := by
  refine ⟨.onto ts.toList ts'.toList, Tokens.eq_of_toList_eq ?_⟩
  rw [Tokens.toList_relocate, Relocation.map_onto distinct same]

theorem sameIndex_relocate {f : Relocation} {ts : Tokens} {t : Token} (distinct : ts.toList.Nodup)
    (distinct' : (ts.relocate f).toList.Nodup) (mem : t ∈ ts.toList) :
    ts.SameIndex (ts.relocate f) t (f t) := by
  obtain ⟨i, hi, rfl⟩ := List.getElem_of_mem mem
  rw [Tokens.toList_relocate] at distinct'
  have hi' : i < (ts.toList.map f).length := by simpa using hi
  have moved : (ts.toList.map f)[i] = f ts.toList[i] := List.getElem_map ..
  refine ⟨mem, ?_, ?_⟩
  · rw [Tokens.toList_relocate]
    exact List.mem_map_of_mem mem
  · rw [Tokens.toList_relocate, distinct.idxOf_getElem i hi, ← moved,
      distinct'.idxOf_getElem i hi']

/-! ### What is the same -/

/-- The evaluations end alike: both come to their end, or both halt, for the same reason and at
tokens of the same index of the two streams. -/
inductive EndAlike (ts ts' : Tokens) : Except Halt Unit → Except Halt Unit → Prop where
  | finished : EndAlike ts ts' (.ok ()) (.ok ())
  | faulted {x x' : Fault} (message : x.message = x'.message)
      (index : ts.SameIndex ts' x.token x'.token) :
      EndAlike ts ts' (.error (.fault x)) (.error (.fault x'))
  | tooDeep : EndAlike ts ts' (.error .tooDeep) (.error .tooDeep)

section Relocated

variable {ts : Tokens} {es : List Expr} {f : Relocation} {room : Nat}

theorem endAlike_relocate (distinct : ts.toList.Nodup)
    (distinct' : (ts.relocate f).toList.Nodup) (parsed : parseWithin room ts = .ok es)
    (limit : Nat) (s : Scope) :
    EndAlike ts (ts.relocate f) (interpret limit es s).result
      (interpret limit (es.map (Expr.relocate f)) s).result := by
  rw [interpret_relocate]
  simp only [Run.relocate, Outcome.relocate]
  cases h : (interpret limit es s).result with
  | ok done => exact .finished
  | error halt =>
    cases halt with
    | tooDeep => exact .tooDeep
    | fault x =>
      exact .faulted (Fault.message_relocate f x).symm
        (sameIndex_relocate distinct distinct' (mem_of_interpret_fault parsed h))

end Relocated

/-- **Layout never changes meaning.**  Let two sources be read into tokens that are the same but for
their places.  Then both fail to parse, with the same message and with tokens of the same index to
blame; or both parse, their trees are displayed by the same texts, and whatever scope they are
interpreted in, both print the same and come to their end, or halt with the same message at tokens
of the same index.  Where there is not room enough, both are nested too deeply. -/
theorem same_of_layout {u v : String} {ts ts' : Tokens} (hu : tokenize u = .ok ts)
    (hv : tokenize v = .ok ts') (same : ts.SameContent ts') (room : Nat) :
    (∃ e e', parseWithin room ts = .error (.error e) ∧ parseWithin room ts' = .error (.error e') ∧
        e.message = e'.message ∧ ts.SameIndex ts' e.token e'.token) ∨
      (∃ es es', parseWithin room ts = .ok es ∧ parseWithin room ts' = .ok es' ∧
        (∀ levels, es.map (Expr.display? levels) = es'.map (Expr.display? levels)) ∧
        ∀ limit s, (interpret limit es s).output = (interpret limit es' s).output ∧
          EndAlike ts ts' (interpret limit es s).result (interpret limit es' s).result) ∨
      (room ≤ ts.ahead.length ∧ parseWithin room ts = .error .tooDeep ∧
        parseWithin room ts' = .error .tooDeep) := by
  have distinct := nodup_of_tokenize hu
  have distinct' := nodup_of_tokenize hv
  obtain ⟨f, rfl⟩ := exists_relocation distinct same
  have moved := parseWithin_relocate f room ts
  cases parsed : parseWithin room ts with
  | ok es =>
    rw [parsed] at moved
    refine .inr (.inl ⟨es, _, rfl, moved, fun levels => ?_, fun limit s => ⟨?_, ?_⟩⟩)
    · simp [Expr.display?_relocate]
    · rw [interpret_relocate]
      rfl
    · exact endAlike_relocate distinct distinct' parsed limit s
  | error stop =>
    rw [parsed] at moved
    cases stop with
    | error e =>
      exact .inl ⟨e, _, rfl, moved, (ParseError.message_relocate f e).symm,
        sameIndex_relocate distinct distinct' (mem_of_parseWithin_error parsed)⟩
    | tooDeep =>
      have narrow : room ≤ ts.ahead.length :=
        Nat.le_of_not_lt fun wide => parseWithin_ne_tooDeep wide parsed
      exact .inr (.inr ⟨narrow, rfl, moved⟩)

open Segment in
/-- A sign and an unbound name on one line, and on two with a comment between them: both are read,
and the fault is that of the second token, wherever it stands. -/
theorem same_of_layout_sign_name :
    ∃ ts ts', tokenize "-x" = .ok ts ∧ tokenize "- ;\nx" = .ok ts' ∧ ts.SameContent ts' ∧
      ∃ es es', parse ts = .ok es ∧ parse ts' = .ok es' ∧
        EndAlike ts ts' (interpret depthLimit es .empty).result
          (interpret depthLimit es' .empty).result := by
  have near : Cuts ['-', 'x'] [lexeme .minus ['-'], lexeme .identifier ['x']] [] :=
    .of_next rfl (.of_next rfl .nil)
  have far : Cuts ['-', ' ', ';', '\n', 'x'] [lexeme .minus ['-'], blank ' ', .comment [';'],
      blank '\n', lexeme .identifier ['x']] [] :=
    .of_next rfl (.of_next rfl (.of_next rfl (.of_next rfl (.of_next rfl .nil))))
  rw [show ['-', 'x'] = "-x".toList from rfl] at near
  rw [show ['-', ' ', ';', '\n', 'x'] = "- ;\nx".toList from rfl] at far
  have same := same_of_layout (tokenize_of_closed near) (tokenize_of_closed far) rfl depthLimit
  refine ⟨_, _, tokenize_of_closed near, tokenize_of_closed far, rfl, ?_⟩
  rcases same with ⟨e, _, failed, -⟩ | ⟨es, es', parsed, parsed', -, ends⟩ | ⟨-, deep, -⟩
  · cases failed
  · exact ⟨es, es', parsed, parsed', (ends depthLimit .empty).2⟩
  · cases deep

end Lisplet
