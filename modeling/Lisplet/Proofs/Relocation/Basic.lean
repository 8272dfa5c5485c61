import Lisplet.Expr.Basic
import Lisplet.Token.Stream

/-!
# Tokens in other places

A `Relocation` puts tokens elsewhere: it may change their lines and columns, but not their kinds,
lexemes and literals.  It acts on whatever holds tokens.  What commutes with every relocation cannot
depend on places; and since relocations may be chosen to leave just the tokens with some property
where they are (`Relocation.sparing`), it cannot bring up tokens without that property either.
-/

namespace Lisplet

/-- A map of tokens that changes nothing but their places. -/
structure Relocation where
  move : Token → Token
  kind_move : ∀ t, (move t).kind = t.kind
  lexeme_move : ∀ t, (move t).lexeme = t.lexeme
  literal_move : ∀ t, (move t).literal = t.literal

instance : CoeFun Relocation fun _ => Token → Token := ⟨Relocation.move⟩

namespace Relocation

attribute [simp] kind_move lexeme_move literal_move

/-- The relocation to other lines. -/
def lines (line : Int → Int) : Relocation where
  move t := { t with line := line t.line }
  kind_move _ := rfl
  lexeme_move _ := rfl
  literal_move _ := rfl

open Classical in
/-- The relocation that moves the tokens without a property one line down. -/
noncomputable def sparing (p : Token → Prop) : Relocation where
  move t := if p t then t else { t with line := t.line + 1 }
  kind_move t := by split <;> rfl
  lexeme_move t := by split <;> rfl
  literal_move t := by split <;> rfl

theorem sparing_eq_self_iff {p : Token → Prop} {t : Token} : sparing p t = t ↔ p t := by
  by_cases hp : p t
  · simp [sparing, hp]
  · -- A token that is not spared stands one line further down.
    refine iff_of_false (fun h => ?_) hp
    have line : t.line + 1 = t.line := by simpa [sparing, hp] using congrArg Token.line h
    omega

end Relocation

/-! ### Results -/

section Results

variable {ε ε' α : Type} (f : ε → ε')

@[simp] theorem mapError_ok (a : α) : (Except.ok a).mapError f = .ok a := rfl

@[simp] theorem mapError_error (e : ε) :
    (Except.error e : Except ε α).mapError f = .error (f e) := rfl

end Results

/-! ### Streams -/

namespace Tokens

variable (f : Relocation) (ts : Tokens)

/-- The stream of relocated tokens. -/
def relocate (f : Relocation) (ts : Tokens) : Tokens :=
  ⟨ts.ahead.map f, f ts.last, by rw [f.kind_move, ts.last_kind]⟩

@[simp] theorem ahead_relocate : (ts.relocate f).ahead = ts.ahead.map f := rfl

@[simp] theorem last_relocate : (ts.relocate f).last = f ts.last := rfl

@[simp] theorem current_relocate : (ts.relocate f).current = f ts.current := by
  obtain ⟨ahead, last, h⟩ := ts
  cases ahead <;> rfl

@[simp] theorem following_relocate : (ts.relocate f).following = f ts.following := by
  obtain ⟨ahead, last, h⟩ := ts
  match ahead with
  | [] | [_] | _ :: _ :: _ => rfl

@[simp] theorem atEnd_relocate : (ts.relocate f).atEnd = ts.atEnd := by simp [atEnd]

theorem advance_relocate : (ts.relocate f).advance = ts.advance.relocate f := by
  rw [advance, advance, atEnd_relocate]
  split
  · rfl
  · simp [relocate, List.map_tail]

theorem relocate_eq_self {f : Relocation} {ts : Tokens} (h : ∀ t ∈ ts.toList, f t = t) :
    ts.relocate f = ts := by
  obtain ⟨ahead, last, hl⟩ := ts
  have ahead_eq : ahead.map f = ahead :=
    (List.map_congr_left fun t ht => h t (List.mem_append_left _ ht)).trans (List.map_id ahead)
  have last_eq : f last = last := h last (by simp [toList])
  simp only [relocate, ahead_eq, last_eq]

end Tokens

/-! ### Trees -/

/-- A binding whose name is relocated and whose value is changed. -/
def Binding.relocate {α β : Type} (f : Relocation) (g : α → β) (b : Binding α) : Binding β :=
  ⟨f b.name, g b.value⟩

/-- A clause whose parts are changed. -/
def Clause.map {α β : Type} (g : α → β) (c : Clause α) : Clause β :=
  ⟨g c.condition, c.body.map g⟩

namespace Expr

variable (f : Relocation)

mutual

/-- The expression with its tokens relocated. -/
def relocate (f : Relocation) : Expr → Expr
  | literal value => literal value
  | identifier name => identifier (f name)
  | unary operator right => unary (f operator) (right.relocate f)
  | binary operator first second =>
    binary (f operator) (first.relocate f) (second.relocate f)
  | logical operator first second =>
    logical (f operator) (first.relocate f) (second.relocate f)
  | print operator body => print (f operator) (relocateAll f body)
  | letIn bindings body => letIn (relocateBindings f bindings) (relocateAll f body)
  | ifThen condition thenBody elseBody =>
    ifThen (condition.relocate f) (relocateAll f thenBody) (relocateElse f elseBody)
  | cond clauses elseBody => cond (relocateClauses f clauses) (relocateElse f elseBody)

/-- The expressions with their tokens relocated. -/
def relocateAll (f : Relocation) : List Expr → List Expr
  | [] => []
  | e :: es => e.relocate f :: relocateAll f es

/-- The else body, if there is one, with its tokens relocated. -/
def relocateElse (f : Relocation) : Option (List Expr) → Option (List Expr)
  | none => none
  | some body => some (relocateAll f body)

/-- The bindings with their tokens relocated. -/
def relocateBindings (f : Relocation) : List (Binding Expr) → List (Binding Expr)
  | [] => []
  | ⟨name, value⟩ :: bs => ⟨f name, value.relocate f⟩ :: relocateBindings f bs

/-- The clauses with their tokens relocated. -/
def relocateClauses (f : Relocation) : List (Clause Expr) → List (Clause Expr)
  | [] => []
  | ⟨condition, body⟩ :: cs => ⟨condition.relocate f, relocateAll f body⟩ :: relocateClauses f cs

end

@[simp] theorem relocateAll_eq_map (es : List Expr) :
    relocateAll f es = es.map (relocate f) := by
  induction es with
  | nil => rfl
  | cons e es ih => rw [relocateAll, ih, List.map_cons]

@[simp] theorem relocateElse_eq_map (elseBody : Option (List Expr)) :
    relocateElse f elseBody = elseBody.map (List.map (relocate f)) := by
  cases elseBody with
  | none => rfl
  | some body => rw [relocateElse, relocateAll_eq_map, Option.map_some]

@[simp] theorem relocateBindings_eq_map (bs : List (Binding Expr)) :
    relocateBindings f bs = bs.map (Binding.relocate f (relocate f)) := by
  induction bs with
  | nil => rfl
  | cons b bs ih => rw [relocateBindings, ih]; rfl

@[simp] theorem relocateClauses_eq_map (cs : List (Clause Expr)) :
    relocateClauses f cs = cs.map (Clause.map (relocate f)) := by
  induction cs with
  | nil => rfl
  | cons c cs ih => rw [relocateClauses, ih, relocateAll_eq_map]; rfl

end Expr

end Lisplet
