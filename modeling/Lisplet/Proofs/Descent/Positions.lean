import Lisplet.Proofs.Descent.Basic
import Lisplet.Proofs.Grammar.Reading

/-!
# Positions and streams

A stream is what is left of a list of tokens at a position (`Tokens.LeftAt`).  There is one at every
position of a list whose last token ends the text, and a descent sees there what a parser sees that
has the stream before it.  It takes a token by going one position on, but not where the text ends,
so that it stays within the text (`Within`).
-/

namespace Lisplet

open Grammar

/-! ### The end of the text -/

/-- The position of the first token from a position on that ends the text. -/
def endFrom (tokens : TokenList) (position : Nat) : Nat :=
  position + (tokens.drop position).findIdx (·.kind == .eof)

/-- From the one position on, no token before the other one ends the text. -/
structure Within (tokens : TokenList) (i j : Nat) : Prop where
  le : i ≤ j
  endFrom_eq : endFrom tokens j = endFrom tokens i

theorem le_endFrom (tokens : TokenList) (i : Nat) : i ≤ endFrom tokens i := Nat.le_add_right _ _

namespace Within

variable {tokens : TokenList} {i j k : Nat}

theorem refl (tokens : TokenList) (i : Nat) : Within tokens i i := ⟨Nat.le_refl i, rfl⟩

theorem trans (h : Within tokens i j) (h' : Within tokens j k) : Within tokens i k :=
  ⟨Nat.le_trans h.le h'.le, h'.endFrom_eq.trans h.endFrom_eq⟩

theorem le_endFrom (h : Within tokens i j) : j ≤ endFrom tokens i :=
  h.endFrom_eq ▸ Lisplet.le_endFrom tokens j

theorem succ {t : Token} (h : tokens[i]? = some t) (hk : t.kind ≠ .eof) :
    Within tokens i (i + 1) := by
  obtain ⟨hi, rfl⟩ := List.getElem?_eq_some_iff.1 h
  refine ⟨Nat.le_succ i, ?_⟩
  rw [endFrom, endFrom, List.drop_eq_getElem_cons hi, List.findIdx_cons]
  simp only [beq_eq_false_iff_ne.2 hk, cond_false]
  omega

end Within

/-! ### Streams -/

/-- The stream is what is left of the tokens at the position. -/
structure Tokens.LeftAt (ts : Tokens) (tokens : TokenList) (i : Nat) : Prop where
  drop_eq : tokens.drop i = ts.toList

namespace Tokens.LeftAt

variable {ts : Tokens} {tokens : TokenList} {i : Nat}

theorem length_eq (h : ts.LeftAt tokens i) : tokens.length = i + ts.ahead.length + 1 := by
  have := congrArg List.length h.drop_eq
  simp only [List.length_drop, toList, List.length_append, List.length_singleton] at this
  omega

theorem getElem?_eq (h : ts.LeftAt tokens i) (k : Nat) : tokens[i + k]? = ts.toList[k]? := by
  rw [← h.drop_eq, List.getElem?_drop]

theorem current (h : ts.LeftAt tokens i) : tokens[i]? = some ts.current := by
  have := h.getElem?_eq 0
  obtain ⟨ahead, last, hl⟩ := ts
  cases ahead <;> exact this

theorem following (h : ts.LeftAt tokens i) :
    tokens[min (i + 1) (tokens.length - 1)]? = some ts.following := by
  have := h.length_eq
  obtain ⟨ahead, last, hl⟩ := ts
  match ahead with
  | [] =>
    rw [show min (i + 1) (tokens.length - 1) = i by simp at this; omega]
    exact h.current
  | [t] =>
    rw [show min (i + 1) (tokens.length - 1) = i + 1 by simp at this; omega]
    exact h.getElem?_eq 1
  | t :: t' :: ahead =>
    rw [show min (i + 1) (tokens.length - 1) = i + 1 by simp at this; omega]
    exact h.getElem?_eq 1

theorem advance (h : ts.LeftAt tokens i) (begins : ts.atEnd = false) :
    ts.advance.LeftAt tokens (i + 1) := by
  have := h.drop_eq
  refine ⟨?_⟩
  rw [← List.tail_drop, this, Tokens.advance, begins]
  obtain ⟨ahead, last, hl⟩ := ts
  cases ahead with
  | nil => simp [atEnd, Tokens.current, hl] at begins
  | cons t ahead => rfl

theorem within_succ (h : ts.LeftAt tokens i) (begins : ts.atEnd = false) :
    Within tokens i (i + 1) := Within.succ h.current (by simpa [atEnd] using begins)

/-- In what is left there is a token that ends the text. -/
theorem endFrom_lt_length (h : ts.LeftAt tokens i) : endFrom tokens i < tokens.length := by
  have : ts.toList.findIdx (·.kind == .eof) < ts.toList.length :=
    List.findIdx_lt_length_of_exists ⟨ts.last, by simp [toList], by simp [ts.last_kind]⟩
  rw [← h.drop_eq, List.length_drop] at this
  rw [endFrom]
  omega

end Tokens.LeftAt

/-- At a position before the end of a list whose last token ends the text there is a stream. -/
theorem exists_leftAt {tokens : TokenList} {i : Nat} (hi : i < tokens.length)
    (ends : ∀ t ∈ tokens.getLast?, t.kind = .eof) : ∃ ts : Tokens, ts.LeftAt tokens i := by
  have ne : tokens.drop i ≠ [] := by simpa using hi
  have last : (tokens.drop i).getLast ne = tokens.getLast (by rintro rfl; simp at hi) :=
    List.getLast_drop ne
  refine ⟨⟨(tokens.drop i).dropLast, (tokens.drop i).getLast ne, ?_⟩,
    ⟨(List.dropLast_concat_getLast ne).symm⟩⟩
  rw [last]
  exact ends _ (List.getLast?_eq_some_getLast _)

namespace Descent

variable {α β : Type} {tokens : TokenList} {d : Descent α} {ts : Tokens}

/-! ### Looking -/

theorem run_get {i : Nat} : (get : Descent Nat).run i = some (.ok i, i) := rfl

theorem run_tokenAt {i k : Nat} {t : Token} (h : tokens[k]? = some t) :
    (tokens.tokenAt k).run i = some (.ok t, i) := by
  rw [TokenList.tokenAt, h]
  rfl

/-- Wherever the stream is what is left, the descent has the result and stays where it is. -/
def Looks (tokens : TokenList) (d : Descent α) (ts : Tokens) (a : α) : Prop :=
  ∀ i, ts.LeftAt tokens i → d.run i = some (.ok a, i)

namespace Looks

variable {f : α → Descent β} {a : α} {b : β}

theorem pure (a : α) : Looks tokens (pure a) ts a := fun _ _ => rfl

theorem bind (hd : Looks tokens d ts a) (hf : Looks tokens (f a) ts b) :
    Looks tokens (d >>= f) ts b := fun i hi => (run_bind_ok (hd i hi)).trans (hf i hi)

theorem of_eq (h : Looks tokens d ts a) {a' : α} (eq : a = a') : Looks tokens d ts a' := eq ▸ h

theorem current : Looks tokens tokens.current ts ts.current := by
  intro i hi
  rw [TokenList.current, run_bind_ok run_get]
  exact run_tokenAt hi.current

theorem following : Looks tokens tokens.following ts ts.following := by
  intro i hi
  rw [TokenList.following, run_bind_ok run_get]
  exact run_tokenAt hi.following

theorem atEnd : Looks tokens tokens.atEnd ts ts.atEnd := current.bind (pure _)

theorem sees (kinds : Kind → Bool) :
    Looks tokens (tokens.sees kinds) ts (kinds ts.current.kind) := current.bind (pure _)

theorem seesNext (kinds : Kind → Bool) :
    Looks tokens (tokens.seesNext kinds) ts (kinds ts.following.kind) := following.bind (pure _)

theorem seesOpening (kinds : List Kind) : Looks tokens (tokens.seesOpening kinds) ts
    (ts.current.kind == .lparen && kinds.contains ts.following.kind) := by
  refine (sees _).bind ?_
  cases ts.current.kind == .lparen
  · exact pure _
  · exact seesNext _

theorem seesOpening_singleton (kind : Kind) :
    Looks tokens (tokens.seesOpening [kind]) ts (Parser.opens kind ts) := by
  have same : Parser.opens kind ts =
      (ts.current.kind == .lparen && [kind].contains ts.following.kind) := by
    simp [Parser.opens, beq_eq_decide]
  rw [same]
  exact seesOpening _

theorem signs : Looks tokens tokens.signs ts (Parser.signs ts) := by
  refine (sees _).bind ?_
  rw [Parser.signs]
  cases ts.current.kind.isSign
  · exact pure _
  · exact (seesNext _).bind (pure _)

theorem opens (form : Form) :
    Looks tokens (tokens.opens form) ts (Parser.form? ts == some form) := by
  have same : (Parser.form? ts == some form) =
      (ts.current.kind == .lparen && (headsOf form).contains ts.following.kind) := by
    rw [Bool.eq_iff_iff, Bool.and_eq_true, List.contains_iff_mem, ← ofHead?_eq_some_iff, beq_iff_eq,
      beq_iff_eq, Parser.form?]
    split <;> simp_all
  rw [same]
  exact seesOpening _

theorem accept {kinds : Kind → Bool} (h : kinds ts.current.kind = false) :
    Looks tokens (tokens.accept kinds) ts false := by
  refine (sees kinds).bind ?_
  rw [h]
  exact pure _

end Looks

/-! ### Steps -/

theorem run_modify {i : Nat} (f : Nat → Nat) :
    (modify f : Descent Unit).run i = some (.ok (), f i) := rfl

theorem run_previous {i : Nat} {t : Token} (h : tokens[i]? = some t) :
    tokens.previous.run (i + 1) = some (.ok t, i + 1) := by
  rw [TokenList.previous, run_bind_ok run_get]
  exact run_tokenAt h

theorem run_next {i : Nat} (hi : ts.LeftAt tokens i) (begins : ts.atEnd = false) :
    tokens.next.run i = some (.ok ts.current, i + 1) := by
  rw [TokenList.next, run_bind_ok (Looks.atEnd i hi), begins, if_neg (by decide),
    run_bind_ok (run_modify (· + 1))]
  exact run_previous hi.current

theorem run_accept {i : Nat} {kinds : Kind → Bool} (hi : ts.LeftAt tokens i)
    (begins : ts.atEnd = false) (h : kinds ts.current.kind = true) :
    (tokens.accept kinds).run i = some (.ok true, i + 1) := by
  rw [TokenList.accept, run_bind_ok (Looks.sees kinds i hi), h, if_pos rfl,
    run_bind_ok (run_next hi begins)]
  rfl

end Descent

end Lisplet
