import Lisplet.Parse.Monad
import Lisplet.Proofs.Grammar.Derivation

/-!
# What a parser reads

`Parser.Reads n p R` says all there is to know of a parser `p`, but for the violations it names: it
takes tokens `w` and leaves a stream `rest` with a result `a` just where `R w rest a` holds, unless
expressions are nested too deeply; and on streams of fewer than `n` tokens they never are.

The statements that follow compose such descriptions along the sequences, choices and repetitions
that parsers are made of, so that the description of a parser is found by reading its definition.
-/

namespace Lisplet

namespace Tokens

/-- The stream with some tokens in front of it. -/
def prepend (w : List Token) (ts : Tokens) : Tokens := { ts with ahead := w ++ ts.ahead }

variable {ts : Tokens} {t t' : Token} {v w : List Token}

@[simp] theorem prepend_nil : ts.prepend [] = ts := rfl

@[simp] theorem prepend_prepend : (ts.prepend v).prepend w = ts.prepend (w ++ v) := by
  simp [prepend]

@[simp] theorem ahead_prepend : (ts.prepend w).ahead = w ++ ts.ahead := rfl

@[simp] theorem last_prepend : (ts.prepend w).last = ts.last := rfl

@[simp] theorem current_prepend_cons : (ts.prepend (t :: w)).current = t := rfl

@[simp] theorem following_prepend_cons : (ts.prepend (t :: w)).following = (ts.prepend w).current :=
  rfl

theorem atEnd_eq_false (h : t.kind ≠ .eof) : (ts.prepend (t :: w)).atEnd = false := by
  simpa [atEnd] using h

theorem advance_prepend_cons (h : t.kind ≠ .eof) :
    (ts.prepend (t :: w)).advance = ts.prepend w := by
  rw [advance, if_neg (by simp [atEnd_eq_false h])]
  rfl

theorem advance_of_atEnd (h : ts.atEnd = true) : ts.advance = ts := by rw [advance, if_pos h]

/-- Where the text has not ended, the current token is in front of what is left. -/
theorem eq_prepend_current (h : ts.current.kind ≠ .eof) :
    ts = ts.advance.prepend [ts.current] := by
  obtain ⟨ahead, last, hlast⟩ := ts
  cases ahead with
  | nil => exact absurd hlast h
  | cons t ahead => rw [advance, if_neg (by simpa [atEnd] using h)]; rfl

/-- Where neither of the next two tokens ends the text, they are in front of what is left. -/
theorem exists_eq_prepend (h₁ : ts.current.kind ≠ .eof) (h₂ : ts.following.kind ≠ .eof) :
    ∃ rest : Tokens, ts = rest.prepend [ts.current, ts.following] := by
  obtain ⟨ahead, last, hlast⟩ := ts
  match ahead with
  | [] => exact absurd hlast h₁
  | [t] => exact absurd hlast h₂
  | t :: t' :: ahead => exact ⟨⟨ahead, last, hlast⟩, rfl⟩

/-- Where nothing is left, the text has ended. -/
theorem atEnd_of_ahead_eq_nil (h : ts.ahead = []) : ts.atEnd = true := by
  simp [atEnd, current, h, ts.last_kind]

end Tokens

namespace Parser

open Grammar

variable {α β : Type} {n : Nat} {p q : Parser α} {R S : List Token → Tokens → α → Prop}

/-- The parser `p` takes the tokens `w` off a stream, leaves `rest` and gives `a` just where
`R w rest a` holds, unless expressions are nested too deeply.  On streams of fewer than `n` tokens
they are not. -/
structure Reads (n : Nat) (p : Parser α) (R : List Token → Tokens → α → Prop) : Prop where
  sound : ∀ {ts rest a}, p ts = .ok (a, rest) → ∃ w, ts = rest.prepend w ∧ R w rest a
  complete : ∀ {w} (rest) {a}, R w rest a →
    p (rest.prepend w) = .ok (a, rest) ∨ p (rest.prepend w) = .error .tooDeep
  calm : ∀ {ts}, ts.ahead.length < n → p ts ≠ .error .tooDeep

namespace Reads

/-! ### Single steps -/

theorem congr (h : Reads n p R) (iff : ∀ w rest a, R w rest a ↔ S w rest a) : Reads n p S where
  sound hp := by simpa only [iff] using h.sound hp
  complete rest _ hS := h.complete rest ((iff _ _ _).2 hS)
  calm := h.calm

/-- What is left is no longer than what there was. -/
theorem length_le (h : Reads n p R) {ts rest : Tokens} {a : α} (hp : p ts = .ok (a, rest)) :
    rest.ahead.length ≤ ts.ahead.length := by
  obtain ⟨w, rfl, -⟩ := h.sound hp
  simp

theorem pure (a : α) : Reads n (pure a : Parser α) fun w _ b => w = [] ∧ b = a where
  sound := by
    rintro ts rest b h
    cases h
    exact ⟨[], rfl, rfl, rfl⟩
  complete := by
    rintro w rest b ⟨rfl, rfl⟩
    exact .inl rfl
  calm _ h := by cases h

theorem fail (problem : ParseProblem) (t : Token) :
    Reads n (Parser.fail problem t : Parser α) fun _ _ _ => False where
  sound h := by cases h
  complete _ _ h := h.elim
  calm _ h := by cases h

theorem current : Reads n Parser.current fun w rest t => w = [] ∧ t = rest.current where
  sound := by
    rintro ts rest t h
    cases h
    exact ⟨[], rfl, rfl, rfl⟩
  complete := by
    rintro w rest t ⟨rfl, rfl⟩
    exact .inl rfl
  calm _ h := by cases h

theorem following : Reads n Parser.following fun w rest t => w = [] ∧ t = rest.following where
  sound := by
    rintro ts rest t h
    cases h
    exact ⟨[], rfl, rfl, rfl⟩
  complete := by
    rintro w rest t ⟨rfl, rfl⟩
    exact .inl rfl
  calm _ h := by cases h

theorem next : Reads n Parser.next fun w rest t =>
    (w = [t] ∧ t.kind ≠ .eof) ∨ (w = [] ∧ t = rest.current ∧ rest.atEnd = true) where
  sound := by
    rintro ts rest t h
    cases h
    -- The token that ends the text is given, but never taken.
    by_cases hk : ts.current.kind = .eof
    · have atEnd : ts.atEnd = true := by simpa [Tokens.atEnd] using hk
      exact ⟨[], (Tokens.advance_of_atEnd atEnd).symm, .inr ⟨rfl, by
        rw [Tokens.advance_of_atEnd atEnd], by rwa [Tokens.advance_of_atEnd atEnd]⟩⟩
    · exact ⟨[ts.current], Tokens.eq_prepend_current hk, .inl ⟨rfl, hk⟩⟩
  complete := by
    rintro w rest t (⟨rfl, hk⟩ | ⟨rfl, rfl, atEnd⟩)
    · left
      simp [Parser.next, Tokens.advance_prepend_cons hk]
    · left
      simp [Parser.next, Tokens.advance_of_atEnd atEnd]
  calm _ h := by cases h

theorem expect {kind : Kind} {problem : ParseProblem} (hk : kind ≠ .eof) :
    Reads n (Parser.expect kind problem) fun w _ t => w = [t] ∧ t.kind = kind where
  sound {ts rest t} h := by
    change (if ts.current.kind = kind then Parser.next else Parser.fail problem ts.current) ts = _
      at h
    split at h
    · rename_i hc
      cases h
      exact ⟨[ts.current], Tokens.eq_prepend_current (by rwa [hc]), rfl, hc⟩
    · cases h
  complete := by
    rintro w rest t ⟨rfl, rfl⟩
    left
    change (if t.kind = t.kind then Parser.next else Parser.fail problem t) (rest.prepend [t]) = _
    rw [if_pos rfl]
    simp [Parser.next, Tokens.advance_prepend_cons hk]
  calm {ts} _ h := by
    change (if ts.current.kind = kind then Parser.next else Parser.fail problem ts.current) ts = _
      at h
    split at h <;> cases h

/-! ### Sequences and choices -/

/-- One parser after the other takes the tokens of both. -/
theorem bind {f : α → Parser β} {S : α → List Token → Tokens → β → Prop} (hp : Reads n p R)
    (hf : ∀ a, Reads n (f a) (S a)) :
    Reads n (p >>= f) fun w rest b =>
      ∃ u v a, w = u ++ v ∧ R u (rest.prepend v) a ∧ S a v rest b where
  sound {ts rest b} h := by
    obtain ⟨a, between, h₁, h₂⟩ := bind_eq_ok_iff.1 h
    obtain ⟨u, rfl, hu⟩ := hp.sound h₁
    obtain ⟨v, rfl, hv⟩ := (hf a).sound h₂
    exact ⟨u ++ v, Tokens.prepend_prepend, u, v, a, rfl, hu, hv⟩
  complete := by
    rintro w rest b ⟨u, v, a, rfl, hu, hv⟩
    rw [← Tokens.prepend_prepend]
    rcases hp.complete _ hu with h | h
    · rw [bind_ok h]
      exact (hf a).complete rest hv
    · exact .inr (bind_error h)
  calm {ts} hn h := by
    rcases bind_eq_error_iff.1 h with h | ⟨a, between, h₁, h₂⟩
    · exact hp.calm hn h
    · exact (hf a).calm (Nat.lt_of_le_of_lt (hp.length_le h₁) hn) h₂

theorem ite {c : Prop} [Decidable c] (hp : c → Reads n p R) (hq : ¬ c → Reads n q S) :
    Reads n (if c then p else q) fun w rest a => (c ∧ R w rest a) ∨ (¬ c ∧ S w rest a) := by
  split
  · rename_i h
    exact (hp h).congr fun w rest a => by simp [h]
  · rename_i h
    exact (hq h).congr fun w rest a => by simp [h]

/-! ### Repetitions -/

section Repetition

variable {more : Tokens → Bool} {Item : List Token → α → Prop}

theorem manyUpTo_sound (hp : Reads n p fun w _ a => Item w a) (ne : ∀ {w a}, Item w a → w ≠ [])
    (ends : ∀ {ts}, ts.ahead = [] → more ts = false) (fuel : Nat) {ts rest : Tokens}
    {as : List α} (hlen : ts.ahead.length ≤ fuel) (h : manyUpTo more p fuel ts = .ok (as, rest)) :
    ∃ parts : List (List Token × α), ts = rest.prepend (words parts) ∧
      (∀ x ∈ parts, Item x.1 x.2) ∧ as = trees parts ∧ more rest = false := by
  -- Each item takes a token at least, so the fuel lasts as long as there are tokens.
  induction fuel generalizing ts as with
  | zero =>
    cases h
    exact ⟨[], rfl, by simp, rfl, ends (List.length_eq_zero_iff.1 (by omega))⟩
  | succ fuel ih =>
    rw [manyUpTo_succ] at h
    split at h
    · obtain ⟨a, between, h₁, h⟩ := bind_eq_ok_iff.1 h
      obtain ⟨others, rest', h₂, h⟩ := bind_eq_ok_iff.1 h
      cases h
      obtain ⟨w, rfl, hw⟩ := hp.sound h₁
      have := List.length_pos_iff.2 (ne hw)
      simp only [Tokens.ahead_prepend, List.length_append] at hlen
      obtain ⟨parts, rfl, each, rfl, hr⟩ := ih (by omega) h₂
      exact ⟨(w, a) :: parts, Tokens.prepend_prepend,
        List.forall_mem_cons.2 ⟨hw, each⟩, rfl, hr⟩
    · rename_i hm
      cases h
      exact ⟨[], rfl, by simp, rfl, by simpa using hm⟩

theorem manyUpTo_complete (hp : Reads n p fun w _ a => Item w a)
    (starts : ∀ {w a} (rest : Tokens), Item w a → w ≠ [] ∧ more (rest.prepend w) = true)
    {parts : List (List Token × α)} (each : ∀ x ∈ parts, Item x.1 x.2) {rest : Tokens}
    (stops : more rest = false) {fuel : Nat}
    (hlen : (rest.prepend (words parts)).ahead.length ≤ fuel) :
    manyUpTo more p fuel (rest.prepend (words parts)) = .ok (trees parts, rest) ∨
      manyUpTo more p fuel (rest.prepend (words parts)) = .error .tooDeep := by
  induction parts generalizing fuel with
  | nil =>
    left
    cases fuel with
    | zero => rfl
    | succ fuel => simp [manyUpTo_succ, stops]
  | cons x parts ih =>
    obtain ⟨hx, each⟩ := List.forall_mem_cons.1 each
    obtain ⟨ne, hm⟩ := starts (rest.prepend (words parts)) hx
    have := List.length_pos_iff.2 ne
    rw [words_cons, ← Tokens.prepend_prepend] at *
    simp only [Tokens.ahead_prepend, List.length_append] at hlen ih
    cases fuel with
    | zero => omega
    | succ fuel =>
      rw [manyUpTo_succ, if_pos hm]
      rcases hp.complete _ hx with h | h
      · rw [bind_ok h]
        rcases @ih each fuel (by omega) with h | h
        · exact .inl (bind_ok h)
        · exact .inr (bind_error h)
      · exact .inr (bind_error h)

theorem manyUpTo_calm (hp : Reads n p R) (fuel : Nat) {ts : Tokens} (hn : ts.ahead.length < n) :
    manyUpTo more p fuel ts ≠ .error .tooDeep := by
  induction fuel generalizing ts with
  | zero => intro h; cases h
  | succ fuel ih =>
    intro h
    rw [manyUpTo_succ] at h
    split at h
    · rcases bind_eq_error_iff.1 h with h | ⟨a, between, h₁, h⟩
      · exact hp.calm hn h
      · rcases bind_eq_error_iff.1 h with h | ⟨as, rest, -, h⟩
        · exact ih (Nat.lt_of_le_of_lt (hp.length_le h₁) hn) h
        · cases h
    · cases h

/-- Items one after the other are as many parts.  Each item takes some tokens, and where one stands
there are more to come; where the text has ended there are not. -/
theorem many (hp : Reads n p fun w _ a => Item w a)
    (starts : ∀ {w a} (rest : Tokens), Item w a → w ≠ [] ∧ more (rest.prepend w) = true)
    (ends : ∀ {ts}, ts.ahead = [] → more ts = false) :
    Reads n (many more p) fun w rest as => ∃ parts : List (List Token × α),
      (∀ x ∈ parts, Item x.1 x.2) ∧ w = words parts ∧ as = trees parts ∧ more rest = false where
  sound {ts rest as} h := by
    obtain ⟨parts, rfl, each, rfl, hr⟩ :=
      manyUpTo_sound hp (fun h => (starts ts h).1) ends _ (Nat.le_refl _) h
    exact ⟨words parts, rfl, parts, each, rfl, rfl, hr⟩
  complete := by
    rintro w rest as ⟨parts, each, rfl, rfl, hr⟩
    exact manyUpTo_complete hp starts each hr (Nat.le_refl _)
  calm hn := manyUpTo_calm hp _ hn

end Repetition

end Reads

end Parser

end Lisplet
