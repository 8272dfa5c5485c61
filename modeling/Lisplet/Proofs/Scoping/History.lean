import Lisplet.Eval.Run
import Lisplet.Scope.Forest

/-!
# What a name means, by the history of its definitions

A forest of scopes grows from the global scope by changes in any order: scopes are created inside
those that are there, and names are defined in any of them, again or for the first time.  A
`History` lists the changes, and says by itself in which scope another one was created
(`History.Encloses`) and which value a name was last given in a scope (`History.Latest`).  The
history decides what a name means (`Forest.lookup_of_grown`): the value that it was last given in
the nearest scope that defines it, whether that was before the inner scopes were created or after.
-/

namespace Lisplet

/-- A change to a forest of scopes. -/
inductive Change where
  | define (scope : Nat) (name : String) (value : Value)
  | child (enclosing : Nat)

/-- The changes that were made to the global scope, the latest first. -/
abbrev History := List Change

namespace History

variable {h : History} {i j p : Nat} {name : String} {v : Value} {path : List Nat}

/-- How many scopes there are after the changes. -/
def scopes : History → Nat
  | [] => 1
  | .define .. :: h => scopes h
  | .child _ :: h => scopes h + 1

/-- The name was given a value in the scope. -/
def Defines (h : History) (i : Nat) (name : String) : Prop := ∃ v, .define i name v ∈ h

/-- The value is the one that the name was last given in the scope. -/
def Latest (h : History) (i : Nat) (name : String) (v : Value) : Prop :=
  ∃ after before : History, h = after ++ .define i name v :: before ∧ ¬ Defines after i name

/-- The scope was created inside another one, the first of the two. -/
def Encloses (h : History) (p i : Nat) : Prop :=
  ∃ after before : History, h = after ++ .child p :: before ∧ i = scopes before

/-- The scopes from the given one to the global one, each enclosed by the next. -/
inductive Path (h : History) : Nat → List Nat → Prop where
  | root : Path h 0 [0]
  | inside {i p : Nat} {ps : List Nat} (enclosed : Encloses h p i) (outside : Path h p ps) :
      Path h i (i :: ps)

/-- The scope stands on the path, and none before it on the path defines the name. -/
def Reaches (h : History) (path : List Nat) (name : String) (j : Nat) : Prop :=
  ∃ near far, path = near ++ j :: far ∧ ∀ k ∈ near, ¬ Defines h k name

/-! ### The latest change -/

theorem not_latest_nil : ¬ Latest [] i name v := by
  rintro ⟨after, before, nil, -⟩
  simp at nil

theorem Latest.defines (latest : Latest h i name v) : Defines h i name := by
  obtain ⟨after, before, rfl, -⟩ := latest
  exact ⟨v, by simp⟩

/-- The latest change gave the name its value, or it did not define the name and the value is the
one from before. -/
theorem latest_cons_iff {c : Change} : Latest (c :: h) i name v ↔
    c = .define i name v ∨ (∀ w, c ≠ .define i name w) ∧ Latest h i name v := by
  constructor
  · rintro ⟨after, before, eq, others⟩
    cases after with
    | nil => exact .inl (List.cons.inj eq).1
    | cons d after =>
      obtain ⟨rfl, rfl⟩ := List.cons.inj eq
      refine .inr ⟨?_, after, before, rfl, fun ⟨w, mem⟩ => others ⟨w, List.mem_cons_of_mem _ mem⟩⟩
      rintro w rfl
      exact others ⟨w, List.mem_cons_self⟩
  · rintro (rfl | ⟨other, after, before, rfl, others⟩)
    · exact ⟨[], h, rfl, by simp [Defines]⟩
    · refine ⟨c :: after, before, rfl, ?_⟩
      rintro ⟨w, mem⟩
      rcases List.mem_cons.1 mem with eq | mem
      · exact other w eq.symm
      · exact others ⟨w, mem⟩

theorem defines_iff_latest : Defines h i name ↔ ∃ v, Latest h i name v := by
  constructor
  · induction h with
    | nil => rintro ⟨v, mem⟩; cases mem
    | cons c h ih =>
      rintro ⟨v, mem⟩
      by_cases given : ∃ w, c = .define i name w
      · obtain ⟨w, rfl⟩ := given
        exact ⟨w, latest_cons_iff.2 (.inl rfl)⟩
      · have behind : .define i name v ∈ h := by
          refine (List.mem_cons.1 mem).resolve_left fun eq => given ⟨v, eq.symm⟩
        obtain ⟨w, latest⟩ := ih ⟨v, behind⟩
        exact ⟨w, latest_cons_iff.2 (.inr ⟨not_exists.1 given, latest⟩)⟩
  · rintro ⟨v, latest⟩
    exact latest.defines

theorem encloses_cons_iff {c : Change} : Encloses (c :: h) p i ↔
    (c = .child p ∧ i = scopes h) ∨ Encloses h p i := by
  constructor
  · rintro ⟨after, before, eq, number⟩
    cases after with
    | nil =>
      obtain ⟨rfl, rfl⟩ := List.cons.inj eq
      exact .inl ⟨rfl, number⟩
    | cons d after =>
      obtain ⟨rfl, rfl⟩ := List.cons.inj eq
      exact .inr ⟨after, before, rfl, number⟩
  · rintro (⟨rfl, rfl⟩ | ⟨after, before, rfl, rfl⟩)
    · exact ⟨[], h, rfl, rfl⟩
    · exact ⟨c :: after, before, rfl, rfl⟩

end History

/-! ### Forests that have grown -/

namespace Forest

open History

variable {f : Forest} {h : History} {i j p : Nat} {name : String} {v : Value} {path : List Nat}

/-- The forest has grown from the global scope by the changes, each of them made to a scope that was
there. -/
inductive Grown : History → Forest → Prop where
  | root : Grown [] root
  | define {h : History} {f : Forest} (before : Grown h f) {i : Nat} (there : i < f.size)
      (name : String) (value : Value) :
      Grown (.define i name value :: h) (f.define i name value)
  | child {h : History} {f : Forest} (before : Grown h f) (i : Fin f.size) :
      Grown (.child i :: h) (f.child i)

theorem Grown.size_eq (grown : Grown h f) : f.size = h.scopes := by
  induction grown with
  | root => rfl
  | define before there name value ih => rw [size_define, ih, scopes]
  | child before i ih => rw [size_child, scopes, ih]

/-- A scope binds a name to the value that it was last given there. -/
theorem Grown.lookup_frame_iff (grown : Grown h f) :
    (f.frame i).lookup name = some v ↔ Latest h i name v := by
  induction grown with
  | root => cases i <;> simp [frame, Forest.root, not_latest_nil]
  | @define h f before j there other value ih =>
    rw [latest_cons_iff]
    by_cases same : i = j
    · subst same
      rw [frame_define_self there, List.lookup_cons]
      by_cases eq : name = other
      · subst eq
        simp
      · have differ : (name == other) = false := by simpa using eq
        simp [differ, Ne.symm eq, ih]
    · rw [frame_define_of_ne same, ih]
      simp [Ne.symm same]
  | child before j ih => rw [frame_child, ih, latest_cons_iff]; simp

/-- A scope is enclosed by the one in which it was created. -/
theorem Grown.enclosing?_eq_some_iff (grown : Grown h f) :
    f.enclosing? i = some p ↔ Encloses h p i := by
  induction grown with
  | root => cases i <;> simp [enclosing?, Forest.root, Encloses]
  | define before there name value ih => rw [enclosing?_define, ih, encloses_cons_iff]; simp
  | @child h f before j ih =>
    rw [encloses_cons_iff, ← before.size_eq, ← ih]
    rcases Nat.lt_trichotomy i f.size with lt | rfl | gt
    · rw [enclosing?_child_of_lt lt]
      simp [Nat.ne_of_lt lt]
    · simp [enclosing?_child_size, enclosing?_of_size_le]
    · rw [enclosing?_of_size_le (by rwa [size_child]), enclosing?_of_size_le (Nat.le_of_lt gt)]
      simp [Nat.ne_of_gt gt]

/-- All scopes but the global one were created inside another one. -/
theorem Grown.encloses_or (grown : Grown h f) (there : i < f.size) :
    i = 0 ∨ ∃ p, Encloses h p i := by
  induction grown with
  | root => exact .inl (Nat.lt_one_iff.1 there)
  | define before _ name value ih =>
    rw [size_define] at there
    simpa [encloses_cons_iff] using ih there
  | child before j ih =>
    rw [size_child] at there
    simp only [encloses_cons_iff]
    rcases Nat.lt_succ_iff_lt_or_eq.1 there with lt | rfl
    · exact (ih lt).imp_right fun ⟨p, encloses⟩ => ⟨p, .inr encloses⟩
    · exact .inr ⟨j, .inl ⟨rfl, before.size_eq⟩⟩

/-- The path of a scope that is there is the one by which the history leads to the global scope. -/
theorem Grown.path_iff (grown : Grown h f) (there : i < f.size) :
    Path h i path ↔ path = f.path i := by
  constructor
  · intro leads
    clear there
    induction leads with
    | root => exact (path_of_none (enclosing?_zero f)).symm
    | inside enclosed _ ih =>
      rw [path_of_some (grown.enclosing?_eq_some_iff.2 enclosed), ih]
  · rintro rfl
    -- The scopes that enclose others were created before them.
    induction i using Nat.strongRecOn with
    | ind i ih =>
      rcases grown.encloses_or there with rfl | ⟨p, encloses⟩
      · rw [path_of_none (enclosing?_zero f)]
        exact .root
      · have enclosed := grown.enclosing?_eq_some_iff.2 encloses
        have lt := lt_of_enclosing? enclosed
        rw [path_of_some enclosed]
        exact .inside encloses (ih p lt (Nat.lt_trans lt there))

/-! ### Meanings -/

theorem frames_scope (f : Forest) (i : Nat) : (f.scope i).frames = (f.path i).map f.frame := by
  cases enclosed : f.enclosing? i with
  | none => simp [Scope.frames, scope, path_of_none enclosed]
  | some p => simp [Scope.frames, scope, path_of_some enclosed]

theorem get?_eq_findSome? (f : Forest) (i : Nat) (name : String) :
    f.get? i name = (f.path i).findSome? fun j => (f.frame j).lookup name := by
  rw [get?, Scope.get?, frames_scope, List.findSome?_map]
  rfl

@[simp] theorem path_define (name : String) (value : Value) :
    (f.define j name value).path i = f.path i := by
  induction i using Nat.strongRecOn with
  | ind i ih =>
    cases enclosed : f.enclosing? i with
    | none => rw [path_of_none enclosed, path_of_none (by rw [enclosing?_define, enclosed])]
    | some p =>
      rw [path_of_some enclosed, path_of_some (by rw [enclosing?_define, enclosed]),
        ih p (lt_of_enclosing? enclosed)]

theorem Grown.lookup_frame_eq_none_iff (grown : Grown h f) :
    (f.frame i).lookup name = none ↔ ¬ Defines h i name := by
  rw [defines_iff_latest, Option.eq_none_iff_forall_ne_some]
  simp only [ne_eq, grown.lookup_frame_iff, not_exists]

/-- A name means the value that it was last given in the nearest scope that defines it. -/
theorem Grown.get?_eq_some_iff (grown : Grown h f) :
    f.get? i name = some v ↔ ∃ j, Reaches h (f.path i) name j ∧ Latest h j name v := by
  rw [get?_eq_findSome?, List.findSome?_eq_some_iff]
  simp only [grown.lookup_frame_iff, grown.lookup_frame_eq_none_iff, Reaches]
  constructor
  · rintro ⟨near, j, far, path, latest, none⟩
    exact ⟨j, ⟨near, far, path, none⟩, latest⟩
  · rintro ⟨j, ⟨near, far, path, none⟩, latest⟩
    exact ⟨near, j, far, path, latest, none⟩

theorem Grown.get?_eq_none_iff (grown : Grown h f) :
    f.get? i name = none ↔ ∀ j ∈ f.path i, ¬ Defines h j name := by
  rw [get?_eq_findSome?, List.findSome?_eq_none_iff]
  simp only [grown.lookup_frame_eq_none_iff]

/-- Two searches that find different things do so where nothing was found before. -/
theorem exists_of_findSome?_ne {α β : Type} {g g' : α → Option β} {as : List α}
    (differ : as.findSome? g ≠ as.findSome? g') :
    ∃ near a far, as = near ++ a :: far ∧ (∀ b ∈ near, g b = none) ∧ g a ≠ g' a := by
  induction as with
  | nil => exact absurd rfl differ
  | cons a as ih =>
    by_cases same : g a = g' a
    · rw [List.findSome?_cons, List.findSome?_cons, ← same] at differ
      cases found : g a with
      | some b => simp [found] at differ
      | none =>
        rw [found] at differ
        obtain ⟨near, b, far, rfl, before, other⟩ := ih differ
        exact ⟨a :: near, b, far, rfl, List.forall_mem_cons.2 ⟨found, before⟩, other⟩
    · exact ⟨[], a, as, rfl, by simp, same⟩

/-- A definition changes the meaning of its own name alone, and only in scopes from which the
defined one is reached. -/
theorem Grown.reaches_of_get?_ne (grown : Grown h f) (there : j < f.size) {other : String}
    (differ : (f.define j other v).get? i name ≠ f.get? i name) :
    other = name ∧ Reaches h (f.path i) name j := by
  rw [get?_eq_findSome?, get?_eq_findSome?, path_define] at differ
  obtain ⟨near, k, far, path, before, differ⟩ := exists_of_findSome?_ne differ.symm
  simp only [grown.lookup_frame_eq_none_iff] at before
  by_cases same : k = j
  · subst same
    by_cases eq : name = other
    · exact ⟨eq.symm, near, far, path, before⟩
    · have differs : (name == other) = false := by simpa using eq
      simp [frame_define_self there, List.lookup_cons, differs] at differ
  · simp [frame_define_of_ne same] at differ

end Forest

namespace Run

variable {name : Token} {s : Scope}

theorem result_lookup (name : Token) (s : Scope) : (lookup name s).result =
    match s.get? name.lexeme with
    | some v => .ok v
    | none => .error (.fault ⟨name, .undefinedIdentifier⟩) := by
  unfold lookup
  split <;> simp [*]

theorem result_lookup_eq_ok_iff {v : Value} :
    (lookup name s).result = .ok v ↔ s.get? name.lexeme = some v := by
  rw [result_lookup]
  cases s.get? name.lexeme <;> simp

theorem result_lookup_eq_error_iff {halt : Halt} :
    (lookup name s).result = .error halt ↔
      halt = .fault ⟨name, .undefinedIdentifier⟩ ∧ s.get? name.lexeme = none := by
  rw [result_lookup]
  cases s.get? name.lexeme <;> simp [eq_comm]

end Run

open History in
/-- **The history of definitions decides what a name means.**  Take a forest that has grown from the
global scope by any changes, in any order, and one of its scopes.  Just one path leads from there to
the global scope.  Looking up a name gives the value that the name was last given in the nearest
scope on the path that defines it at all; if none does, the token of the name is to blame.  One more
definition changes what is found only if it is one of that name, in a scope on the path, and none
before that on the path defines the name. -/
theorem Forest.lookup_of_grown {h : History} {f : Forest} (grown : Grown h f) {i : Nat}
    (there : i < f.size) (name : Token) :
    ∃ path, Path h i path ∧ (∀ path', Path h i path' → path' = path) ∧
      (∀ v, (Run.lookup name (f.scope i)).result = .ok v ↔
        ∃ j, Reaches h path name.lexeme j ∧ Latest h j name.lexeme v) ∧
      (∀ halt, (Run.lookup name (f.scope i)).result = .error halt ↔
        halt = .fault ⟨name, .undefinedIdentifier⟩ ∧ ∀ j ∈ path, ¬ Defines h j name.lexeme) ∧
      ∀ j other v, j < f.size →
        (Run.lookup name ((f.define j other v).scope i)).result ≠
          (Run.lookup name (f.scope i)).result →
        other = name.lexeme ∧ Reaches h path name.lexeme j := by
  refine ⟨f.path i, (grown.path_iff there).2 rfl, fun _ leads => (grown.path_iff there).1 leads,
    fun v => ?_, fun halt => ?_, fun j other v defined differ => ?_⟩
  · exact Run.result_lookup_eq_ok_iff.trans grown.get?_eq_some_iff
  · rw [Run.result_lookup_eq_error_iff]
    exact and_congr_right fun _ => grown.get?_eq_none_iff
  · refine grown.reaches_of_get?_ne (v := v) defined fun same => differ ?_
    rw [get?, get?] at same
    rw [Run.result_lookup, Run.result_lookup, same]

open History in
/-- Two scopes are created inside each other, and then a name is defined in the outer one and, last
of all, in the global scope.  In the inner scope it means what the outer one says. -/
theorem Forest.lookup_of_late_definitions :
    let x : Token := ⟨.identifier, "x", .null, 1, 1⟩
    let nested := (root.child ⟨0, by decide⟩).child ⟨1, by decide⟩
    let f := (nested.define 1 "x" (.boolean true)).define 0 "x" .null
    (Run.lookup x (f.scope 2)).result = .ok (.boolean true) := by
  intro x nested f
  let h : History :=
    [.define 0 "x" .null, .define 1 "x" (.boolean true), .child 1, .child 0]
  have grown : Grown h f :=
    .define (.define (.child (.child .root ⟨0, by decide⟩) ⟨1, by decide⟩) (by decide) _ _)
      (by decide) _ _
  have there : 2 < f.size := by decide
  obtain ⟨path, -, unique, found, -⟩ := lookup_of_grown grown there x
  have leads : Path h 2 [2, 1, 0] :=
    .inside ⟨[.define 0 "x" .null, .define 1 "x" (.boolean true)], [.child 0], rfl, rfl⟩
      (.inside ⟨[.define 0 "x" .null, .define 1 "x" (.boolean true), .child 1], [], rfl, rfl⟩ .root)
  obtain rfl := unique _ leads
  refine (found _).2 ⟨1, ⟨[2], [0], rfl, ?_⟩, [.define 0 "x" .null], [.child 1, .child 0], rfl, ?_⟩
  · simp [Defines, h]
  · simp [Defines]

end Lisplet
