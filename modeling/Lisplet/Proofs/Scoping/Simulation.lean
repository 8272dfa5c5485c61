import Lisplet.Proofs.Scoping.History

/-!
# Nested scopes within a forest

An evaluation works in one `Scope`, which carries copies of all that enclose it.  In a `Forest` the
scopes that enclose others are shared.  `Forest.scope` shows one scope of a forest with all that
enclose it, and the operations on scopes are those on forests as they are seen from there: what an
evaluation does to its scope, step by step, shows the same in a forest in which the evaluation
enters scopes, leaves them again and defines names (`Forest.Cursor.scope_walk`).  Other scopes of
the forest show the change only if they are enclosed by the changed one
(`Forest.scope_define_of_not_mem`, `Forest.scope_child_of_lt`).
-/

namespace Lisplet

/-- What an evaluation does to the scope it works in. -/
inductive Scope.Step where
  | define (name : String) (value : Value)
  /-- Goes on in a new scope, enclosed by the present one. -/
  | enter
  /-- Goes back to the scope that encloses the present one, if there is one. -/
  | leave

/-- The scope to go on in after a step. -/
def Scope.step (s : Scope) : Step → Scope
  | .define name value => s.define name value
  | .enter => s.child
  | .leave => s.parent

namespace Forest

variable {f : Forest} {i j p : Nat}

/-! ### Paths -/

theorem self_mem_path (f : Forest) (i : Nat) : i ∈ f.path i := by
  rw [path]
  split <;> exact List.mem_cons_self

theorem tail_path_of_some (h : f.enclosing? i = some p) : (f.path i).tail = f.path p := by
  rw [path_of_some h, List.tail_cons]

theorem le_of_mem_path (h : j ∈ f.path i) : j ≤ i := by
  induction i using Nat.strongRecOn with
  | ind i ih =>
    cases enclosed : f.enclosing? i with
    | none =>
      rw [path_of_none enclosed, List.mem_singleton] at h
      exact Nat.le_of_eq h
    | some p =>
      have lt := lt_of_enclosing? enclosed
      rw [path_of_some enclosed, List.mem_cons] at h
      rcases h with rfl | h
      · exact Nat.le_refl j
      · exact Nat.le_of_lt (Nat.lt_of_le_of_lt (ih p lt h) lt)

/-- The scopes that enclose another one were created before it. -/
theorem lt_of_mem_tail_path (h : j ∈ (f.path i).tail) : j < i := by
  cases enclosed : f.enclosing? i with
  | none =>
    rw [path_of_none enclosed] at h
    cases h
  | some p =>
    rw [tail_path_of_some enclosed] at h
    exact Nat.lt_of_le_of_lt (le_of_mem_path h) (lt_of_enclosing? enclosed)

theorem path_child_of_lt (h : j < f.size) (i : Fin f.size) : (f.child i).path j = f.path j := by
  induction j using Nat.strongRecOn with
  | ind j ih =>
    have same := enclosing?_child_of_lt h i
    cases enclosed : f.enclosing? j with
    | none => rw [path_of_none enclosed, path_of_none (same.trans enclosed)]
    | some p =>
      have lt := lt_of_enclosing? enclosed
      rw [path_of_some enclosed, path_of_some (same.trans enclosed), ih p lt (Nat.lt_trans lt h)]

/-! ### Changes as they are seen from a scope -/

theorem scope_root : root.scope 0 = .empty := by
  rw [scope, path_of_none (enclosing?_zero root)]
  rfl

theorem scope_define_self (h : i < f.size) (name : String) (value : Value) :
    (f.define i name value).scope i = (f.scope i).define name value := by
  rw [scope, path_define, frame_define_self h, scope, Scope.define]
  congr 1
  refine List.map_congr_left fun j mem => ?_
  exact frame_define_of_ne (Nat.ne_of_lt (lt_of_mem_tail_path mem)) name value

/-- A definition is seen in no scope that is not enclosed by the one it is made in. -/
theorem scope_define_of_not_mem (h : i ∉ f.path j) (name : String) (value : Value) :
    (f.define i name value).scope j = f.scope j := by
  have others : ∀ k ∈ f.path j, (f.define i name value).frame k = f.frame k := by
    intro k mem
    refine frame_define_of_ne ?_ name value
    rintro rfl
    exact h mem
  rw [scope, path_define, scope, others j (self_mem_path f j)]
  congr 1
  exact List.map_congr_left fun k mem => others k (List.mem_of_mem_tail mem)

theorem scope_child_self (i : Fin f.size) : (f.child i).scope f.size = (f.scope i).child := by
  rw [scope, tail_path_of_some (enclosing?_child_size i), path_child_of_lt i.isLt, Scope.child,
    frames_scope, frame_child, frame, List.getElem?_eq_none (Nat.le_refl f.size)]
  congr 1
  exact List.map_congr_left fun k _ => frame_child i

/-- A new scope changes nothing for those that are there already. -/
theorem scope_child_of_lt (h : j < f.size) (i : Fin f.size) :
    (f.child i).scope j = f.scope j := by
  rw [scope, path_child_of_lt h, frame_child, scope]
  congr 1
  exact List.map_congr_left fun k _ => frame_child i

theorem parent_scope_of_some (h : f.enclosing? i = some p) : (f.scope i).parent = f.scope p := by
  have frames : (f.scope i).enclosing = (f.scope p).frames := by
    rw [frames_scope, scope, tail_path_of_some h]
  rw [Scope.parent, frames]
  rfl

theorem parent_scope_of_none (h : f.enclosing? i = none) : (f.scope i).parent = f.scope i := by
  have frames : (f.scope i).enclosing = [] := by rw [scope, path_of_none h]; rfl
  rw [Scope.parent, frames]

/-! ### Walks -/

/-- A forest, and the scope of it that is worked in. -/
structure Cursor where
  forest : Forest
  here : Fin forest.size

namespace Cursor

/-- The global scope of a forest that has no other. -/
def start : Cursor := ⟨root, ⟨0, Nat.one_pos⟩⟩

/-- The scope that is worked in, with all that enclose it. -/
def scope (c : Cursor) : Scope := c.forest.scope c.here

/-- Goes back to the scope that encloses the present one; the global scope is never left. -/
def leave (c : Cursor) : Cursor :=
  match h : c.forest.enclosing? c.here with
  | none => c
  | some p => ⟨c.forest, ⟨p, Nat.lt_trans (lt_of_enclosing? h) c.here.isLt⟩⟩

/-- A step made in the forest. -/
def step (c : Cursor) : Scope.Step → Cursor
  | .define name value =>
    ⟨c.forest.define c.here name value, c.here.cast (size_define name value).symm⟩
  | .enter => ⟨c.forest.child c.here, ⟨c.forest.size, by simp⟩⟩
  | .leave => c.leave

theorem scope_leave (c : Cursor) : c.leave.scope = c.scope.parent := by
  unfold leave
  split
  · rename_i enclosed
    exact (parent_scope_of_none enclosed).symm
  · rename_i enclosed
    exact (parent_scope_of_some enclosed).symm

/-- A step in the forest is seen as that step in the scope that is worked in. -/
theorem scope_step (c : Cursor) (step : Scope.Step) : (c.step step).scope = c.scope.step step := by
  cases step with
  | define name value => exact scope_define_self c.here.isLt name value
  | enter => exact scope_child_self c.here
  | leave => exact scope_leave c

/-- After any steps the scope that is worked in is the same, whether they are made in a forest or in
nested scopes. -/
theorem scope_walk (c : Cursor) (steps : List Scope.Step) :
    (steps.foldl step c).scope = steps.foldl Scope.step c.scope := by
  induction steps generalizing c with
  | nil => rfl
  | cons first steps ih => rw [List.foldl_cons, List.foldl_cons, ih, scope_step]

/-- Steps that begin in the global scope alone show what they make of an empty scope. -/
theorem scope_walk_start (steps : List Scope.Step) :
    (steps.foldl step start).scope = steps.foldl Scope.step .empty := by
  rw [scope_walk]
  exact congrArg (steps.foldl Scope.step) scope_root

end Cursor

end Forest

end Lisplet
