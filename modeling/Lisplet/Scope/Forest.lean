import Lisplet.Scope.Basic

/-!
# Forests of scopes

Scopes that share what encloses them.  Scopes are numbered in the order of their creation and refer
to the one that encloses them by its number; scope `0` is the global one.  A later definition in a
scope is seen by all scopes that it encloses, those created before it included.
-/

namespace Lisplet

/-- A scope of a forest: its own bindings, and the number of the scope that encloses it. -/
structure Forest.Node where
  enclosing : Option Nat
  frame : Frame

/-- Numbered scopes, each enclosed by an earlier one. -/
structure Forest where
  nodes : List Forest.Node
  enclosing_lt : ∀ (i : Nat) (n : Forest.Node) (p : Nat),
    nodes[i]? = some n → n.enclosing = some p → p < i

namespace Forest

/-- The global scope alone, with no bindings. -/
def root : Forest where
  nodes := [⟨none, []⟩]
  enclosing_lt i n p hi hp := by
    cases i with
    | zero => simp at hi; simp [← hi] at hp
    | succ i => simp at hi

/-- How many scopes there are. -/
def size (f : Forest) : Nat := f.nodes.length

/-- The bindings of a scope by itself. -/
def frame (f : Forest) (i : Nat) : Frame := (f.nodes[i]?.map Node.frame).getD []

/-- The number of the scope that encloses another. -/
def enclosing? (f : Forest) (i : Nat) : Option Nat := f.nodes[i]?.bind Node.enclosing

theorem lt_of_enclosing? {f : Forest} {i p : Nat} (h : f.enclosing? i = some p) : p < i := by
  obtain ⟨n, hn, hp⟩ := Option.bind_eq_some_iff.1 h
  exact f.enclosing_lt i n p hn hp

/-- Nothing encloses the global scope. -/
theorem enclosing?_zero (f : Forest) : f.enclosing? 0 = none := by
  cases enclosed : f.enclosing? 0 with
  | none => rfl
  | some p => exact absurd (lt_of_enclosing? enclosed) (Nat.not_lt_zero p)

/-- The numbers of the scopes from the given one to the global one. -/
def path (f : Forest) (i : Nat) : List Nat :=
  match _h : f.enclosing? i with
  | none => [i]
  | some p => i :: path f p
termination_by i
decreasing_by exact lt_of_enclosing? _h

/-- A scope with all that enclose it. -/
def scope (f : Forest) (i : Nat) : Scope := ⟨f.frame i, (f.path i).tail.map f.frame⟩

/-- Binds a name in one scope of the forest. -/
def define (f : Forest) (i : Nat) (name : String) (value : Value) : Forest where
  nodes := f.nodes.modify i fun n => { n with frame := (name, value) :: n.frame }
  enclosing_lt j n p hj hp := by
    rw [List.getElem?_modify] at hj
    cases hn : f.nodes[j]? with
    | none => simp [hn] at hj
    | some m =>
      refine f.enclosing_lt j m p hn ?_
      rw [hn] at hj
      simp only [Option.map_eq_map, Option.map_some, Option.some.injEq] at hj
      rw [← hj] at hp
      split at hp <;> simpa using hp

/-- A new scope enclosed by an existing one; its number is the size of the forest before. -/
def child (f : Forest) (i : Fin f.size) : Forest where
  nodes := f.nodes ++ [⟨some i, []⟩]
  enclosing_lt j n p hj hp := by
    rw [List.getElem?_append] at hj
    split at hj
    · exact f.enclosing_lt j n p hj hp
    · rename_i hlt
      have hi : i.val < f.nodes.length := i.isLt
      cases hd : j - f.nodes.length with
      | zero =>
        simp only [hd, List.getElem?_cons_zero, Option.some.injEq] at hj
        rw [← hj] at hp
        simp only [Option.some.injEq] at hp
        omega
      | succ k => simp [hd] at hj

/-- What a name means in a scope. -/
def get? (f : Forest) (i : Nat) (name : String) : Option Value := (f.scope i).get? name

section Changes

variable {f : Forest} {i j : Nat}

theorem path_of_none (h : f.enclosing? i = none) : f.path i = [i] := by
  rw [path]
  split
  · rfl
  · simp_all

theorem path_of_some {p : Nat} (h : f.enclosing? i = some p) : f.path i = i :: f.path p := by
  rw [path]
  split
  · simp_all
  · rename_i h'
    rw [h] at h'
    cases h'
    rfl

@[simp] theorem size_define (name : String) (value : Value) :
    (f.define i name value).size = f.size := List.length_modify ..

@[simp] theorem size_child (i : Fin f.size) : (f.child i).size = f.size + 1 := by
  simp [size, child]

@[simp] theorem enclosing?_define (name : String) (value : Value) :
    (f.define i name value).enclosing? j = f.enclosing? j := by
  simp only [enclosing?, define, List.getElem?_modify]
  cases f.nodes[j]? with
  | none => rfl
  | some n => by_cases h : i = j <;> simp [h]

theorem frame_define_self (h : i < f.size) (name : String) (value : Value) :
    (f.define i name value).frame i = (name, value) :: f.frame i := by
  simp [frame, define, List.getElem?_eq_getElem h]

theorem frame_define_of_ne (h : j ≠ i) (name : String) (value : Value) :
    (f.define i name value).frame j = f.frame j := by
  rw [frame, define, List.getElem?_modify_ne _ _ h.symm, frame]

@[simp] theorem frame_child (i : Fin f.size) : (f.child i).frame j = f.frame j := by
  simp only [frame, child, List.getElem?_append]
  split
  · rfl
  · -- The new scope binds nothing, and behind it there is none.
    rename_i h
    rw [List.getElem?_eq_none (Nat.le_of_not_lt h)]
    cases j - f.nodes.length <;> rfl

theorem enclosing?_of_size_le (h : f.size ≤ j) : f.enclosing? j = none := by
  rw [enclosing?, List.getElem?_eq_none h, Option.bind_none]

theorem enclosing?_child_of_lt (h : j < f.size) (i : Fin f.size) :
    (f.child i).enclosing? j = f.enclosing? j := by
  rw [enclosing?, child, List.getElem?_append_left h, enclosing?]

theorem enclosing?_child_size (i : Fin f.size) : (f.child i).enclosing? f.size = some i.val := by
  simp [enclosing?, child, size]

end Changes

end Forest

end Lisplet
