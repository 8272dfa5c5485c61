import Lisplet.Value

/-!
# Scopes

A scope binds names to values and is enclosed by others, up to the global one.  A name means what
the nearest scope that binds it says.  Defining a name touches the innermost scope only, so it
shadows what the enclosing ones say.
-/

namespace Lisplet

/-- The bindings of one scope by itself, the latest first. -/
abbrev Frame := List (String × Value)

namespace Frame

variable {f : Frame} {name : String}

/-- The names that a frame binds, in the order of their characters. -/
def names (f : Frame) : List String :=
  ((f.map Prod.fst).eraseDups).mergeSort fun a b => !decide (b < a)

/-- The names of a frame are those that it binds. -/
theorem mem_names_iff : name ∈ f.names ↔ (f.lookup name).isSome := by
  rw [names, List.mem_mergeSort, List.mem_eraseDups, List.mem_map, List.lookup_isSome_iff]
  exact exists_congr fun b => and_congr_right fun _ => eq_comm.trans beq_iff_eq.symm

theorem nodup_eraseDups (names : List String) : names.eraseDups.Nodup := by
  cases names with
  | nil => exact List.nodup_nil
  | cons name names =>
    rw [List.eraseDups_cons, List.nodup_cons]
    refine ⟨fun mem => ?_, nodup_eraseDups (names.filter fun other => !other == name)⟩
    simpa using (List.mem_filter.1 (List.mem_eraseDups.1 mem)).2
termination_by names.length
decreasing_by exact Nat.lt_succ_of_le (List.length_filter_le _ _)

/-- No name is listed twice, and each stands before the greater ones. -/
theorem pairwise_names (f : Frame) : f.names.Pairwise (· < ·) := by
  have notGreater (a b : String) : (!decide (b < a)) = true ↔ a ≤ b := by
    rw [Bool.not_eq_true', decide_eq_false_iff_not, String.not_lt]
  have sorted : f.names.Pairwise fun a b => !decide (b < a) := by
    refine List.pairwise_mergeSort (fun a b c => ?_) (fun a b => ?_) _
    · simpa only [notGreater] using String.le_trans
    · simpa only [Bool.or_eq_true, notGreater] using String.le_total a b
  have distinct : f.names.Nodup :=
    (List.mergeSort_perm _ _).nodup_iff.2 (nodup_eraseDups _)
  refine (sorted.and distinct).imp fun {a b} h => ?_
  have le : a ≤ b := (notGreater a b).1 h.1
  exact Classical.byContradiction fun notLt => h.2 (String.le_antisymm le (String.not_lt.1 notLt))

end Frame

/-- A frame and those that enclose it, the nearest first. -/
structure Scope where
  frame : Frame
  enclosing : List Frame
deriving DecidableEq

namespace Scope

/-- A scope with no bindings that nothing encloses. -/
def empty : Scope := ⟨[], []⟩

/-- All frames of a scope, from the innermost to the global one. -/
def frames (s : Scope) : List Frame := s.frame :: s.enclosing

/-- What a name means: the value in the nearest frame that binds it. -/
def get? (s : Scope) (name : String) : Option Value := s.frames.findSome? fun f => f.lookup name

/-- Binds a name in the innermost frame, in place of what it meant there. -/
def define (s : Scope) (name : String) (value : Value) : Scope :=
  { s with frame := (name, value) :: s.frame }

/-- A new scope enclosed by this one. -/
def child (s : Scope) : Scope := ⟨[], s.frames⟩

/-- The scope that encloses this one; the global scope encloses itself. -/
def parent (s : Scope) : Scope :=
  match s.enclosing with
  | [] => s
  | f :: fs => ⟨f, fs⟩

@[simp] theorem parent_child (s : Scope) : s.child.parent = s := rfl

@[simp] theorem parent_define_child (s : Scope) (name : String) (value : Value) :
    (s.child.define name value).parent = s := rfl

theorem get?_define_self (s : Scope) (name : String) (value : Value) :
    (s.define name value).get? name = some value := by
  simp [get?, frames, define]

theorem get?_define_of_ne (s : Scope) {name other : String} (value : Value) (h : other ≠ name) :
    (s.define name value).get? other = s.get? other := by
  have : (other == name) = false := by simpa using h
  simp [get?, frames, define, List.findSome?_cons, List.lookup_cons, this]

theorem get?_child (s : Scope) (name : String) : s.child.get? name = s.get? name := by
  simp [get?, frames, child, List.findSome?_cons]

end Scope

end Lisplet
