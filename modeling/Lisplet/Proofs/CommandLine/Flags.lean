import Lisplet.CommandLine.Run

/-!
# Command lines that name one file

A command line of flags and one path, the flags in any order before or behind the path, asks for
work on the file at that path (`plan_fileLine`), unless one of the flags asks for help or two of
them exclude each other.  What the reading of arguments has come to after some flags is
`Options.setAll`; it is known by the flags that it has.
-/

namespace Lisplet.CommandLine

/-! ### Arguments -/

namespace Argument

theorem ofText_long (f : Flag) : ofText f.long = .ok (flag f none) := by
  cases f <;> rfl

theorem ofText_path {path : String} (noFlag : path.toList.head? ≠ some '-') :
    ofText path = .ok (file path) := by
  unfold ofText
  split <;> simp_all

/-- Each long form is read as its flag, whatever follows. -/
theorem ofTexts_flags (fs : List Flag) (rest : List String) :
    ofTexts (fs.map Flag.long ++ rest) = (ofTexts rest).map (fs.map (flag · none) ++ ·) := by
  induction fs with
  | nil =>
    rw [List.map_nil, List.nil_append]
    cases ofTexts rest <;> rfl
  | cons f fs ih =>
    simp only [List.map_cons, List.cons_append, ofTexts, ofText_long, ih]
    cases ofTexts rest <;> rfl

theorem ofTexts_path {path : String} (noFlag : path.toList.head? ≠ some '-')
    (rest : List String) : ofTexts (path :: rest) = (ofTexts rest).map (file path :: ·) := by
  simp only [ofTexts, ofText_path noFlag]
  cases ofTexts rest <;> rfl

end Argument

/-! ### Flags that are recorded -/

namespace Options

variable {o : Options} {f g : Flag} {fs : List Flag}

/-- Records flags one after the other. -/
def setAll (o : Options) (fs : List Flag) : Options := fs.foldl (fun o f => o.interrupt.set f) o

@[simp] theorem setAll_nil (o : Options) : o.setAll [] = o := rfl

@[simp] theorem setAll_cons (o : Options) (f : Flag) (fs : List Flag) :
    o.setAll (f :: fs) = (o.interrupt.set f).setAll fs := rfl

theorem has_interrupt (o : Options) (g : Flag) : o.interrupt.has g = o.has g := by
  unfold interrupt
  split <;> cases g <;> rfl

theorem has_set (noHelp : f ≠ .help) (o : Options) (g : Flag) :
    (o.set f).has g = (decide (g = f) || o.has g) := by
  cases f with
  | help => exact absurd rfl noHelp
  | plain | tokens | tree => cases g <;> rfl

theorem has_setAll (noHelp : .help ∉ fs) (o : Options) (g : Flag) :
    (o.setAll fs).has g = (decide (g ∈ fs) || o.has g) := by
  induction fs generalizing o with
  | nil => simp
  | cons f fs ih =>
    simp only [List.mem_cons, not_or] at noHelp
    rw [setAll_cons, ih noHelp.2, has_set (Ne.symm noHelp.1), has_interrupt]
    simp only [List.mem_cons, Bool.decide_or]
    cases decide (g = f) <;> simp

/-- Flags change neither the files nor what is left over, and before the files there is no run of
them to be ended. -/
theorem setAll_keeps (o : Options) (fs : List Flag) :
    (o.setAll fs).files = o.files ∧ (o.setAll fs).leftOver = o.leftOver ∧
      (o.run = .before → (o.setAll fs).run = .before) := by
  have step : ∀ (o : Options) (f : Flag), (o.interrupt.set f).files = o.files ∧
      (o.interrupt.set f).leftOver = o.leftOver ∧
      (o.run = .before → (o.interrupt.set f).run = .before) := by
    intro o f
    unfold interrupt
    split <;> cases f <;> simp_all [set]
  induction fs generalizing o with
  | nil => exact ⟨rfl, rfl, id⟩
  | cons f fs ih =>
    obtain ⟨files, leftOver, run⟩ := step o f
    obtain ⟨files', leftOver', run'⟩ := ih (o.interrupt.set f)
    exact ⟨files'.trans files, leftOver'.trans leftOver, run' ∘ run⟩

/-- Flags that can be given: none asks for help, and none is excluded by another or by one that was
given before. -/
structure Allows (o : Options) (fs : List Flag) : Prop where
  noHelp : .help ∉ fs
  noRival : ∀ f ∈ fs, ∀ g, f.rival = some g → g ∉ fs ∧ o.has g = false

theorem Allows.left {gs : List Flag} (h : o.Allows (fs ++ gs)) : o.Allows fs where
  noHelp := fun mem => h.noHelp (List.mem_append_left gs mem)
  noRival := fun f mem g rival =>
    have ⟨notMem, notGiven⟩ := h.noRival f (List.mem_append_left gs mem) g rival
    ⟨fun mem' => notMem (List.mem_append_left gs mem'), notGiven⟩

/-- Of flags that can be given, the last ones still can be once the first ones are recorded. -/
theorem Allows.right {gs : List Flag} {o' : Options} (h : o.Allows (fs ++ gs))
    (has : ∀ g, o'.has g = (o.setAll fs).has g) : o'.Allows gs where
  noHelp := fun mem => h.noHelp (List.mem_append_right fs mem)
  noRival := fun f mem g rival => by
    obtain ⟨notMem, notGiven⟩ := h.noRival f (List.mem_append_right fs mem) g rival
    simp only [List.mem_append, not_or] at notMem
    refine ⟨notMem.2, ?_⟩
    rw [has, has_setAll h.left.noHelp, notGiven]
    simp [notMem.1]

end Options

theorem readArguments_flag {o : Options} {f : Flag} {fs : List Flag} (h : o.Allows (f :: fs))
    (rest : List Argument) :
    readArguments o (.flag f none :: rest) = readArguments (o.interrupt.set f) rest := by
  have rival := h.noRival f List.mem_cons_self
  cases f with
  | help => exact absurd List.mem_cons_self h.noHelp
  | plain => rfl
  | tokens | tree => simp [readArguments, Flag.rival, (rival _ rfl).2]

/-- Flags that can be given are recorded, whatever follows. -/
theorem readArguments_flags {o : Options} {fs : List Flag} (h : o.Allows fs)
    (rest : List Argument) :
    readArguments o (fs.map (Argument.flag · none) ++ rest) = readArguments (o.setAll fs) rest := by
  induction fs generalizing o with
  | nil => rfl
  | cons f fs ih =>
    have split : o.Allows ([f] ++ fs) := h
    have others : (o.interrupt.set f).Allows fs := split.right fun _ => rfl
    rw [List.map_cons, List.cons_append, readArguments_flag h, ih others, Options.setAll_cons]

/-! ### Flags and one file -/

/-- A command line of flags before and behind one path. -/
def fileLine (before : List Flag) (path : String) (after : List Flag) : List String :=
  before.map Flag.long ++ path :: after.map Flag.long

theorem ofTexts_fileLine {path : String} (noFlag : path.toList.head? ≠ some '-')
    (before after : List Flag) :
    Argument.ofTexts (fileLine before path after) =
      .ok (before.map (Argument.flag · none) ++ .file path ::
        (after.map (Argument.flag · none) ++ [])) := by
  have behind := Argument.ofTexts_flags after []
  rw [List.append_nil] at behind
  rw [fileLine, Argument.ofTexts_flags, Argument.ofTexts_path noFlag, behind]
  rfl

/-- Flags that can be given, and one path, ask for work on the file as the flags say. -/
theorem plan_fileLine {before after : List Flag} {path : String}
    (allows : Options.empty.Allows (before ++ after)) (noFlag : path.toList.head? ≠ some '-') :
    ∃ o, plan (fileLine before path after) = .file o path ∧
      ∀ f, o.has f = decide (f ∈ before ++ after) := by
  let o := Options.empty.setAll before
  let o' : Options := { o with files := [path], run := .during }
  obtain ⟨files, leftOver, run⟩ := Options.empty.setAll_keeps before
  obtain ⟨files', leftOver', -⟩ := o'.setAll_keeps after
  have taken : o.takeFile path (some path) = o' := by
    rw [Options.takeFile, if_neg (by rw [run rfl]; simp), files]
    rfl
  have same (f : Flag) : o'.has f = o.has f := by cases f <;> rfl
  have allows' := allows.right same
  have request : read (fileLine before path after) = .ok (.run (o'.setAll after)) := by
    simp only [read, ofTexts_fileLine noFlag, bind, Except.bind]
    rw [readArguments_flags allows.left, readArguments, taken, readArguments_flags allows',
      readArguments, leftOver', show o'.leftOver = o.leftOver from rfl, leftOver]
    rfl
  refine ⟨o'.setAll after, ?_, fun f => ?_⟩
  · simp only [plan, request, files']
    rfl
  · have none : Options.empty.has f = false := by cases f <;> rfl
    rw [Options.has_setAll allows'.noHelp, same, Options.has_setAll allows.left.noHelp, none]
    simp [Bool.or_comm]

end Lisplet.CommandLine
