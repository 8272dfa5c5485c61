import Mathlib
import Lisplet.Proofs.Evaluation.Depth
import Lisplet.Proofs.Outlines.Lines
import Lisplet.Proofs.Outlines.Tokens
import Lisplet.Proofs.Outlines.Values
import Lisplet.Proofs.Sessions.Listing

/-!
# Listed trees lose nothing but places

The label of a node begins with its form and holds the lexeme of its operator or name, or its value;
its children are those of its parts in order.  So expressions with the same outline are the same
but for the places of their tokens (`Expr.relocate_eq_of_outline_eq`).  Since an outline can be read
back from its lines, two units are listed by the same text just if their expressions are the same
but for places (`listing_showTree_eq_iff`).
-/

namespace Lisplet

/-! ### Trees without places -/

/-- The relocation that takes all tokens to one place. -/
def Relocation.nowhere : Relocation where
  move t := { t with line := 0, column := 0 }
  kind_move _ := rfl
  lexeme_move _ := rfl
  literal_move _ := rfl

theorem Relocation.nowhere_eq {t t' : Token} (same : t.content = t'.content) :
    nowhere t = nowhere t' := by
  simp only [Token.content, Prod.mk.injEq] at same
  simp only [nowhere, same]

/-- The token is a lexeme, but no string. -/
def Token.IsPlain (t : Token) : Prop := t.IsLexeme ∧ t.kind ≠ .string

namespace Expr

/-! ### Labels -/

theorem isLabel_label {form argument : String} (oneLine : '\n' ∉ form.toList)
    (oneLine' : '\n' ∉ argument.toList) : Outline.IsLabel (label form argument) := by
  refine ⟨by simp [label, oneLine, oneLine'], ?_⟩
  rw [label, String.toList_append, show (")" : String).toList = [')'] by rfl, List.getLast?_concat]
  intro c last
  cases last
  decide

theorem isLabel_labelOf {form : String} {t : Token} (oneLine : '\n' ∉ form.toList)
    (plain : t.IsPlain) : Outline.IsLabel (labelOf form t) :=
  isLabel_label oneLine (by simp [plain.1.not_mem plain.2])

/-- A word is a label. -/
theorem isLabel_word {word : String} (h : word ∈ ["Let", "IfExpr", "Cond", "Clause", "Body"]) :
    Outline.IsLabel word := by
  have all : ∀ word ∈ ["Let", "IfExpr", "Cond", "Clause", "Body"], '\n' ∉ word.toList ∧
      word.toList.getLast? ≠ some ',' ∧ word.toList.getLast? ≠ some '[' := by decide
  obtain ⟨oneLine, comma, bracket⟩ := all word h
  refine ⟨oneLine, fun c last => ⟨?_, ?_⟩⟩
  · rintro rfl
    exact comma last
  · rintro rfl
    exact bracket last

theorem isLabel_of_mem_bodyNode {children : List Outline}
    (all : ∀ o ∈ children, ∀ l ∈ o.labels, Outline.IsLabel l) :
    ∀ l ∈ (bodyNode children).labels, Outline.IsLabel l := by
  rw [bodyNode, Outline.forall_mem_labels_node]
  exact ⟨isLabel_word (by decide), all⟩

mutual

/-- The outline of an expression has labels that can be told from what stands around them. -/
theorem isLabel_of_mem_outline : ∀ e : Expr, e.AllTokens Token.IsPlain →
    ∀ l ∈ e.outline.labels, Outline.IsLabel l
  | literal value, _ => by
    rw [outline, Outline.forall_mem_labels_node]
    exact ⟨isLabel_label (by decide) value.not_mem_text, by simp⟩
  | identifier name, all => by
    rw [outline, Outline.forall_mem_labels_node]
    exact ⟨isLabel_labelOf (by decide) all, by simp⟩
  | unary operator right, ⟨token, all⟩ => by
    rw [outline, Outline.forall_mem_labels_node, List.forall_mem_singleton]
    exact ⟨isLabel_labelOf (by decide) token, isLabel_of_mem_outline right all⟩
  | binary operator first second, ⟨token, all, all'⟩
  | logical operator first second, ⟨token, all, all'⟩ => by
    rw [outline, Outline.forall_mem_labels_node, List.forall_mem_cons, List.forall_mem_singleton]
    exact ⟨isLabel_labelOf (by decide) token, isLabel_of_mem_outline first all,
      isLabel_of_mem_outline second all'⟩
  | print operator body, ⟨token, all⟩ => by
    rw [outline, Outline.forall_mem_labels_node, List.forall_mem_singleton]
    exact ⟨isLabel_labelOf (by decide) token,
      isLabel_of_mem_bodyNode (isLabel_of_mem_outlines body all)⟩
  | letIn bindings body, ⟨all, all'⟩ => by
    rw [outline, Outline.forall_mem_labels_node, List.forall_mem_append, List.forall_mem_singleton]
    exact ⟨isLabel_word (by decide), isLabel_of_mem_outlinesOfBindings bindings all,
      isLabel_of_mem_bodyNode (isLabel_of_mem_outlines body all')⟩
  | ifThen condition thenBody elseBody, ⟨all, all', all''⟩ => by
    rw [outline, Outline.forall_mem_labels_node, List.forall_mem_cons, List.forall_mem_cons]
    exact ⟨isLabel_word (by decide), isLabel_of_mem_outline condition all,
      isLabel_of_mem_bodyNode (isLabel_of_mem_outlines thenBody all'),
      isLabel_of_mem_outlinesOfElse elseBody all''⟩
  | cond clauses elseBody, ⟨all, all'⟩ => by
    rw [outline, Outline.forall_mem_labels_node, List.forall_mem_append]
    exact ⟨isLabel_word (by decide), isLabel_of_mem_outlinesOfClauses clauses all,
      isLabel_of_mem_outlinesOfElse elseBody all'⟩

theorem isLabel_of_mem_outlines : ∀ es : List Expr, AllTokensOfAll Token.IsPlain es →
    ∀ o ∈ outlines es, ∀ l ∈ o.labels, Outline.IsLabel l
  | [], _ => fun _ mem => (List.not_mem_nil mem).elim
  | e :: es, ⟨first, others⟩ => by
    rw [outlines, List.forall_mem_cons]
    exact ⟨isLabel_of_mem_outline e first, isLabel_of_mem_outlines es others⟩

theorem isLabel_of_mem_outlinesOfElse : ∀ elseBody : Option (List Expr),
    AllTokensOfElse Token.IsPlain elseBody →
    ∀ o ∈ outlinesOfElse elseBody, ∀ l ∈ o.labels, Outline.IsLabel l
  | none, _ => fun _ mem => (List.not_mem_nil mem).elim
  | some body, all => by
    rw [outlinesOfElse, List.forall_mem_singleton]
    exact isLabel_of_mem_bodyNode (isLabel_of_mem_outlines body all)

theorem isLabel_of_mem_outlinesOfBindings : ∀ bs : List (Binding Expr),
    AllTokensOfBindings Token.IsPlain bs →
    ∀ o ∈ outlinesOfBindings bs, ∀ l ∈ o.labels, Outline.IsLabel l
  | [], _ => fun _ mem => (List.not_mem_nil mem).elim
  | ⟨name, value⟩ :: bs, ⟨token, first, others⟩ => by
    rw [outlinesOfBindings, List.forall_mem_cons, outlineOfBinding,
      Outline.forall_mem_labels_node, List.forall_mem_singleton]
    exact ⟨⟨isLabel_labelOf (by decide) token, isLabel_of_mem_outline value first⟩,
      isLabel_of_mem_outlinesOfBindings bs others⟩

theorem isLabel_of_mem_outlinesOfClauses : ∀ cs : List (Clause Expr),
    AllTokensOfClauses Token.IsPlain cs →
    ∀ o ∈ outlinesOfClauses cs, ∀ l ∈ o.labels, Outline.IsLabel l
  | [], _ => fun _ mem => (List.not_mem_nil mem).elim
  | ⟨condition, body⟩ :: cs, ⟨first, inside, others⟩ => by
    rw [outlinesOfClauses, List.forall_mem_cons, outlineOfClause,
      Outline.forall_mem_labels_node, List.forall_mem_cons, List.forall_mem_singleton]
    exact ⟨⟨isLabel_word (by decide), isLabel_of_mem_outline condition first,
      isLabel_of_mem_bodyNode (isLabel_of_mem_outlines body inside)⟩,
      isLabel_of_mem_outlinesOfClauses cs others⟩

end

/-- The form that a label names. -/
def form : Expr → String
  | literal _ => "Literal"
  | identifier _ => "Variable"
  | unary .. => "Unary"
  | binary .. => "Binary"
  | logical .. => "Logical"
  | print .. => "Print"
  | letIn .. => "Let"
  | ifThen .. => "IfExpr"
  | cond .. => "Cond"

/-- The form stands at the front of the label. -/
theorem exists_outline_eq (e : Expr) : ∃ label children, e.outline = .node label children ∧
    label.toList.takeWhile (· != '(') = e.form.toList := by
  cases e <;> exact ⟨_, _, by rw [outline], by simp [labelOf, label, form]⟩

theorem form_eq_of_outline_eq {e e' : Expr} (same : e.outline = e'.outline) :
    e.form = e'.form := by
  obtain ⟨label, children, node, front⟩ := e.exists_outline_eq
  obtain ⟨label', children', node', front'⟩ := e'.exists_outline_eq
  obtain ⟨rfl, -⟩ := Outline.node.inj (node.symm.trans (same.trans node'))
  exact String.toList_inj.1 (front.symm.trans front')

theorem label_inj {form a b : String} (same : label form a = label form b) : a = b := by
  simpa [label, String.append_assoc] using same

theorem bodyNode_inj {children children' : List Outline}
    (same : bodyNode children = bodyNode children') : children = children' :=
  (Outline.node.inj same).2

theorem nowhere_eq_of_labelOf_eq {form : String} {t t' : Token} (plain : t.IsPlain)
    (plain' : t'.IsPlain) (same : labelOf form t = labelOf form t') :
    Relocation.nowhere t = Relocation.nowhere t' :=
  Relocation.nowhere_eq (plain.1.content_eq plain'.1 (by simpa using label_inj same))

mutual

/-- Expressions with the same outline are the same but for places. -/
theorem relocate_eq_of_outline_eq : ∀ {e e' : Expr}, e.AllTokens Token.IsPlain →
    e'.AllTokens Token.IsPlain → e.outline = e'.outline →
    e.relocate .nowhere = e'.relocate .nowhere
  | literal value, e', _, all', same => by
    cases e' with
    | literal value' =>
      rw [outline, outline, Outline.node.injEq] at same
      rw [Value.text_injective (label_inj same.1)]
    | _ => exact absurd (form_eq_of_outline_eq same) (by simp [form])
  | identifier name, e', all, all', same => by
    cases e' with
    | identifier name' =>
      rw [outline, outline, Outline.node.injEq] at same
      rw [relocate, relocate, nowhere_eq_of_labelOf_eq all all' same.1]
    | _ => exact absurd (form_eq_of_outline_eq same) (by simp [form])
  | unary operator right, e', ⟨token, all⟩, all', same => by
    cases e' with
    | unary operator' right' =>
      rw [outline, outline, Outline.node.injEq, List.singleton_inj] at same
      rw [relocate, relocate, nowhere_eq_of_labelOf_eq token all'.1 same.1,
        relocate_eq_of_outline_eq all all'.2 same.2]
    | _ => exact absurd (form_eq_of_outline_eq same) (by simp [form])
  | binary operator first second, e', ⟨token, all, all₂⟩, all', same => by
    cases e' with
    | binary operator' first' second' =>
      rw [outline, outline, Outline.node.injEq, List.cons.injEq, List.singleton_inj] at same
      rw [relocate, relocate, nowhere_eq_of_labelOf_eq token all'.1 same.1,
        relocate_eq_of_outline_eq all all'.2.1 same.2.1,
        relocate_eq_of_outline_eq all₂ all'.2.2 same.2.2]
    | _ => exact absurd (form_eq_of_outline_eq same) (by simp [form])
  | logical operator first second, e', ⟨token, all, all₂⟩, all', same => by
    cases e' with
    | logical operator' first' second' =>
      rw [outline, outline, Outline.node.injEq, List.cons.injEq, List.singleton_inj] at same
      rw [relocate, relocate, nowhere_eq_of_labelOf_eq token all'.1 same.1,
        relocate_eq_of_outline_eq all all'.2.1 same.2.1,
        relocate_eq_of_outline_eq all₂ all'.2.2 same.2.2]
    | _ => exact absurd (form_eq_of_outline_eq same) (by simp [form])
  | print operator body, e', ⟨token, all⟩, all', same => by
    cases e' with
    | print operator' body' =>
      rw [outline, outline, Outline.node.injEq, List.singleton_inj] at same
      rw [relocate, relocate, nowhere_eq_of_labelOf_eq token all'.1 same.1,
        relocateAll_eq_of_outlines_eq all all'.2 (bodyNode_inj same.2)]
    | _ => exact absurd (form_eq_of_outline_eq same) (by simp [form])
  | letIn bindings body, e', ⟨all, all₂⟩, all', same => by
    cases e' with
    | letIn bindings' body' =>
      rw [outline, outline, Outline.node.injEq] at same
      obtain ⟨outlines, bodies⟩ := List.append_inj' same.2 rfl
      rw [relocate, relocate, relocateBindings_eq_of_outlines_eq all all'.1 outlines,
        relocateAll_eq_of_outlines_eq all₂ all'.2 (bodyNode_inj (List.singleton_inj.1 bodies))]
    | _ => exact absurd (form_eq_of_outline_eq same) (by simp [form])
  | ifThen condition thenBody elseBody, e', ⟨all, all₂, all₃⟩, all', same => by
    cases e' with
    | ifThen condition' thenBody' elseBody' =>
      rw [outline, outline, Outline.node.injEq, List.cons.injEq, List.cons.injEq] at same
      rw [relocate, relocate, relocate_eq_of_outline_eq all all'.1 same.2.1,
        relocateAll_eq_of_outlines_eq all₂ all'.2.1 (bodyNode_inj same.2.2.1),
        relocateElse_eq_of_outlines_eq all₃ all'.2.2 same.2.2.2]
    | _ => exact absurd (form_eq_of_outline_eq same) (by simp [form])
  | cond clauses elseBody, e', ⟨all, all₂⟩, all', same => by
    cases e' with
    | cond clauses' elseBody' =>
      rw [outline, outline, Outline.node.injEq] at same
      obtain ⟨clauses, bodies⟩ := relocateClauses_eq_of_outlines_eq all all'.1 same.2
      rw [relocate, relocate, clauses, relocateElse_eq_of_outlines_eq all₂ all'.2 bodies]
    | _ => exact absurd (form_eq_of_outline_eq same) (by simp [form])
termination_by structural e => e

theorem relocateAll_eq_of_outlines_eq : ∀ {es es' : List Expr},
    AllTokensOfAll Token.IsPlain es → AllTokensOfAll Token.IsPlain es' →
    outlines es = outlines es' → relocateAll .nowhere es = relocateAll .nowhere es'
  | [], [], _, _, _ => rfl
  | [], _ :: _, _, _, same => nomatch same
  | _ :: _, [], _, _, same => nomatch same
  | e :: es, e' :: es', ⟨first, others⟩, ⟨first', others'⟩, same => by
    rw [outlines, outlines, List.cons.injEq] at same
    rw [relocateAll, relocateAll, relocate_eq_of_outline_eq first first' same.1,
      relocateAll_eq_of_outlines_eq others others' same.2]
termination_by structural es => es

/-- An else body that is absent has no node, not even an empty one. -/
theorem relocateElse_eq_of_outlines_eq : ∀ {elseBody elseBody' : Option (List Expr)},
    AllTokensOfElse Token.IsPlain elseBody → AllTokensOfElse Token.IsPlain elseBody' →
    outlinesOfElse elseBody = outlinesOfElse elseBody' →
    relocateElse .nowhere elseBody = relocateElse .nowhere elseBody'
  | none, none, _, _, _ => rfl
  | none, some _, _, _, same => nomatch same
  | some _, none, _, _, same => nomatch same
  | some body, some body', all, all', same => by
    rw [relocateElse, relocateElse,
      relocateAll_eq_of_outlines_eq all all' (bodyNode_inj (List.singleton_inj.1 same))]
termination_by structural elseBody => elseBody

theorem relocateBindings_eq_of_outlines_eq : ∀ {bs bs' : List (Binding Expr)},
    AllTokensOfBindings Token.IsPlain bs → AllTokensOfBindings Token.IsPlain bs' →
    outlinesOfBindings bs = outlinesOfBindings bs' →
    relocateBindings .nowhere bs = relocateBindings .nowhere bs'
  | [], [], _, _, _ => rfl
  | [], ⟨_, _⟩ :: _, _, _, same => nomatch same
  | ⟨_, _⟩ :: _, [], _, _, same => nomatch same
  | ⟨name, value⟩ :: bs, ⟨name', value'⟩ :: bs', ⟨token, first, others⟩,
      ⟨token', first', others'⟩, same => by
    rw [outlinesOfBindings, outlinesOfBindings, outlineOfBinding, outlineOfBinding,
      List.cons.injEq, Outline.node.injEq, List.singleton_inj] at same
    rw [relocateBindings, relocateBindings, nowhere_eq_of_labelOf_eq token token' same.1.1,
      relocate_eq_of_outline_eq first first' same.1.2,
      relocateBindings_eq_of_outlines_eq others others' same.2]
termination_by structural bs => bs

/-- The node of a clause is told from that of an else body behind the clauses. -/
theorem relocateClauses_eq_of_outlines_eq : ∀ {cs cs' : List (Clause Expr)}
    {elseBody elseBody' : Option (List Expr)}, AllTokensOfClauses Token.IsPlain cs →
    AllTokensOfClauses Token.IsPlain cs' →
    outlinesOfClauses cs ++ outlinesOfElse elseBody =
      outlinesOfClauses cs' ++ outlinesOfElse elseBody' →
    relocateClauses .nowhere cs = relocateClauses .nowhere cs' ∧
      outlinesOfElse elseBody = outlinesOfElse elseBody'
  | [], [], _, _, _, _, same => ⟨rfl, same⟩
  | [], ⟨_, _⟩ :: _, none, _, _, _, same => nomatch same
  | [], ⟨_, _⟩ :: _, some _, _, _, _, same =>
    absurd (Outline.node.inj (List.cons.inj same).1).1 (by decide)
  | ⟨_, _⟩ :: _, [], _, none, _, _, same => nomatch same
  | ⟨_, _⟩ :: _, [], _, some _, _, _, same =>
    absurd (Outline.node.inj (List.cons.inj same).1).1 (by decide)
  | ⟨condition, body⟩ :: cs, ⟨condition', body'⟩ :: cs', elseBody, elseBody',
      ⟨first, inside, others⟩, ⟨first', inside', others'⟩, same => by
    rw [outlinesOfClauses, outlinesOfClauses, outlineOfClause, outlineOfClause, List.cons_append,
      List.cons_append, List.cons.injEq, Outline.node.injEq, List.cons.injEq,
      List.singleton_inj] at same
    obtain ⟨⟨-, conditions, bodies⟩, more⟩ := same
    obtain ⟨clauses, bodies'⟩ := relocateClauses_eq_of_outlines_eq others others' more
    rw [relocateClauses, relocateClauses, relocate_eq_of_outline_eq first first' conditions,
      relocateAll_eq_of_outlines_eq inside inside' (bodyNode_inj bodies), clauses]
    exact ⟨rfl, bodies'⟩
termination_by structural cs => cs

end

end Expr

/-! ### Listings -/

/-- The tree of a unit that was read keeps lexemes only, but no strings. -/
theorem allTokens_of_parse {source : String} {ts : Tokens} {es : List Expr}
    (read : tokenize source = .ok ts) (parsed : parse ts = .ok es) :
    ∀ e ∈ es, e.AllTokens Token.IsPlain := by
  have derived := derives_of_parseWithin (kind_ne_eof_of_tokenize read) parsed
  refine Expr.allTokensOfAll_iff.1 (derived.allTokens fun t mem noString => ?_)
  exact ⟨isLexeme_of_tokenize read t mem, noString⟩

/-- A unit that was read is listed by the outlines of its expressions. -/
theorem Work.listing_showTree {source : String} {ts : Tokens} {es : List Expr}
    (read : tokenize source = .ok ts) (parsed : Lisplet.parse ts = .ok es)
    (shallow : ∀ e ∈ es, e.outline.depth ≤ depthLimit) (s : Session) :
    (showTree source s).2.1.listing =
      Outline.ofLines ((es.map Expr.outline).map Outline.text) := by
  obtain ⟨reports, lexed, -⟩ := lex_of_ok read s
  have trees := parse_of_lex lexed
  rw [parsed] at trees
  rw [showTree_of_shallow trees shallow, Trace.listing_append, Trace.listing_ofLines, List.map_map]
  simp [Outline.ofLines, Function.comp_def]

/-- **A listed tree loses nothing but places.**  Take two sources that can be read, with no tree too
deep to be listed.  Their listings are the same text just if their expressions are the same but for
the lines and columns of the tokens in them: as many expressions, and of the same forms, with the
same operators, names and literals, the same parts, and an else body where the other has one. -/
theorem listing_showTree_eq_iff {u v : String} {us vs : Tokens} {es fs : List Expr}
    (read : tokenize u = .ok us) (parsed : parse us = .ok es)
    (shallow : ∀ e ∈ es, e.outline.depth ≤ depthLimit) (read' : tokenize v = .ok vs)
    (parsed' : parse vs = .ok fs) (shallow' : ∀ e ∈ fs, e.outline.depth ≤ depthLimit)
    (s s' : Session) :
    (Work.showTree u s).2.1.listing = (Work.showTree v s').2.1.listing ↔
      es.map (Expr.relocate .nowhere) = fs.map (Expr.relocate .nowhere) := by
  rw [Work.listing_showTree read parsed shallow, Work.listing_showTree read' parsed' shallow']
  have all := allTokens_of_parse read parsed
  have all' := allTokens_of_parse read' parsed'
  constructor
  · intro same
    have labels {es : List Expr} (all : ∀ e ∈ es, e.AllTokens Token.IsPlain) :
        ∀ o ∈ es.map Expr.outline, ∀ l ∈ o.labels, Outline.IsLabel l :=
      List.forall_mem_map.2 fun e mem => Expr.isLabel_of_mem_outline e (all e mem)
    have outlines := Outline.listing_inj (labels all) (labels all') same
    rw [← Expr.relocateAll_eq_map, ← Expr.relocateAll_eq_map]
    refine Expr.relocateAll_eq_of_outlines_eq (Expr.allTokensOfAll_iff.2 all)
      (Expr.allTokensOfAll_iff.2 all') ?_
    rw [Expr.outlines_eq_map, Expr.outlines_eq_map, outlines]
  · intro same
    have outlines (es : List Expr) :
        es.map Expr.outline = (es.map (Expr.relocate .nowhere)).map Expr.outline := by
      rw [List.map_map]
      exact List.map_congr_left fun e _ => (Expr.outline_relocate .nowhere e).symm
    rw [outlines es, outlines fs, same]

/-- A source can be read if its tree, without places, can be computed. -/
theorem exists_read_of_tree (source : String) (tree : Expr)
    (shallow : tree.outline.depth ≤ depthLimit)
    (found : ((tokenize source).toOption.bind fun ts => (parse ts).toOption).map
      (List.map (Expr.relocate .nowhere)) = some [tree]) :
    ∃ ts es, tokenize source = .ok ts ∧ parse ts = .ok es ∧
      (∀ e ∈ es, e.outline.depth ≤ depthLimit) ∧ es.map (Expr.relocate .nowhere) = [tree] := by
  cases read : tokenize source with
  | error e => simp [read, Except.toOption] at found
  | ok ts =>
    cases parsed : parse ts with
    | error stop => simp [read, parsed, Except.toOption] at found
    | ok es =>
      have trees : es.map (Expr.relocate .nowhere) = [tree] := by
        simpa [read, parsed, Except.toOption] using found
      refine ⟨ts, es, rfl, parsed, fun e mem => ?_, trees⟩
      have moved : e.relocate .nowhere ∈ [tree] := trees ▸ List.mem_map_of_mem mem
      rwa [← Expr.outline_relocate .nowhere, List.mem_singleton.1 moved]

/-- Blanks in a branch with an else body are not listed.  But the listing tells it from a branch
without one, although that has the same expressions, all of them in its body. -/
theorem listing_showTree_of_else :
    let u := "(if x (then (print y) \"y\") (else z))"
    let v := "(if x(then(print y)\"y\")(else z))"
    let w := "(if x (then (print y) \"y\" z))"
    let s := Session.typed (Reporter.new true false)
    (Work.showTree u s).2.1.listing = (Work.showTree v s).2.1.listing ∧
      (Work.showTree u s).2.1.listing ≠ (Work.showTree w s).2.1.listing := by
  intro u v w s
  let name (lexeme : String) : Expr := .identifier ⟨.identifier, lexeme, .null, 0, 0⟩
  let shown : List Expr :=
    [.print ⟨.print, "print", .null, 0, 0⟩ [name "y"], .literal (.string "y")]
  let branched : Expr := .ifThen (name "x") shown (some [name "z"])
  let unbranched : Expr := .ifThen (name "x") (shown ++ [name "z"]) none
  obtain ⟨us, es, readU, parsedU, shallowU, treesU⟩ :=
    exists_read_of_tree u branched (by decide) (by cbv)
  obtain ⟨vs, fs, readV, parsedV, shallowV, treesV⟩ :=
    exists_read_of_tree v branched (by decide) (by cbv)
  obtain ⟨ws, gs, readW, parsedW, shallowW, treesW⟩ :=
    exists_read_of_tree w unbranched (by decide) (by cbv)
  constructor
  · exact (listing_showTree_eq_iff readU parsedU shallowU readV parsedV shallowV s s).2
      (treesU.trans treesV.symm)
  · intro same
    have trees :=
      (listing_showTree_eq_iff readU parsedU shallowU readW parsedW shallowW s s).1 same
    rw [treesU, treesW] at trees
    simp [branched, unbranched] at trees

end Lisplet
