import Criteria.Proofs.Language.LeafTokens

/-! # Ranges of a tree

Whatever is read from a text has a run of its tokens, and what is under it has runs one after the
other in this one. So the ranges of a tree nest: what is under a node lies in its range, in order
and without overlap (`isExpression_fits`).
-/

set_option autoImplicit false

namespace Criteria.Language

open Number Grammar Criteria.Language.Derivation

/-! ## Outlines -/

/-- A range inside another one. -/
structure Extent.Within (e f : Extent) : Prop where
  start : f.start ≤ e.start
  stop : e.stop ≤ f.stop

/-- The ranges of a tree: that of a node, and those of what is under it from left to right. -/
inductive Outline where
  | node (extent : Extent) (parts : List Outline)

namespace Outline

/-- The range of the whole. -/
def extent : Outline → Extent
  | node extent _ => extent

/-- What is under a node lies in its range, in order and without overlap, at any depth. -/
inductive Nested : Outline → Prop
  | node {extent : Extent} {parts : List Outline} (within : ∀ o ∈ parts, o.extent.Within extent)
      (ordered : parts.Pairwise fun o p => o.extent.Before p.extent)
      (nested : ∀ o ∈ parts, o.Nested) : Nested (.node extent parts)

end Outline

/-- The range of a value with nothing under it. -/
def Located.outline {α : Type} (a : Located α) : Outline := .node a.extent []

/-- The ranges of a path: its root and its names. -/
def Path.outline (p : Path) : Outline :=
  .node p.extent (p.root.outline :: p.segments.map (·.outline))

/-- The ranges of a term. -/
def Term.outline : Term → Outline
  | path p => p.outline
  | call extent name argument integers =>
    .node extent (name.outline :: argument.outline :: integers.map (·.outline))

namespace Expression

mutual

/-- The ranges of an expression. -/
def outline : Expression → Outline
  | all extent => .node extent []
  | none extent => .node extent []
  | conjunction extent first others => .node extent (first.outline :: outlines others)
  | disjunction extent first others => .node extent (first.outline :: outlines others)
  | group extent inner => .node extent [inner.outline]
  | unary extent operand _ => .node extent [operand.outline]
  | binary extent operand _ parameter => .node extent [operand.outline, parameter.outline]
  | existence extent navigation _ filter =>
    .node extent (navigation.outline :: outlineOfFilter filter)

/-- The ranges of the operands of a combination. -/
def outlines : List Expression → List Outline
  | [] => []
  | e :: es => e.outline :: outlines es

/-- The ranges of a filter, if there is one. -/
def outlineOfFilter : Option Expression → List Outline
  | .none => []
  | some e => [e.outline]

end

theorem outlines_eq (es : List Expression) : outlines es = es.map outline := by
  induction es with
  | nil => rw [outlines, List.map_nil]
  | cons e es ih => rw [outlines, List.map_cons, ih]

theorem extent_outline (e : Expression) : e.outline.extent = e.extent := by
  cases e <;> rw [outline] <;> rfl

end Expression

/-! ## Tokens in order -/

/-- Tokens that are not empty and follow each other. -/
structure InOrder (ts : Tokens) : Prop where
  nonempty : ∀ t ∈ ts, t.extent.start < t.extent.stop
  before : ts.Pairwise fun t u => t.extent.Before u.extent

namespace InOrder

variable {ts us : Tokens}

theorem sublist (h : InOrder ts) (hsublist : us.Sublist ts) : InOrder us :=
  ⟨fun t ht => h.nonempty t (hsublist.subset ht), h.before.sublist hsublist⟩

theorem run {run vs : Tokens} (h : InOrder (us ++ run ++ vs)) : InOrder run :=
  h.sublist ((List.sublist_append_right us run).trans (List.sublist_append_left (us ++ run) vs))

/-- Every token of a run lies in its range. -/
theorem within {extent : Extent} (h : InOrder ts) (hspans : Spans ts extent) {t : Located Token}
    (ht : t ∈ ts) : t.extent.Within extent := by
  obtain ⟨⟨first, behind, hfirst, hstart⟩, ⟨front, last, hlast, hstop⟩⟩ := hspans
  constructor
  · rw [← hstart]
    have hbefore := h.before
    rw [hfirst] at ht hbefore
    rcases List.mem_cons.1 ht with rfl | ht
    · exact Nat.le_refl _
    · have hfirst := (List.pairwise_cons.1 hbefore).1 t ht
      exact Nat.le_trans (Nat.le_of_lt hfirst.nonempty) hfirst.apart
  · rw [← hstop]
    have hnonempty : last.extent.start < last.extent.stop := h.nonempty last (by simp [hlast])
    have hbefore := h.before
    rw [hlast] at ht hbefore
    rcases List.mem_append.1 ht with ht | ht
    · have hlast := (List.pairwise_append.1 hbefore).2.2 t ht last List.mem_cons_self
      exact Nat.le_trans hlast.apart (Nat.le_of_lt hnonempty)
    · rw [List.mem_singleton.1 ht]

/-- The range of a run inside another one lies in the range of this one. -/
theorem spans_within {run vs : Tokens} {e f : Extent} (h : InOrder (us ++ run ++ vs))
    (hrun : Spans run e) (hwhole : Spans (us ++ run ++ vs) f) : e.Within f := by
  obtain ⟨⟨first, behind, hfirst, hstart⟩, ⟨front, last, hlast, hstop⟩⟩ := hrun
  have hstart' : first.extent.Within f := h.within hwhole (by simp [hfirst])
  have hstop' : last.extent.Within f := h.within hwhole (by simp [hlast])
  constructor
  · rw [← hstart]
    exact hstart'.start
  · rw [← hstop]
    exact hstop'.stop

end InOrder

/-- The tokens of a text are in order. -/
theorem tokensAt_inOrder {position : Nat} {cs : List Char} {ts : Tokens}
    (h : tokensAt position cs = .ok ts) : InOrder ts := by
  refine ⟨?_, tokensAt_ordered h⟩
  intro t ht
  obtain ⟨us, vs, rfl⟩ := List.append_of_mem ht
  obtain ⟨front, word, back, -, hword, hextent, -⟩ := exists_word_of_tokensAt h
  obtain ⟨c, r, rfl⟩ := List.exists_cons_of_ne_nil hword
  have hc := c.utf8Size_pos
  rw [hextent]
  simp only [Text.utf8Length_append, Text.utf8Length_cons]
  omega

/-! ## Outlines of runs -/

/-- The tokens are read as something of this outline. -/
structure Outline.Fits (run : Tokens) (o : Outline) : Prop where
  spans : Spans run o.extent
  nested : InOrder run → o.Nested

namespace Outline.Fits

variable {run : Tokens}

/-- A node fits a run if what is under it fits runs one after the other in it. -/
theorem node {extent : Extent} {parts : List Outline} (hspans : Spans run extent)
    (hparts : Scattered Fits run parts) : Fits run (.node extent parts) := by
  refine ⟨hspans, fun hrun => ⟨?_, ?_, ?_⟩⟩
  · intro o ho
    obtain ⟨us, run', vs, rfl, hfits⟩ := hparts.exists_run ho
    exact hrun.spans_within hfits.spans hspans
  · exact hparts.ordered (fun _ _ h => h.spans) hrun.before
  · intro o ho
    obtain ⟨us, run', vs, rfl, hfits⟩ := hparts.exists_run ho
    exact hfits.nested hrun.run

theorem located {α : Type} {a : Located α} (h : Spans run a.extent) : Fits run a.outline :=
  .node h .nil

end Outline.Fits

/-! ## Paths, terms and parameters -/

theorem areNames_fits {ts : Tokens} {names : List (Located String)} (h : AreNames ts names) :
    Scattered Outline.Fits ts (names.map (·.outline)) := by
  induction h with
  | nil => exact .nil
  | @cons t u ts name names before hname tail ih =>
    have hfirst : Scattered Outline.Fits [u] [Located.outline ⟨name, u.extent⟩] :=
      .single (.located .single)
    exact (hfirst.append ih).behind [t]

theorem isPath_fits {ts : Tokens} {p : Path} (h : IsPath ts p) : Outline.Fits ts p.outline := by
  refine .node (isPath_spans h) ?_
  obtain ⟨hroot, hnames, hp⟩ := h
  obtain ⟨hsegments, hproot⟩ := segments_of_ofSegments? hp
  rw [hsegments, hproot]
  exact (Scattered.single (.located .single)).append (areNames_fits hnames)

theorem areIntegers_fits {ts : Tokens} {integers : List (Located (Word 64))}
    (h : AreIntegers ts integers) : Scattered Outline.Fits ts (integers.map (·.outline)) := by
  induction h with
  | nil => exact .nil
  | @cons t u ts n others before hinteger tail ih =>
    have hfirst : Scattered Outline.Fits [u] [Located.outline ⟨n, u.extent⟩] :=
      .single (.located .single)
    exact (hfirst.append ih).behind [t]

theorem isTerm_fits {levels : Nat} {ts : Tokens} {t : Term} (h : IsTerm levels ts t) :
    Outline.Fits ts t.outline := by
  induction h with
  | path h => exact isPath_fits h
  | @call levels t u v ts us name argument integers ht opening hargument hintegers closing ih =>
    refine .node (isTerm_spans (.call ht opening hargument hintegers closing)) ?_
    have hname : Scattered Outline.Fits [t] [Located.outline ⟨name, t.extent⟩] :=
      .single (.located .single)
    have hbehind := (Scattered.single ih).append ((areIntegers_fits hintegers).front [v])
    exact hname.append (hbehind.behind [u])

theorem isComparison_fits {levels : Nat} {ts us : Tokens} {operand : Term} {e : Expression}
    (hoperand : IsTerm levels ts operand) (h : IsComparison operand us e) :
    Outline.Fits (ts ++ us) e.outline := by
  have hterm := Scattered.single (isTerm_fits hoperand)
  cases h with
  | unary h =>
    rw [Expression.outline]
    exact .node (Leaf.IsWritten.unary hoperand h).spans (hterm.front us)
  | @binary us vs _ _ hcomparator hparameter =>
    rw [Expression.outline]
    have hspans := (Leaf.IsWritten.binary hoperand hcomparator hparameter).spans
    have hliteral := Scattered.single (Outline.Fits.located (isParameter_spans hparameter))
    exact .node hspans (hterm.append (hliteral.behind us))

/-! ## Expressions -/

section

variable {levels : Nat} {Inner : Option (Production Expression)}

/-- What may stand inside a bracket fits its tokens. -/
def InnerFits (Inner : Option (Production Expression)) : Prop :=
  ∀ R, Inner = some R → ∀ ts e, R ts e → Outline.Fits ts e.outline

theorem isFilter_fits (hinner : InnerFits Inner) {ts : Tokens} {filter : Option Expression}
    (h : IsFilter Inner ts filter) :
    Scattered Outline.Fits ts (Expression.outlineOfFilter filter) := by
  cases h with
  | empty h =>
    rw [Expression.outlineOfFilter]
    exact .nil
  | filter h he =>
    rw [Expression.outlineOfFilter]
    exact .single (hinner _ h _ _ he)

theorem isExistence_fits (hinner : InnerFits Inner) {p : Path} {ts us : Tokens} {e : Expression}
    (hp : IsPath ts p) (h : IsExistence Inner p us e) : Outline.Fits (ts ++ us) e.outline := by
  have hpath := Scattered.single (isPath_fits hp)
  cases h with
  | @method t u us navigation test filter htest hparent opening hfilter closing =>
    rw [Expression.outline]
    refine .node ((isPath_spans hp).upTo t us u) ?_
    -- The path ends with the name of the method, which is not part of the relationships.
    obtain ⟨run, gap, rfl, hrun⟩ := isPath_parent? hp hparent
    have hnavigation := (Scattered.single (isPath_fits hrun)).front gap
    exact hnavigation.append ((isFilter_fits hinner hfilter).between t u)
  | @present t ht =>
    rw [Expression.outline, Expression.outlineOfFilter]
    exact .node ((isPath_spans hp).append .single) (hpath.front [t])
  | @absent t u ht hu =>
    rw [Expression.outline, Expression.outlineOfFilter]
    exact .node ((isPath_spans hp).upTo t [] u) (hpath.front [t, u])
  | @absentWith R t u v w us e h ht hu opening he closing =>
    rw [Expression.outline, Expression.outlineOfFilter]
    have hfilter := (Scattered.single (hinner _ h _ _ he)).between v w
    refine .node ((isPath_spans hp).upTo t (u :: v :: us) w) ?_
    exact hpath.append (hfilter.behind [t, u])

theorem isPrimary_fits (hinner : InnerFits Inner) (ts : Tokens) (e : Expression)
    (h : IsPrimary levels Inner ts e) : Outline.Fits ts e.outline := by
  cases h with
  | all ht =>
    rw [Expression.outline]
    exact .node .single .nil
  | none ht =>
    rw [Expression.outline]
    exact .node .single .nil
  | @group R t u ts e h opening he closing =>
    rw [Expression.outline]
    exact .node (.between t ts u) ((Scattered.single (hinner _ h _ _ he)).between t u)
  | leaf h =>
    cases h with
    | comparison hoperand h => exact isComparison_fits hoperand h
    | existence hp h => exact isExistence_fits hinner hp h

/-- The items of a chain have runs in their order. -/
theorem chain_runs {α : Type} {separator : Symbol} {R : Production α} {ts : Tokens}
    {a : α × List α} (h : Chain separator R ts a) : Scattered R ts (a.1 :: a.2) := by
  induction h with
  | one item => exact .single item
  | @more ts us first second others t item between tail ih =>
    exact (Scattered.single item).append (ih.behind [t])

/-- A chain reaches from the start of its first item to the end of its last one. -/
theorem chain_spans {α : Type} {separator : Symbol} {R : Production α} {extent : α → Extent}
    (h : ∀ ts a, R ts a → Spans ts (extent a)) {ts : Tokens} {a : α × List α}
    (hchain : Chain separator R ts a) : ∃ last, (a.1 :: a.2).getLast? = some last ∧
      Spans ts ⟨(extent a.1).start, (extent last).stop⟩ := by
  induction hchain with
  | one item => exact ⟨_, rfl, h _ _ item⟩
  | @more ts us first second others t item between tail ih =>
    obtain ⟨last, hlast, hspans⟩ := ih
    have hwhole := (h _ _ item).append ((Spans.single (t := t)).append hspans)
    exact ⟨last, hlast, hwhole⟩

/-- The operands of a combination lie in its range. -/
theorem combine_fits {separator : Symbol} {R : Production Expression}
    {combination : Extent → Expression → List Expression → Expression}
    (hcombination : ∀ extent first others, (combination extent first others).outline =
      .node extent (first.outline :: others.map Expression.outline))
    (h : ∀ ts e, R ts e → Outline.Fits ts e.outline) {ts : Tokens} {first : Expression}
    {others : List Expression} (hchain : Chain separator R ts (first, others)) :
    Outline.Fits ts (combine combination first others).outline := by
  have hspans := chain_spans (fun ts e he => (h ts e he).spans) hchain
  have hruns := (chain_runs hchain).map h
  cases hchain with
  | one item => exact h _ _ item
  | @more ts us first second others t item between tail =>
    obtain ⟨last, hlast, hspans⟩ := hspans
    rw [List.getLast?_cons_cons] at hlast
    rw [combine, hlast]
    dsimp only
    rw [hcombination]
    rw [first.extent_outline, last.extent_outline] at hspans
    exact .node hspans hruns

theorem isConjunction_fits (hinner : InnerFits Inner) (ts : Tokens) (e : Expression)
    (h : IsConjunction levels Inner ts e) : Outline.Fits ts e.outline := by
  obtain ⟨first, others, hchain, rfl⟩ := h
  refine combine_fits ?_ (isPrimary_fits hinner) hchain
  intro extent first others
  rw [Expression.outline, Expression.outlines_eq]

theorem isDisjunction_fits (hinner : InnerFits Inner) (ts : Tokens) (e : Expression)
    (h : IsDisjunction levels Inner ts e) : Outline.Fits ts e.outline := by
  obtain ⟨first, others, hchain, rfl⟩ := h
  refine combine_fits ?_ (isConjunction_fits hinner) hchain
  intro extent first others
  rw [Expression.outline, Expression.outlines_eq]

end

/-- The tokens of an expression are read as its outline. -/
theorem isExpression_fits (levels : Nat) (ts : Tokens) (e : Expression)
    (h : IsExpression levels ts e) : Outline.Fits ts e.outline := by
  -- By induction on the levels: what stands inside brackets is on one level less.
  induction levels generalizing ts e with
  | zero =>
    refine isDisjunction_fits ?_ ts e h
    intro R hR
    cases hR
  | succ levels ih =>
    refine isDisjunction_fits ?_ ts e h
    intro R hR
    cases hR
    exact ih

end Criteria.Language
