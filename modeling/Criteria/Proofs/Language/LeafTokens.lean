import Criteria.Proofs.Language.Compiling
import Criteria.Proofs.Language.Layout
import Criteria.Proofs.Language.Leaves

/-! # The tokens of leaves

Each leaf of a derived expression has a run of tokens of its own: a comparison its operand, operator
and parameter, an existence test the path of its relationships, without the name of a method behind
it. The runs stand in the order of the leaves (`isExpression_scattered`), and the range of a leaf is
that of its run (`Leaf.IsWritten.spans`).
-/

set_option autoImplicit false

namespace Criteria.Language

open Grammar Criteria.Language.Derivation

/-! ## Runs of terms, paths and parameters -/

theorem areNames_last {t : Located Token} {ts : Tokens} {name : Located String}
    {names : List (Located String)} (h : AreNames ts (names ++ [name])) :
    ∃ us u, t :: ts = us ++ [u] ∧ u.extent.stop = name.extent.stop := by
  induction names generalizing t ts with
  | nil =>
    cases h with
    | @cons before u _ _ _ _ _ tail =>
      cases tail
      exact ⟨[t, before], u, rfl, rfl⟩
  | cons first names ih =>
    cases h with
    | @cons before u _ _ _ _ _ tail =>
      obtain ⟨us, v, hus, hstop⟩ := ih (t := u) tail
      exact ⟨t :: before :: us, v, by rw [hus]; rfl, hstop⟩

theorem isPath_spans {ts : Tokens} {p : Path} (h : IsPath ts p) : Spans ts p.extent := by
  obtain ⟨hroot, hnames, hp⟩ := h
  obtain ⟨hsegments, hroot⟩ := segments_of_ofSegments? hp
  rw [← hsegments] at hnames
  refine ⟨⟨_, _, rfl, ?_⟩, areNames_last hnames⟩
  rw [Path.extent, hroot]

theorem isTerm_spans {levels : Nat} {ts : Tokens} {t : Term} (h : IsTerm levels ts t) :
    Spans ts t.extent := by
  cases h with
  | path h => exact isPath_spans h
  | @call _ t u v ts us _ _ _ _ _ _ _ _ =>
    have hrun := Spans.between t (u :: (ts ++ us)) v
    rw [List.cons_append, List.append_assoc] at hrun
    exact hrun

theorem isUnary_spans {ts : Tokens} {c : Comparator} {stop : Nat} (h : IsUnary ts (c, stop)) :
    ∃ start, Spans ts ⟨start, stop⟩ := by
  cases h with
  | @isNull t u => exact ⟨_, Spans.between t [] u⟩
  | @isNotNull t u v => exact ⟨_, Spans.between t [u] v⟩
  | @equalsEdgePoint t => exact ⟨_, Spans.single⟩

theorem isParameter_spans {ts : Tokens} {l : Located Literal} (h : IsParameter ts l) :
    Spans ts l.extent := by
  cases h with
  | literal h =>
    cases h with
    | mk h => exact .single
  | @list ts t u _ _ _ _ _ => exact .between t ts u

/-! ## Runs of leaves -/

namespace Leaf

/-- The run of tokens writes the leaf. -/
inductive IsWritten : Tokens → Leaf → Prop
  | unary {levels : Nat} {ts us : Tokens} {operand : Term} {c : Comparator} {stop : Nat}
      (hoperand : IsTerm levels ts operand) (h : IsUnary us (c, stop)) :
      IsWritten (ts ++ us) (.comparison ⟨operand.extent.start, stop⟩ operand c .empty)
  | binary {levels : Nat} {ts us vs : Tokens} {operand : Term} {c : Comparator}
      {l : Located Literal} (hoperand : IsTerm levels ts operand) (hcomparator : IsComparator us c)
      (hparameter : IsParameter vs l) : IsWritten (ts ++ (us ++ vs))
        (.comparison ⟨operand.extent.start, l.extent.stop⟩ operand c (.value l.value))
  | existence {ts : Tokens} {navigation : Path} {test : Existence} (h : IsPath ts navigation) :
      IsWritten ts (.existence navigation test)

/-- The range of a leaf is that of its run. -/
theorem IsWritten.spans {ts : Tokens} {leaf : Leaf} (h : IsWritten ts leaf) :
    Spans ts leaf.extent := by
  cases h with
  | unary hoperand h =>
    obtain ⟨start, hrun⟩ := isUnary_spans h
    exact (isTerm_spans hoperand).append hrun
  | @binary _ ts us _ _ _ _ hoperand hcomparator hparameter =>
    obtain ⟨⟨t, ts', rfl, hstart⟩, -⟩ := isTerm_spans hoperand
    obtain ⟨-, ⟨vs, v, rfl, hstop⟩⟩ := isParameter_spans hparameter
    exact ⟨⟨t, ts' ++ (us ++ (vs ++ [v])), rfl, hstart⟩,
      ⟨t :: ts' ++ (us ++ vs), v, by simp, hstop⟩⟩
  | existence h => exact isPath_spans h

end Leaf

/-! ## Runs of expressions -/

section

variable {levels : Nat} {Inner : Option (Production Expression)}

/-- The leaves of what may stand inside a bracket have runs in their order. -/
def InnerScattered (Inner : Option (Production Expression)) : Prop :=
  ∀ R, Inner = some R → ∀ ts e, R ts e → Scattered Leaf.IsWritten ts (e.leaves.map (·.leaf))

theorem chain_scattered {separator : Symbol} {R : Production Expression}
    (h : ∀ ts e, R ts e → Scattered Leaf.IsWritten ts (e.leaves.map (·.leaf))) {ts : Tokens}
    {a : Expression × List Expression} (hchain : Chain separator R ts a) :
    Scattered Leaf.IsWritten ts ((a.1.leaves ++ Expression.leavesOfList a.2).map (·.leaf)) := by
  induction hchain with
  | one item =>
    rw [Expression.leavesOfList, List.append_nil]
    exact h _ _ item
  | @more ts us first second others t item between tail ih =>
    rw [List.map_append, Expression.leavesOfList]
    exact (h _ _ item).append (ih.behind [t])

/-- One operand has its own leaves, and several have theirs one after the other. -/
theorem leaves_combine {combination : Extent → Expression → List Expression → Expression}
    (hcombination : ∀ extent first others, (combination extent first others).leaves =
      first.leaves ++ Expression.leavesOfList others) (first : Expression)
    (others : List Expression) :
    (combine combination first others).leaves =
      first.leaves ++ Expression.leavesOfList others := by
  unfold combine
  split
  · rename_i hothers
    rw [List.getLast?_eq_none_iff.1 hothers, Expression.leavesOfList, List.append_nil]
  · exact hcombination _ _ _

theorem isComparison_written {operand : Term} {ts us : Tokens} {e : Expression}
    (hoperand : IsTerm levels ts operand) (h : IsComparison operand us e) :
    Scattered Leaf.IsWritten (ts ++ us) (e.leaves.map (·.leaf)) := by
  cases h with
  | unary h => exact .single (.unary hoperand h)
  | binary hcomparator hparameter => exact .single (.binary hoperand hcomparator hparameter)

theorem areNames_append {ts : Tokens} {names others : List (Located String)}
    (h : AreNames ts (names ++ others)) : ∃ us vs, ts = us ++ vs ∧ AreNames us names := by
  induction names generalizing ts with
  | nil => exact ⟨[], ts, rfl, .nil⟩
  | cons name names ih =>
    cases h with
    | @cons t u _ _ _ before hname tail =>
      obtain ⟨us, vs, rfl, hus⟩ := ih tail
      exact ⟨t :: u :: us, vs, rfl, .cons before hname hus⟩

/-- The tokens of a path begin with those of the path without its last name. -/
theorem isPath_parent? {ts : Tokens} {p navigation : Path} (h : IsPath ts p)
    (hparent : p.parent? = some navigation) :
    ∃ us vs, ts = us ++ vs ∧ IsPath us navigation := by
  obtain ⟨hroot, hnames, hp⟩ := h
  obtain ⟨hsegments, hroot'⟩ := segments_of_ofSegments? hp
  rw [← hsegments] at hnames
  obtain ⟨us, vs, rfl, hus⟩ := areNames_append hnames
  rw [Path.parent?, hroot'] at hparent
  exact ⟨_ :: us, vs, rfl, .mk hroot hus hparent⟩

/-- The leaf of an existence test stands in front of those of its filter. -/
theorem existence_scattered {run rest : Tokens} {navigation : Path} {test : Existence}
    {filter : Option Expression} {extent : Extent} (hnavigation : IsPath run navigation)
    (hfilter : Scattered Leaf.IsWritten rest ((Expression.leavesOfFilter filter).map (·.leaf))) :
    Scattered Leaf.IsWritten (run ++ rest)
      ((Expression.existence extent navigation test filter).leaves.map (·.leaf)) := by
  have hscattered : Scattered Leaf.IsWritten ([] ++ (run ++ rest))
      (.existence navigation test :: (Expression.leavesOfFilter filter).map (·.leaf)) :=
    .cons (.existence hnavigation) hfilter
  rw [Expression.leaves, List.map_cons, List.map_map]
  exact hscattered

theorem isExistence_scattered (hinner : InnerScattered Inner) {p : Path} {ts us : Tokens}
    {e : Expression} (hp : IsPath ts p) (h : IsExistence Inner p us e) :
    Scattered Leaf.IsWritten (ts ++ us) (e.leaves.map (·.leaf)) := by
  cases h with
  | @method t u us navigation test filter htest hparent opening hfilter closing =>
    obtain ⟨run, gap, rfl, hrun⟩ := isPath_parent? hp hparent
    have hleaves :
        Scattered Leaf.IsWritten us ((Expression.leavesOfFilter filter).map (·.leaf)) := by
      cases hfilter with
      | empty h => exact .nil
      | filter h he => exact hinner _ h _ _ he
    rw [List.append_assoc]
    exact existence_scattered hrun ((hleaves.between t u).behind gap)
  | present ht => exact existence_scattered hp .nil
  | absent ht hu => exact existence_scattered hp .nil
  | @absentWith R t u v w us e h ht hu opening he closing =>
    exact existence_scattered hp (((hinner _ h _ _ he).between v w).behind [t, u])

theorem isPrimary_scattered (hinner : InnerScattered Inner) (ts : Tokens) (e : Expression)
    (h : IsPrimary levels Inner ts e) : Scattered Leaf.IsWritten ts (e.leaves.map (·.leaf)) := by
  cases h with
  | all ht => exact .nil
  | none ht => exact .nil
  | @group R t u ts e h opening he closing =>
    rw [Expression.leaves]
    exact (hinner _ h _ _ he).between t u
  | leaf h =>
    cases h with
    | comparison hoperand h => exact isComparison_written hoperand h
    | existence hp h => exact isExistence_scattered hinner hp h

theorem isConjunction_scattered (hinner : InnerScattered Inner) (ts : Tokens) (e : Expression)
    (h : IsConjunction levels Inner ts e) :
    Scattered Leaf.IsWritten ts (e.leaves.map (·.leaf)) := by
  obtain ⟨first, others, hchain, rfl⟩ := h
  rw [leaves_combine fun extent first others => by rw [Expression.leaves]]
  exact chain_scattered (isPrimary_scattered hinner) hchain

theorem isDisjunction_scattered (hinner : InnerScattered Inner) (ts : Tokens) (e : Expression)
    (h : IsDisjunction levels Inner ts e) :
    Scattered Leaf.IsWritten ts (e.leaves.map (·.leaf)) := by
  obtain ⟨first, others, hchain, rfl⟩ := h
  rw [leaves_combine fun extent first others => by rw [Expression.leaves]]
  exact chain_scattered (isConjunction_scattered hinner) hchain

end

/-- The leaves of an expression have runs in their order. -/
theorem isExpression_scattered (levels : Nat) (ts : Tokens) (e : Expression)
    (h : IsExpression levels ts e) : Scattered Leaf.IsWritten ts (e.leaves.map (·.leaf)) := by
  -- By induction on the levels: what stands inside brackets is on one level less.
  induction levels generalizing ts e with
  | zero =>
    refine isDisjunction_scattered ?_ ts e h
    intro R hR
    cases hR
  | succ levels ih =>
    refine isDisjunction_scattered ?_ ts e h
    intro R hR
    cases hR
    exact ih

/-! ## The order of the leaves -/

/-- The tokens of a text that parses, and the runs of its leaves in them. -/
theorem parse_scattered {maxDepth : Nat} {source : String} {e : Expression}
    (h : Expression.parse maxDepth source = .ok e) :
    ∃ ts, tokensAt 0 source.toList = .ok ts ∧
      Scattered Leaf.IsWritten ts (e.leaves.map (·.leaf)) := by
  obtain ⟨ts, hts, h⟩ := bind_eq_ok.1 h
  exact ⟨ts, hts, isExpression_scattered _ ts e ((ofTokens_iff _).1 h)⟩

/-- The leaves are listed in the order of the source. -/
theorem parse_leaves_ordered {maxDepth : Nat} {source : String} {e : Expression}
    (h : Expression.parse maxDepth source = .ok e) :
    e.leaves.Pairwise fun l m => l.leaf.extent.Before m.leaf.extent := by
  obtain ⟨ts, hts, hscattered⟩ := parse_scattered h
  have hspans : ∀ run leaf, Leaf.IsWritten run leaf → Spans run leaf.extent :=
    fun _ _ => Leaf.IsWritten.spans
  have hordered := hscattered.ordered hspans (tokensAt_ordered hts)
  rw [List.pairwise_map] at hordered
  exact hordered

end Criteria.Language
