import Criteria.Proofs.Language.Cutting
import Criteria.Proofs.Language.Derivation

/-! # Expressions at other places

Tokens at other places make up the same expression at these other places, also if more levels of
nesting are allowed (`isExpression_moved`): no production of the grammar looks at the place of a
token.
-/

set_option autoImplicit false

namespace Criteria.Language

open Number Grammar Criteria.Language.Derivation

/-! ## Moving expressions -/

variable (f : Nat → Nat)

theorem Located.map_moved_moved {α : Type} (g : Nat → Nat) (as : List (Located α)) :
    (as.map (·.moved g)).map (·.moved f) = as.map (·.moved (f ∘ g)) := List.map_map

theorem Located.map_moved_id {α : Type} (as : List (Located α)) : as.map (·.moved id) = as :=
  List.map_id as

/-- A path at another place. -/
def Path.moved (p : Path) : Path := ⟨p.root.moved f, p.hops.map (·.moved f), p.last.moved f⟩

/-- A term at another place. -/
def Term.moved : Term → Term
  | path p => .path (p.moved f)
  | call extent name argument integers =>
    .call (extent.moved f) (name.moved f) argument.moved (integers.map (·.moved f))

namespace Expression

mutual

/-- An expression at another place. -/
def moved : Expression → Expression
  | all extent => .all (extent.moved f)
  | none extent => .none (extent.moved f)
  | conjunction extent first others =>
    .conjunction (extent.moved f) first.moved (movedList others)
  | disjunction extent first others =>
    .disjunction (extent.moved f) first.moved (movedList others)
  | group extent inner => .group (extent.moved f) inner.moved
  | unary extent operand comparator => .unary (extent.moved f) (operand.moved f) comparator
  | binary extent operand comparator parameter =>
    .binary (extent.moved f) (operand.moved f) comparator (parameter.moved f)
  | existence extent navigation test filter =>
    .existence (extent.moved f) (navigation.moved f) test (movedFilter filter)

/-- The operands of a combination at other places. -/
def movedList : List Expression → List Expression
  | [] => []
  | e :: es => e.moved :: movedList es

/-- A filter at another place. -/
def movedFilter : Option Expression → Option Expression
  | .none => .none
  | some e => some e.moved

end

theorem movedList_eq (es : List Expression) : movedList f es = es.map (moved f) := by
  induction es with
  | nil => rw [movedList, List.map_nil]
  | cons e es ih => rw [movedList, List.map_cons, ih]

theorem extent_moved (e : Expression) : (e.moved f).extent = e.extent.moved f := by
  cases e <;> rw [moved] <;> rfl

end Expression

theorem Term.extent_moved (t : Term) : (t.moved f).extent = t.extent.moved f := by
  cases t <;> rfl

/-- A range that starts with a term still does. -/
theorem Term.moved_range (t : Term) (stop : Nat) :
    Extent.moved f ⟨t.extent.start, stop⟩ = ⟨(t.moved f).extent.start, f stop⟩ := by
  rw [extent_moved]
  rfl

/-! ## Staying in place -/

theorem Path.moved_id (p : Path) : p.moved id = p := by
  rw [Path.moved, Located.map_moved_id]
  rfl

theorem Term.moved_id (t : Term) : t.moved id = t := by
  induction t with
  | path p => rw [moved, Path.moved_id]
  | call extent name argument integers ih =>
    rw [moved, ih, Located.map_moved_id]
    rfl

namespace Expression

mutual

theorem moved_id : ∀ e : Expression, e.moved id = e
  | all _ => by rw [moved]; rfl
  | none _ => by rw [moved]; rfl
  | conjunction _ first others => by rw [moved, moved_id first, movedList_id others]; rfl
  | disjunction _ first others => by rw [moved, moved_id first, movedList_id others]; rfl
  | group _ inner => by rw [moved, moved_id inner]; rfl
  | unary _ operand _ => by rw [moved, operand.moved_id]; rfl
  | binary _ operand _ _ => by rw [moved, operand.moved_id]; rfl
  | existence _ navigation _ filter => by
    rw [moved, navigation.moved_id, movedFilter_id filter]; rfl

theorem movedList_id : ∀ es : List Expression, movedList id es = es
  | [] => by rw [movedList]
  | e :: es => by rw [movedList, moved_id e, movedList_id es]

theorem movedFilter_id : ∀ filter : Option Expression, movedFilter id filter = filter
  | .none => by rw [movedFilter]
  | some e => by rw [movedFilter, moved_id e]

end

end Expression

/-! ## Moving derivations -/

/-- The items of a chain at other places. -/
theorem chain_moved {α : Type} {separator : Symbol} {R R' : Production α} {m : α → α}
    (h : ∀ ts a, R ts a → R' (ts.map (·.moved f)) (m a)) {ts : Tokens} {a : α × List α}
    (hchain : Chain separator R ts a) :
    Chain separator R' (ts.map (·.moved f)) (m a.1, a.2.map m) := by
  induction hchain with
  | one item => exact .one (h _ _ item)
  | more item between tail ih =>
    rw [List.map_append, List.map_cons]
    exact .more (h _ _ item) between ih

theorem isLiteral_moved {ts : Tokens} {l : Located Literal} (h : IsLiteral ts l) :
    IsLiteral (ts.map (·.moved f)) (l.moved f) := by
  cases h with
  | @mk t _ h => exact .mk (t := t.moved f) h

theorem isParameter_moved {ts : Tokens} {l : Located Literal} (h : IsParameter ts l) :
    IsParameter (ts.map (·.moved f)) (l.moved f) := by
  cases h with
  | literal h => exact .literal (isLiteral_moved f h)
  | @list ts t u first others opening items closing =>
    have hitems : Chain .comma IsLiteral (ts.map (·.moved f))
        (first.moved f, others.map (·.moved f)) :=
      chain_moved f (m := Located.moved f) (fun _ _ => isLiteral_moved f) items
    have hlist := IsParameter.list (t := t.moved f) (u := u.moved f) opening hitems closing
    rw [← List.map_cons, List.map_map] at hlist
    rw [List.map_cons, List.map_append]
    exact hlist

theorem isComparator_moved {ts : Tokens} {c : Comparator} (h : IsComparator ts c) :
    IsComparator (ts.map (·.moved f)) c := by
  cases h with
  | plain h => exact .plain h
  | negated before h => exact .negated before h

theorem isUnary_moved {ts : Tokens} {c : Comparator} {stop : Nat} (h : IsUnary ts (c, stop)) :
    IsUnary (ts.map (·.moved f)) (c, f stop) := by
  cases h with
  | @isNull t u ht hu => exact .isNull (t := t.moved f) (u := u.moved f) ht hu
  | @isNotNull t u v ht hu hv =>
    exact .isNotNull (t := t.moved f) (u := u.moved f) (v := v.moved f) ht hu hv
  | @equalsEdgePoint t ht => exact .equalsEdgePoint (t := t.moved f) ht

theorem areNames_moved {ts : Tokens} {names : List (Located String)} (h : AreNames ts names) :
    AreNames (ts.map (·.moved f)) (names.map (·.moved f)) := by
  induction h with
  | nil => exact .nil
  | @cons t u _ _ _ before h tail ih => exact .cons (t := t.moved f) (u := u.moved f) before h ih

theorem Path.ofSegments?_moved {root : Located Root} {segments : List (Located String)} {p : Path}
    (h : ofSegments? root segments = some p) :
    ofSegments? (root.moved f) (segments.map (·.moved f)) = some (p.moved f) := by
  obtain ⟨last, hlast, rfl⟩ := Option.map_eq_some_iff.1 h
  rw [ofSegments?, List.getLast?_map, hlast, ← List.map_dropLast]
  rfl

theorem isPath_moved {ts : Tokens} {p : Path} (h : IsPath ts p) :
    IsPath (ts.map (·.moved f)) (p.moved f) := by
  obtain ⟨hroot, hnames, hp⟩ := h
  exact .mk (t := Located.moved f _) hroot (areNames_moved f hnames) (Path.ofSegments?_moved f hp)

theorem areIntegers_moved {ts : Tokens} {integers : List (Located (Word 64))}
    (h : AreIntegers ts integers) :
    AreIntegers (ts.map (·.moved f)) (integers.map (·.moved f)) := by
  induction h with
  | nil => exact .nil
  | @cons t u _ _ _ before h tail ih => exact .cons (t := t.moved f) (u := u.moved f) before h ih

/-- Here and below, more levels are no obstacle either. -/
theorem isTerm_moved {levels levels' : Nat} {ts : Tokens} {t : Term} (hlevels : levels ≤ levels')
    (h : IsTerm levels ts t) : IsTerm levels' (ts.map (·.moved f)) (t.moved f) := by
  induction h generalizing levels' with
  | path h => exact .path (isPath_moved f h)
  | @call levels t u v ts us name argument integers ht opening hargument hintegers closing ih =>
    obtain ⟨levels', rfl⟩ : ∃ l, levels' = l + 1 := ⟨levels' - 1, by omega⟩
    have hinner : levels ≤ levels' := by omega
    have hcall := IsTerm.call (t := t.moved f) (u := u.moved f) (v := v.moved f) ht opening
      (ih hinner) (areIntegers_moved f hintegers) closing
    simp only [List.map_cons, List.map_append, List.map_nil]
    exact hcall

theorem isComparison_moved {operand : Term} {ts : Tokens} {e : Expression}
    (h : IsComparison operand ts e) :
    IsComparison (operand.moved f) (ts.map (·.moved f)) (e.moved f) := by
  cases h with
  | unary h =>
    rw [Expression.moved, Term.moved_range]
    exact .unary (isUnary_moved f h)
  | binary hcomparator hparameter =>
    rw [Expression.moved, List.map_append, Term.moved_range]
    exact .binary (isComparator_moved f hcomparator) (isParameter_moved f hparameter)

section

variable {levels levels' : Nat} {Inner Inner' : Option (Production Expression)}

/-- What stands inside brackets may stand inside the others at other places. -/
def InnerMoved (f : Nat → Nat) (Inner Inner' : Option (Production Expression)) : Prop :=
  ∀ R, Inner = some R → ∃ R', Inner' = some R' ∧
    ∀ ts e, R ts e → R' (ts.map (·.moved f)) (e.moved f)

theorem isFilter_moved (hinner : InnerMoved f Inner Inner') {ts : Tokens}
    {filter : Option Expression} (h : IsFilter Inner ts filter) :
    IsFilter Inner' (ts.map (·.moved f)) (Expression.movedFilter f filter) := by
  cases h with
  | empty h =>
    obtain ⟨R', hR', -⟩ := hinner _ h
    rw [Expression.movedFilter]
    exact .empty hR'
  | filter h he =>
    obtain ⟨R', hR', hmoved⟩ := hinner _ h
    rw [Expression.movedFilter]
    exact .filter hR' (hmoved _ _ he)

theorem isExistence_moved (hinner : InnerMoved f Inner Inner') {p : Path} {ts : Tokens}
    {e : Expression} (h : IsExistence Inner p ts e) :
    IsExistence Inner' (p.moved f) (ts.map (·.moved f)) (e.moved f) := by
  cases h with
  | @method t u ts navigation test filter htest hparent opening hfilter closing =>
    have hmoved := IsExistence.method (p := p.moved f) (t := t.moved f) (u := u.moved f) htest
      (Path.ofSegments?_moved f hparent) opening (isFilter_moved f hinner hfilter) closing
    rw [Expression.moved, List.map_cons, List.map_append]
    exact hmoved
  | @present t ht =>
    rw [Expression.moved, Expression.movedFilter]
    exact .present (p := p.moved f) (t := t.moved f) ht
  | @absent t u ht hu =>
    rw [Expression.moved, Expression.movedFilter]
    exact .absent (p := p.moved f) (t := t.moved f) (u := u.moved f) ht hu
  | @absentWith R t u v w ts e h ht hu opening he closing =>
    obtain ⟨R', hR', hmoved⟩ := hinner _ h
    have hexistence := IsExistence.absentWith (p := p.moved f) (t := t.moved f) (u := u.moved f)
      (v := v.moved f) (w := w.moved f) hR' ht hu opening (hmoved _ _ he) closing
    rw [Expression.moved, Expression.movedFilter]
    simp only [List.map_cons, List.map_append, List.map_nil]
    exact hexistence

theorem isPrimary_moved (hlevels : levels ≤ levels') (hinner : InnerMoved f Inner Inner')
    (ts : Tokens) (e : Expression) (h : IsPrimary levels Inner ts e) :
    IsPrimary levels' Inner' (ts.map (·.moved f)) (e.moved f) := by
  cases h with
  | @all t ht =>
    rw [Expression.moved]
    exact .all (t := t.moved f) ht
  | @none t ht =>
    rw [Expression.moved]
    exact .none (t := t.moved f) ht
  | @group R t u ts e h opening he closing =>
    obtain ⟨R', hR', hmoved⟩ := hinner _ h
    rw [Expression.moved, List.map_cons, List.map_append]
    exact .group (t := t.moved f) (u := u.moved f) hR' opening (hmoved _ _ he) closing
  | leaf h =>
    cases h with
    | comparison hoperand h =>
      rw [List.map_append]
      exact .leaf (.comparison (isTerm_moved f hlevels hoperand) (isComparison_moved f h))
    | existence hp h =>
      rw [List.map_append]
      exact .leaf (.existence (isPath_moved f hp) (isExistence_moved f hinner h))

/-- The range of a combination is given by its operands, so it moves with them. -/
theorem combine_moved {combination : Extent → Expression → List Expression → Expression}
    (hcombination : ∀ extent first others, (combination extent first others).moved f =
      combination (extent.moved f) (first.moved f) (others.map (·.moved f)))
    (first : Expression) (others : List Expression) :
    (combine combination first others).moved f =
      combine combination (first.moved f) (others.map (·.moved f)) := by
  unfold combine
  rw [List.getLast?_map]
  cases others.getLast? with
  | none => rfl
  | some last =>
    dsimp only [Option.map_some]
    rw [hcombination, Expression.extent_moved, Expression.extent_moved]
    rfl

theorem isConjunction_moved (hlevels : levels ≤ levels') (hinner : InnerMoved f Inner Inner')
    (ts : Tokens) (e : Expression) (h : IsConjunction levels Inner ts e) :
    IsConjunction levels' Inner' (ts.map (·.moved f)) (e.moved f) := by
  obtain ⟨first, others, hchain, rfl⟩ := h
  refine ⟨_, _, chain_moved f (isPrimary_moved f hlevels hinner) hchain, combine_moved f ?_ _ _⟩
  intro extent first others
  rw [Expression.moved, Expression.movedList_eq]

theorem isDisjunction_moved (hlevels : levels ≤ levels') (hinner : InnerMoved f Inner Inner')
    (ts : Tokens) (e : Expression) (h : IsDisjunction levels Inner ts e) :
    IsDisjunction levels' Inner' (ts.map (·.moved f)) (e.moved f) := by
  obtain ⟨first, others, hchain, rfl⟩ := h
  refine ⟨_, _, chain_moved f (isConjunction_moved f hlevels hinner) hchain, combine_moved f ?_ _ _⟩
  intro extent first others
  rw [Expression.moved, Expression.movedList_eq]

end

/-- Tokens at other places make up the same expression at these places, whatever more levels are
allowed. -/
theorem isExpression_moved {levels levels' : Nat} (hlevels : levels ≤ levels') (ts : Tokens)
    (e : Expression) (h : IsExpression levels ts e) :
    IsExpression levels' (ts.map (·.moved f)) (e.moved f) := by
  -- By induction on the levels: what stands inside brackets is on one level less.
  induction levels generalizing levels' ts e with
  | zero =>
    rw [isExpression_eq] at h ⊢
    refine isDisjunction_moved f hlevels ?_ ts e h
    intro R hR
    cases hR
  | succ levels ih =>
    obtain ⟨levels', rfl⟩ : ∃ l, levels' = l + 1 := ⟨levels' - 1, by omega⟩
    have hinner : levels ≤ levels' := by omega
    refine isDisjunction_moved f hlevels ?_ ts e h
    intro R hR
    cases hR
    exact ⟨_, rfl, ih hinner⟩

/-- An expression of few levels is one of more levels. -/
theorem isExpression_of_le {levels levels' : Nat} (hlevels : levels ≤ levels') {ts : Tokens}
    {e : Expression} (h : IsExpression levels ts e) : IsExpression levels' ts e := by
  have hmoved := isExpression_moved id hlevels ts e h
  rw [Located.map_moved_id, e.moved_id] at hmoved
  exact hmoved

end Criteria.Language
