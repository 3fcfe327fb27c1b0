import Criteria.Proofs.Agreement
import Criteria.Proofs.Predicate.Shape

/-! # How chains are grouped

Parentheses around some operands of a chain of `&`, or of `|`, make no difference. `Predicate.and`
and `Predicate.or` are associative for predicates of all shapes, and so are they where operands can
be rejected: the first rejection from the left is the outcome in either grouping. Without such
parentheses an expression comes to the same verdict (`Expression.verdict_ungrouped`), so two sources
that differ in nothing else say the same (`grouping_irrelevant`).
-/

set_option autoImplicit false

namespace Criteria

/-! ## Predicates -/

namespace Predicate

theorem and_ne_all {p q : Predicate} (hp : p ≠ all) : p.and q ≠ all := by
  by_cases hq : q = all
  · rw [hq, and_all]
    exact hp
  · rw [and_eq hp hq]
    exact nofun

protected theorem and_assoc (p q r : Predicate) : (p.and q).and r = p.and (q.and r) := by
  by_cases hp : p = all
  · rw [hp, all_and, all_and]
  by_cases hq : q = all
  · rw [hq, and_all, all_and]
  by_cases hr : r = all
  · rw [hr, and_all, and_all]
  rw [and_eq (and_ne_all hp) hr, and_eq hp (and_ne_all hq), and_eq hp hq, and_eq hq hr]
  exact congrArg conjunction (List.append_assoc _ _ _)

protected theorem or_assoc (p q r : Predicate) : (p.or q).or r = p.or (q.or r) := by
  rw [or_eq (p.or q), or_eq p (q.or r), or_eq p q, or_eq q r]
  exact congrArg disjunction (List.append_assoc _ _ _)

end Predicate

namespace Language

/-! ## Results -/

/-- Both results joined, or the first rejection. -/
def both (join : Predicate → Predicate → Predicate) (r r' : Except Rejection Predicate) :
    Except Rejection Predicate := do
  let p ← r
  let q ← r'
  .ok (join p q)

theorem foldl_both_error (join : Predicate → Predicate → Predicate)
    (rs : List (Except Rejection Predicate)) (r : Rejection) :
    rs.foldl (both join) (.error r) = .error r := by
  induction rs with
  | nil => rfl
  | cons _ rs ih => exact ih

/-- Results are joined associatively if predicates are. -/
theorem both_assoc {join : Predicate → Predicate → Predicate}
    (h : ∀ p q r, join (join p q) r = join p (join q r)) :
    Std.Associative (both join) where
  assoc r r' r'' := by
    cases r with
    | error e => rfl
    | ok p =>
      cases r' with
      | error e => rfl
      | ok q =>
        cases r'' with
        | error e => rfl
        | ok s => exact congrArg Except.ok (h p q s)

/-! ## Expressions -/

namespace Expression

/-- The operands of a chain of `&`, the first one apart; whatever else is its own only operand. -/
def conjuncts : Expression → Expression × List Expression
  | conjunction _ first others => (first, others)
  | e => (e, [])

/-- The operands of a chain of `|`, the first one apart; whatever else is its own only operand. -/
def disjuncts : Expression → Expression × List Expression
  | disjunction _ first others => (first, others)
  | e => (e, [])

/-- The operands of the operands in one chain. -/
def spliced (operands : Expression → Expression × List Expression) (first : Expression)
    (others : List Expression) : Expression × List Expression :=
  ((operands first).1,
    (operands first).2 ++ others.flatMap fun e => (operands e).1 :: (operands e).2)

mutual

/-- The expression without places and without parentheses. Operands that are chains of the same
connective are part of the chain around them. -/
def ungrouped : Expression → Expression
  | all _ => .all .blank
  | none _ => .none .blank
  | conjunction _ first others =>
    let chain := spliced conjuncts first.ungrouped (ungroupedList others)
    .conjunction .blank chain.1 chain.2
  | disjunction _ first others =>
    let chain := spliced disjuncts first.ungrouped (ungroupedList others)
    .disjunction .blank chain.1 chain.2
  | group _ inner => inner.ungrouped
  | unary _ operand comparator => .unary .blank operand.unplaced comparator
  | binary _ operand comparator parameter =>
    .binary .blank operand.unplaced comparator parameter.unplaced
  | existence _ navigation test filter =>
    .existence .blank navigation.unplaced test (ungroupedFilter filter)

/-- The operands of a combination, each without places and parentheses. -/
def ungroupedList : List Expression → List Expression
  | [] => []
  | e :: es => e.ungrouped :: ungroupedList es

/-- A filter without places and parentheses. -/
def ungroupedFilter : Option Expression → Option Expression
  | .none => .none
  | some e => some e.ungrouped

end

theorem ungroupedList_append (es fs : List Expression) :
    ungroupedList (es ++ fs) = ungroupedList es ++ ungroupedList fs := by
  induction es with
  | nil => rfl
  | cons e es ih => rw [List.cons_append, ungroupedList, ungroupedList, ih, List.cons_append]

/-- The operands of a conjunction can be taken out of their parentheses wherever these stand in a
conjunction. -/
theorem ungrouped_conjunction (x y z x' : Extent) (first e : Expression)
    (before es after : List Expression) :
    (conjunction x (group y (conjunction z e es)) after).ungrouped =
        (conjunction x' e (es ++ after)).ungrouped ∧
      (conjunction x first (before ++ group y (conjunction z e es) :: after)).ungrouped =
        (conjunction x' first (before ++ (e :: es) ++ after)).ungrouped := by
  simp [ungrouped, ungroupedList, ungroupedList_append, spliced, conjuncts]

/-- The operands of a disjunction can be taken out of their parentheses wherever these stand in a
disjunction. -/
theorem ungrouped_disjunction (x y z x' : Extent) (first e : Expression)
    (before es after : List Expression) :
    (disjunction x (group y (disjunction z e es)) after).ungrouped =
        (disjunction x' e (es ++ after)).ungrouped ∧
      (disjunction x first (before ++ group y (disjunction z e es) :: after)).ungrouped =
        (disjunction x' first (before ++ (e :: es) ++ after)).ungrouped := by
  simp [ungrouped, ungroupedList, ungroupedList_append, spliced, disjuncts]

/-! ## Verdicts -/

variable (c : Catalog) (limits : Limits) (s : Scope)

/-- The predicate of the expression, or why it has none, without the place. -/
def verdict (e : Expression) : Except Rejection Predicate :=
  (e.toPredicate c limits s).mapError (·.rejection)

theorem mapError_bind {ε δ α β : Type} (x : Except ε α) (f : α → Except ε β) (g : ε → δ) :
    (x >>= f).mapError g = x.mapError g >>= fun a => (f a).mapError g := by
  cases x <;> rfl

theorem mapError_atExtent {α : Type} (extent : Extent) (r : Except Rejection α) :
    (atExtent extent r).mapError (·.rejection) = r := by
  cases r <;> rfl

/-- The operands behind the first one are joined to it up to the first one that is rejected. -/
theorem foldOthers_verdict (join : Predicate → Predicate → Predicate) (p : Predicate)
    (es : List Expression) :
    (foldOthers c limits s join p es).mapError (·.rejection) =
      (es.map (verdict c limits s)).foldl (both join) (.ok p) := by
  induction es generalizing p with
  | nil => rfl
  | cons e es ih =>
    rw [foldOthers, mapError_bind, List.map_cons, List.foldl_cons]
    show (e.verdict c limits s >>= fun q => _) = _
    cases e.verdict c limits s with
    | error r => exact (foldl_both_error join _ r).symm
    | ok q => exact ih (join p q)

theorem combination_verdict (join : Predicate → Predicate → Predicate) (first : Expression)
    (others : List Expression) :
    (first.toPredicate c limits s >>= fun p =>
        foldOthers c limits s join p others).mapError (·.rejection) =
      (others.map (verdict c limits s)).foldl (both join) (first.verdict c limits s) := by
  simp only [mapError_bind, foldOthers_verdict]
  show (first.verdict c limits s >>= fun p => _) = _
  cases first.verdict c limits s with
  | error r => exact (foldl_both_error join _ r).symm
  | ok p => rfl

theorem verdict_conjunction (extent : Extent) (first : Expression) (others : List Expression) :
    (conjunction extent first others).verdict c limits s =
      (others.map (verdict c limits s)).foldl (both Predicate.and) (first.verdict c limits s) :=
  combination_verdict c limits s Predicate.and first others

theorem verdict_disjunction (extent : Extent) (first : Expression) (others : List Expression) :
    (disjunction extent first others).verdict c limits s =
      (others.map (verdict c limits s)).foldl (both Predicate.or) (first.verdict c limits s) :=
  combination_verdict c limits s Predicate.or first others

theorem verdict_unary (extent : Extent) (operand : Term) (comparator : Comparator) :
    (unary extent operand comparator).verdict c limits s =
      operand.resolve c s >>= fun a => a.compare limits comparator .empty :=
  mapError_atExtent extent _

theorem verdict_binary (extent : Extent) (operand : Term) (comparator : Comparator)
    (parameter : Located Literal) :
    (binary extent operand comparator parameter).verdict c limits s =
      operand.resolve c s >>= fun a => a.compare limits comparator (.value parameter.value) :=
  mapError_atExtent extent _

/-- The verdict on a filter, if there is one. -/
def filterVerdict : Option Expression → Except Rejection (Option Predicate)
  | .none => .ok .none
  | some e => (e.verdict c limits s).map some

theorem toFilter_verdict (filter : Option Expression) :
    (toFilter c limits s filter).mapError (·.rejection) = filterVerdict c limits s filter := by
  cases filter with
  | none => rfl
  | some e => exact mapError_bind _ _ _

theorem verdict_existence (extent : Extent) (navigation : Path) (test : Existence)
    (filter : Option Expression) :
    (existence extent navigation test filter).verdict c limits s = (do
      let target ← navigation.navigate c s
      let inner ← filterVerdict c limits target.rebase filter
      .ok (.existence test ⟨target.rootType, target.navigation, target.currentType⟩ inner)) := by
  rw [verdict, toPredicate]
  simp only [mapError_bind, mapError_atExtent, toFilter_verdict]
  rfl

/-! ## Chains in chains -/

/-- What is joined along a chain does not depend on which of its operands are chains. -/
theorem foldl_spliced {α : Type} {op : α → α → α} [Std.Associative op] {judge : Expression → α}
    {operands : Expression → Expression × List Expression}
    (h : ∀ e, ((operands e).2.map judge).foldl op (judge (operands e).1) = judge e)
    (first : Expression) (others : List Expression) :
    ((spliced operands first others).2.map judge).foldl op
        (judge (spliced operands first others).1) =
      (others.map judge).foldl op (judge first) := by
  unfold spliced
  rw [List.map_append, List.foldl_append, h first]
  -- Along the other operands, each joined as a whole to what is in front of it.
  generalize judge first = front
  induction others generalizing front with
  | nil => rfl
  | cons e es ih =>
    rw [List.flatMap_cons, List.map_append, List.foldl_append, List.map_cons, List.foldl_cons,
      List.foldl_assoc, h e, ih, List.map_cons, List.foldl_cons]

theorem verdict_conjuncts (e : Expression) :
    ((conjuncts e).2.map (verdict c limits s)).foldl (both Predicate.and)
      (verdict c limits s (conjuncts e).1) = e.verdict c limits s := by
  cases e with
  | conjunction extent first others => exact (verdict_conjunction c limits s _ first others).symm
  | _ => rfl

theorem verdict_disjuncts (e : Expression) :
    ((disjuncts e).2.map (verdict c limits s)).foldl (both Predicate.or)
      (verdict c limits s (disjuncts e).1) = e.verdict c limits s := by
  cases e with
  | disjunction extent first others => exact (verdict_disjunction c limits s _ first others).symm
  | _ => rfl

end Expression

/-! ## Places -/

section Places

variable (c : Catalog) (s : Scope)

theorem navigate_unplaced (p : Path) : p.unplaced.navigate c s = p.navigate c s := by
  have hsegments : p.unplaced.segments.map (·.value) = p.segments.map (·.value) := by
    simp [Path.segments, Path.unplaced, Located.unplaced, Located.nowhere]
  unfold Path.navigate
  rw [hsegments]
  rfl

theorem resolve_unplaced_path (p : Path) : p.unplaced.resolve c s = p.resolve c s := by
  have hhops : p.unplaced.hops.map (·.value) = p.hops.map (·.value) := by
    simp [Path.unplaced, Located.unplaced, Located.nowhere]
  unfold Path.resolve
  rw [hhops]
  rfl

theorem resolve_unplaced (t : Term) : t.unplaced.resolve c s = t.resolve c s := by
  induction t with
  | path p => exact resolve_unplaced_path c s p
  | call extent name argument integers ih =>
    have hintegers :
        (integers.map Located.unplaced).map (·.value) = integers.map (·.value) := by
      simp [Located.unplaced, Located.nowhere]
    rw [Term.unplaced, Term.resolve, Term.resolve, ih, hintegers]
    rfl

end Places

/-! ## Expressions without parentheses -/

namespace Expression

variable (c : Catalog) (limits : Limits)

mutual

/-- Places and the grouping of chains are no matter of the verdict. -/
theorem verdict_ungrouped (e : Expression) (s : Scope) :
    e.ungrouped.verdict c limits s = e.verdict c limits s := by
  cases e with
  | all extent => rfl
  | none extent => rfl
  | conjunction extent first others =>
    have hassoc := both_assoc Predicate.and_assoc
    rw [ungrouped, verdict_conjunction, verdict_conjunction,
      foldl_spliced (verdict_conjuncts c limits s), verdict_ungrouped first s,
      verdicts_ungrouped others s]
  | disjunction extent first others =>
    have hassoc := both_assoc Predicate.or_assoc
    rw [ungrouped, verdict_disjunction, verdict_disjunction,
      foldl_spliced (verdict_disjuncts c limits s), verdict_ungrouped first s,
      verdicts_ungrouped others s]
  | group extent inner => exact verdict_ungrouped inner s
  | unary extent operand comparator =>
    rw [ungrouped, verdict_unary, verdict_unary, resolve_unplaced]
  | binary extent operand comparator parameter =>
    rw [ungrouped, verdict_binary, verdict_binary, resolve_unplaced]
    rfl
  | existence extent navigation test filter =>
    rw [ungrouped, verdict_existence, verdict_existence, navigate_unplaced]
    simp only [filterVerdict_ungrouped filter]
termination_by structural e

theorem verdicts_ungrouped (es : List Expression) (s : Scope) :
    (ungroupedList es).map (verdict c limits s) = es.map (verdict c limits s) := by
  cases es with
  | nil => rfl
  | cons e es =>
    rw [ungroupedList, List.map_cons, List.map_cons, verdict_ungrouped e s, verdicts_ungrouped es s]
termination_by structural es

theorem filterVerdict_ungrouped (filter : Option Expression) (s : Scope) :
    filterVerdict c limits s (ungroupedFilter filter) = filterVerdict c limits s filter := by
  cases filter with
  | none => rfl
  | some e => rw [ungroupedFilter, filterVerdict, filterVerdict, verdict_ungrouped e s]
termination_by structural filter

end

end Expression

/-! ## Sources -/

/-- Results of one verdict say the same, wherever their faults are shown. -/
theorem agree_of_mapError {r r' : Except Fault Predicate} (source source' : List Char)
    (h : r.mapError (·.rejection) = r'.mapError (·.rejection)) :
    Agree (r.mapError fun fault => fault.rejection.inSource source fault.extent)
      (r'.mapError fun fault => fault.rejection.inSource source' fault.extent) := by
  cases r with
  | ok p =>
    cases r' with
    | ok q =>
      cases h
      exact .ok p
    | error fault => cases h
  | error fault =>
    cases r' with
    | ok q => cases h
    | error fault' =>
      obtain ⟨r, extent⟩ := fault
      obtain ⟨r', extent'⟩ := fault'
      obtain rfl : r = r' := Except.error.inj h
      exact .error rfl rfl

/-- Sources say the same if their expressions do not differ but in places and the grouping of
chains. -/
theorem agree_of_ungrouped {c : Catalog} {limits : Limits} {rootType source source' : String}
    {e e' : Expression} (h : Expression.parse limits.maxDepth source = .ok e)
    (h' : Expression.parse limits.maxDepth source' = .ok e')
    (hsame : e.ungrouped = e'.ungrouped) :
    Agree (compile c limits rootType source) (compile c limits rootType source') := by
  rw [compile_eq, compile_eq, h, h']
  cases c.root rootType with
  | error r => exact .error rfl rfl
  | ok s =>
    refine agree_of_mapError source.toList source'.toList ?_
    show e.verdict c limits s = e'.verdict c limits s
    rw [← Expression.verdict_ungrouped, hsame, Expression.verdict_ungrouped]

/-- How a chain is grouped never matters: not for the predicates that are joined, where `all` drops
out of conjunctions, and not for sources that differ in the grouping of chains at any depth. -/
theorem grouping_irrelevant :
    (∀ p q r : Predicate, (p.and q).and r = p.and (q.and r)) ∧
    (∀ p : Predicate, Predicate.all.and p = p ∧ p.and .all = p) ∧
    (∀ p q r : Predicate, (p.or q).or r = p.or (q.or r)) ∧
    ∀ (c : Catalog) (limits : Limits) (rootType source source' : String) (e e' : Expression),
      Expression.parse limits.maxDepth source = .ok e →
      Expression.parse limits.maxDepth source' = .ok e' →
      e.ungrouped = e'.ungrouped →
      Agree (compile c limits rootType source) (compile c limits rootType source') := by
  refine ⟨Predicate.and_assoc, fun p => ⟨p.all_and, p.and_all⟩, Predicate.or_assoc, ?_⟩
  intro c limits rootType source source' e e' h h' hsame
  exact agree_of_ungrouped h h' hsame

/-- Two groupings, one of a conjunction and of a disjunction in the filter of its last operand. -/
theorem staff_chains_agree :
    Agree
      (compile staff {} "Person"
        "this.name is null & (this.age > 3 & this.manager.exists(none | (all | this.age < 2)))")
      (compile staff {} "Person"
        "(this.name is null & this.age > 3) & this.manager.exists((none | all) | this.age < 2)") ∧
    ∃ p, compile staff {} "Person"
      "this.name is null & (this.age > 3 & this.manager.exists(none | (all | this.age < 2)))" =
        .ok p :=
  ⟨grouping_irrelevant.2.2.2 staff {} "Person" _ _ _ _ (by cbv) (by cbv) (by rfl), _, by cbv⟩

end Language

end Criteria
