import Criteria.Proofs.Runs

/-! # Two runs on a text

The names of a text are looked up one by one and its comparisons are checked one by one, so two runs
on it follow one another if they do so at every lookup and every comparison, and if they read the
text alike.
-/

set_option autoImplicit false

namespace Criteria.Language

variable {d : Difference Cause} {c c' : Catalog} {limits limits' : Limits}

theorem navigateAll_follows (lookups : LookupsFollow d c c') (names : List String) (s : Scope) :
    Follows d.rejections (c.navigateAll s names) (c'.navigateAll s names) := by
  unfold Catalog.navigateAll
  induction names generalizing s with
  | nil => exact .refl _
  | cons name names ih =>
    rw [List.foldlM_cons, List.foldlM_cons]
    exact (lookups.navigate s name).bind ih

theorem Path.navigate_follows (lookups : LookupsFollow d c c') (p : Path) (s : Scope) :
    Follows d.rejections (p.navigate c s) (p.navigate c' s) := by
  unfold Path.navigate
  apply Follows.bind_same
  intro _
  exact navigateAll_follows lookups _ s

theorem Path.resolve_follows (lookups : LookupsFollow d c c') (p : Path) (s : Scope) :
    Follows d.rejections (p.resolve c s) (p.resolve c' s) := by
  unfold Path.resolve
  apply Follows.bind_same
  intro _
  apply (navigateAll_follows lookups _ s).bind
  intro target
  exact lookups.attributeRef target _

theorem Term.resolve_follows (lookups : LookupsFollow d c c') (t : Term) (s : Scope) :
    Follows d.rejections (t.resolve c s) (t.resolve c' s) := by
  induction t with
  | path p => exact p.resolve_follows lookups s
  | call extent name argument integers ih =>
    rw [Term.resolve, Term.resolve]
    -- Which function is called and what it applies to is no matter of the catalog.
    apply ih.bind
    intro source
    exact .refl _

namespace Expression

mutual

theorem toPredicate_follows (lookups : LookupsFollow d c c')
    (compares : ComparesFollow d limits limits') (e : Expression) (s : Scope) :
    Follows d.faults (e.toPredicate c limits s) (e.toPredicate c' limits' s) := by
  cases e with
  | all extent => exact .refl _
  | none extent => exact .refl _
  | conjunction extent first others =>
    rw [toPredicate, toPredicate]
    apply (toPredicate_follows lookups compares first s).bind
    intro p
    exact foldOthers_follows lookups compares others s Predicate.and p
  | disjunction extent first others =>
    rw [toPredicate, toPredicate]
    apply (toPredicate_follows lookups compares first s).bind
    intro p
    exact foldOthers_follows lookups compares others s Predicate.or p
  | group extent inner =>
    rw [toPredicate, toPredicate]
    exact toPredicate_follows lookups compares inner s
  | unary extent operand comparator =>
    rw [toPredicate, toPredicate]
    apply Follows.atExtent
    apply (operand.resolve_follows lookups s).bind
    intro a
    exact compares a comparator .empty
  | binary extent operand comparator parameter =>
    rw [toPredicate, toPredicate]
    apply Follows.atExtent
    apply (operand.resolve_follows lookups s).bind
    intro a
    exact compares a comparator (.value parameter.value)
  | existence extent navigation test filter =>
    rw [toPredicate, toPredicate]
    apply ((navigation.navigate_follows lookups s).atExtent navigation.extent).bind
    intro target
    apply (toFilter_follows lookups compares filter target.rebase).bind
    intro inner
    exact .refl _
termination_by structural e

theorem foldOthers_follows (lookups : LookupsFollow d c c')
    (compares : ComparesFollow d limits limits') (es : List Expression) (s : Scope)
    (join : Predicate → Predicate → Predicate) (p : Predicate) :
    Follows d.faults (foldOthers c limits s join p es) (foldOthers c' limits' s join p es) := by
  cases es with
  | nil => exact .refl _
  | cons e es =>
    rw [foldOthers, foldOthers]
    apply (toPredicate_follows lookups compares e s).bind
    intro q
    exact foldOthers_follows lookups compares es s join (join p q)
termination_by structural es

theorem toFilter_follows (lookups : LookupsFollow d c c')
    (compares : ComparesFollow d limits limits') (filter : Option Expression) (s : Scope) :
    Follows d.faults (toFilter c limits s filter) (toFilter c' limits' s filter) := by
  cases filter with
  | none => exact .refl _
  | some e =>
    rw [toFilter, toFilter]
    apply (toPredicate_follows lookups compares e s).bind
    intro p
    exact .refl _
termination_by structural filter

end

end Expression

/-- Compilation in three steps, each with its own errors shown in the source. -/
theorem compile_eq (c : Catalog) (limits : Limits) (rootType source : String) :
    compile c limits rootType source = (do
      let expression ← (Expression.parse limits.maxDepth source).mapError
        (·.inSource source.toList)
      let scope ← (c.root rootType).mapError
        (·.inSource source.toList ⟨0, Text.utf8Length source.toList⟩)
      (expression.toPredicate c limits scope).mapError
        fun fault => fault.rejection.inSource source.toList fault.extent) := by
  unfold compile
  cases Expression.parse limits.maxDepth source with
  | error e => rfl
  | ok expression =>
    cases c.root rootType with
    | error r => rfl
    | ok scope =>
      dsimp only
      show _ = (expression.toPredicate c limits scope).mapError _
      cases expression.toPredicate c limits scope with
      | error fault => rfl
      | ok p => rfl

/-- Compiling a text follows reading it, looking its names up and comparing. -/
theorem compile_follows (lookups : LookupsFollow d c c')
    (compares : ComparesFollow d limits limits') (rootType source : String)
    (parses : Follows d.parseErrors (Expression.parse limits.maxDepth source)
      (Expression.parse limits'.maxDepth source)) :
    Follows d.errors (compile c limits rootType source) (compile c' limits' rootType source) := by
  rw [compile_eq, compile_eq]
  -- What is wrong is shown at the same place by both, for both have the same source.
  have hread : Follows d.errors
      ((Expression.parse limits.maxDepth source).mapError (·.inSource source.toList))
      ((Expression.parse limits'.maxDepth source).mapError (·.inSource source.toList)) := by
    refine Follows.mapError ?_ ?_ parses
    · intro _ hstops
      exact hstops
    · rintro e _ rfl
      exact d.errors.refl _
  apply hread.bind
  intro expression
  have hroot : Follows d.errors
      ((c.root rootType).mapError
        (·.inSource source.toList ⟨0, Text.utf8Length source.toList⟩))
      ((c'.root rootType).mapError
        (·.inSource source.toList ⟨0, Text.utf8Length source.toList⟩)) := by
    refine Follows.mapError ?_ ?_ (lookups.root rootType)
    · intro _ hstops
      exact hstops
    · intro _ _ halike
      exact ⟨rfl, halike⟩
  apply hroot.bind
  intro scope
  refine Follows.mapError ?_ ?_ (expression.toPredicate_follows lookups compares scope)
  · intro _ hstops
    exact hstops
  · rintro ⟨r, extent⟩ ⟨r', _⟩ ⟨rfl, halike⟩
    exact ⟨rfl, halike⟩

end Criteria.Language
