import Criteria.Proofs.Language.Nesting
import Criteria.Proofs.Language.Operands

/-! # Written predicates

The text of a well-typed predicate in normal form is that of an expression whose predicate it is:
comparisons and existence tests are leaves, disjunctions inside conjunctions stand in parentheses,
and nothing else needs them.
-/

set_option autoImplicit false

namespace Criteria.Language

open Number Text Grammar Criteria.Language.Derivation

/-! ## Comparisons -/

section

variable {c : Catalog} {limits : Limits} {root : String} {levels : Nat}
  {Inner : Option (Production Expression)}

theorem toList_text_of_none {found : Comparison} (h : found.parameter = .none) :
    found.text.toList = found.operand.text.toList ++ ' ' :: found.comparator.symbol.toList := by
  simp [Comparison.text, h, toString]

theorem toList_text_of_ne_none {found : Comparison} (h : found.parameter ≠ .none) :
    found.text.toList = found.operand.text.toList ++
      ' ' :: (found.comparator.symbol.toList ++ ' ' :: found.parameter.text.toList) := by
  obtain ⟨operand, comparator, parameter⟩ := found
  cases parameter with
  | none => exact absurd rfl h
  | _ => simp [Comparison.text, toString]

/-- An operand and an operator without parameter. -/
theorem renders_unaryLeaf {operand : List Char} {Q : Term → Prop} {comparator : Comparator}
    (hoperand : Renders endsWord operand (IsTerm levels) Q)
    (hcardinality : comparator.cardinality? = none) :
    Renders closes (operand ++ ' ' :: comparator.symbol.toList) (IsLeaf levels Inner) fun e =>
      ∃ extent t, e = .unary extent t comparator ∧ Q t := by
  refine Renders.mono (fun _ => endsWord_of_closes) (hoperand.append
    (renders_unary hcardinality).blank (fun _ _ => Ends.cons rfl _) ?_)
  intro us vs t unary hus ht hvs hunary
  obtain ⟨found, stop⟩ := unary
  obtain rfl : found = comparator := hunary
  exact ⟨_, .comparison hus (.unary hvs), _, t, rfl, ht⟩

/-- An operator and its parameter. -/
inductive IsApplication : Production (Comparator × Located Literal)
  | mk {us vs : Tokens} {comparator : Comparator} {l : Located Literal}
      (hcomparator : IsComparator us comparator) (hparameter : IsParameter vs l) :
      IsApplication (us ++ vs) (comparator, l)

/-- An operand, an operator and its parameter. -/
theorem renders_binaryLeaf {operand parameter : List Char} {Q : Term → Prop}
    {P : Located Literal → Prop} {comparator : Comparator}
    (hoperand : Renders endsWord operand (IsTerm levels) Q)
    (hcardinality : comparator.cardinality?.isSome = true)
    (hparameter : Renders closes parameter IsParameter P) :
    Renders closes (operand ++ ' ' :: (comparator.symbol.toList ++ ' ' :: parameter))
      (IsLeaf levels Inner) fun e =>
      ∃ extent t l, e = .binary extent t comparator l ∧ Q t ∧ P l := by
  have happlication : Renders closes (comparator.symbol.toList ++ ' ' :: parameter) IsApplication
      fun x => x.1 = comparator ∧ P x.2 :=
    (renders_comparator hcardinality).append hparameter.blank (fun _ _ => Ends.cons rfl _)
      fun us vs found l hus hfound hvs hl => ⟨_, .mk hus hvs, hfound, hl⟩
  refine hoperand.append happlication.blank (fun _ _ => Ends.cons rfl _) ?_
  rintro us _ t ⟨found, l⟩ hus ht ⟨hfound, hl⟩ ⟨hsame, hvalue⟩
  obtain rfl : found = comparator := hsame
  exact ⟨_, .comparison hus (.binary hfound hl), _, t, l, rfl, ht, hvalue⟩

theorem renders_unaryComparison {found : Comparison} (h : found.WellTyped c limits root)
    (hnamed : found.operand.Named IsWord) (hlevels : found.operand.nesting ≤ levels)
    (hparameter : found.parameter = .none) :
    Renders closes found.text.toList (IsLeaf levels Inner) fun e =>
      e.toPredicate c limits (Scope.root root) = .ok (.comparison found) := by
  rw [toList_text_of_none hparameter]
  refine (renders_unaryLeaf (renders_reference h.operand hnamed hlevels)
    (h.fits.eq_none_iff.2 hparameter)).weaken ?_
  rintro _ ⟨extent, operand, rfl, hresolves⟩
  exact Expression.toPredicate_unary_eq_ok.2
    ⟨found.operand, hresolves, h.compare_empty hparameter⟩

theorem renders_binaryComparison {found : Comparison} (h : found.WellTyped c limits root)
    (hnamed : found.operand.Named IsWord) (hlevels : found.operand.nesting ≤ levels)
    (hprintable : found.Printable) (hparameter : found.parameter ≠ .none) :
    Renders closes found.text.toList (IsLeaf levels Inner) fun e =>
      e.toPredicate c limits (Scope.root root) = .ok (.comparison found) := by
  -- An operator with a parameter takes one, so the parameter fits a cardinality.
  have hsome : found.comparator.cardinality? ≠ none := fun hnone =>
    hparameter (h.fits.eq_none_iff.1 hnone)
  obtain ⟨cardinality, hcardinality⟩ := Option.ne_none_iff_exists'.1 hsome
  have hfits := h.fits
  rw [hcardinality] at hfits
  rw [toList_text_of_ne_none hparameter]
  refine (renders_binaryLeaf (renders_reference h.operand hnamed hlevels)
    (Option.isSome_iff_ne_none.2 hsome) (renders_parameter hfits hprintable)).weaken ?_
  rintro _ ⟨extent, operand, l, rfl, hresolves, hvalue⟩
  exact Expression.toPredicate_binary_eq_ok.2
    ⟨found.operand, hresolves, h.compare_value hvalue⟩

/-- The text of a comparison is that of a leaf whose predicate is the comparison. -/
theorem renders_comparison {found : Comparison} (h : found.WellTyped c limits root)
    (hnamed : found.operand.Named IsWord) (hlevels : found.operand.nesting ≤ levels)
    (hprintable : found.Printable) :
    Renders closes found.text.toList (IsLeaf levels Inner) fun e =>
      e.toPredicate c limits (Scope.root root) = .ok (.comparison found) := by
  by_cases hparameter : found.parameter = .none
  · exact renders_unaryComparison h hnamed hlevels hparameter
  · exact renders_binaryComparison h hnamed hlevels hprintable hparameter

/-! ## Existence tests -/

/-- The text of a path leads to where the chain it was written for leads. -/
theorem Path.navigate_of_names {r : RelationshipPath} (h : r.WellTyped c root) {p : Path}
    (hthis : p.root.value = .this) (hnames : p.segments.map (·.value) = r.segments) :
    p.navigate c (Scope.root root) = .ok ⟨r.rootType, r.segments, r.targetType⟩ := by
  obtain ⟨rfl⟩ := h.rootType
  simp only [navigate, bind_eq_ok, Catalog.navigateAll_iff, hnames]
  refine ⟨(), ?_, r.targetType, h.target, rfl⟩
  rw [checkRoot, hthis]

/-- The path in front of the last of several names. -/
theorem Path.exists_parent {p : Path} {names : List String} {last : String} (hne : names ≠ [])
    (h : p.segments.map (·.value) = names ++ [last]) :
    p.last.value = last ∧ ∃ navigation, p.parent? = some navigation ∧
      navigation.root = p.root ∧ navigation.segments.map (·.value) = names := by
  unfold segments at h
  rw [List.map_append, List.map_singleton] at h
  obtain ⟨hhops, hlast⟩ := List.append_inj' h rfl
  have hhopsNe : p.hops ≠ [] := by
    rintro hnil
    rw [hnil] at hhops
    exact hne hhops.symm
  refine ⟨by simpa using hlast, ⟨p.root, p.hops.dropLast, p.hops.getLast hhopsNe⟩, ?_, rfl, ?_⟩
  · rw [parent?, ofSegments?, List.getLast?_eq_some_getLast hhopsNe]
    rfl
  · rw [segments, List.dropLast_append_getLast, hhops]

theorem isWord_method (test : Existence) : IsWord test.method := by
  cases test <;> exact isWord_of_toList rfl (by decide +kernel)

theorem toList_text_existence (test : Existence) (r : RelationshipPath)
    (filter : Option Predicate) :
    (Predicate.existence test r filter).text.toList =
      (".".intercalate ("this" :: (r.segments ++ [test.method]))).toList ++
        '(' :: ((Predicate.filterText filter).toList ++ [')']) := by
  have hpath : (".".intercalate ("this" :: (r.segments ++ [test.method]))).toList =
      r.text.toList ++ '.' :: test.method.toList := by
    rw [RelationshipPath.text, toList_intercalate_cons, toList_intercalate_cons,
      List.flatMap_append, ← List.append_assoc]
    simp
  rw [hpath]
  simp [Predicate.text, toString]

end

/-! ## Predicates -/

/-- The production derives from the text of the predicate something whose predicate is the
predicate again. -/
def Restores (c : Catalog) (limits : Limits) (root : String) (R : Production Expression)
    (p : Predicate) : Prop :=
  Renders closes p.text.toList R fun e => e.toPredicate c limits (Scope.root root) = .ok p

section

variable {c : Catalog} {limits : Limits} {root : String}

/-- The text of a filter, which may be absent. -/
theorem renders_filter {levels : Nat} {filter : Option Predicate}
    (h : ∀ p ∈ filter, Restores c limits root (IsExpression levels) p) :
    Renders closes (Predicate.filterText filter).toList (IsFilter (insideOf (levels + 1))) fun e =>
      Expression.toFilter c limits (Scope.root root) e = .ok filter := by
  cases filter with
  | none =>
    refine ⟨[], Written.nil, ?_⟩
    intro located hlocated
    obtain rfl := List.map_eq_nil_iff.1 hlocated
    exact ⟨_, .empty rfl, rfl⟩
  | some p =>
    refine Renders.imp (h p rfl) fun located e he hp => ⟨some e, .filter rfl he, ?_⟩
    exact Expression.toFilter_some_eq_ok.2 ⟨p, hp, rfl⟩

/-- The text of an existence test is that of a leaf whose predicate is the test. -/
theorem renders_existence {test : Existence} {r : RelationshipPath} {filter : Option Predicate}
    (hr : r.WellTyped c root) (hnamed : r.Named IsWord) {levels : Nat}
    (hfilter : ∀ p ∈ filter, Restores c limits r.targetType (IsExpression levels) p) :
    Restores c limits root (IsLeaf (levels + 1) (insideOf (levels + 1)))
      (.existence test r filter) := by
  have hwords : ∀ name ∈ r.segments ++ [test.method], IsWord name := by
    intro name hname
    rcases List.mem_append.1 hname with hname | hname
    · exact hnamed name hname
    · exact List.mem_singleton.1 hname ▸ isWord_method test
  have hpath := renders_path (by simp) hwords
  have hparentheses := (renders_filter hfilter).inParentheses
  unfold Restores
  rw [toList_text_existence]
  refine (hpath.append hparentheses (fun _ _ => Ends.cons (by decide) _) ?_).mono fun _ _ => rfl
  rintro us _ p e hp ⟨hthis, hnames⟩ ⟨opening, vs, closing, rfl, hopening, he, hclosing⟩ hinner
  -- The parser takes the method for the last name of a path, and the chain for its parent.
  obtain ⟨hlast, navigation, hparent, hroot, hsegments⟩ := p.exists_parent hr.nonempty hnames
  have htest : Existence.ofMethod? p.last.value = some test := by
    rw [hlast, Existence.ofMethod?_method]
  rw [← hroot] at hthis
  have hnavigated := navigation.navigate_of_names hr hthis hsegments
  refine ⟨_, .existence hp (.method htest hparent hopening he hclosing), ?_⟩
  exact Expression.toPredicate_existence_eq_ok.2 ⟨_, filter, hnavigated, hinner, rfl⟩

/-! ### Operands -/

/-- An operand of a conjunction is a conjunction of one operand. -/
theorem Restores.conjunct {levels : Nat} {Inner : Option (Production Expression)} {p : Predicate}
    (h : Restores c limits root (IsPrimary levels Inner) p) :
    Restores c limits root (IsConjunction levels Inner) p :=
  Renders.imp h fun _ e he hp => ⟨e, ⟨e, [], .one he, rfl⟩, hp⟩

/-- A conjunction is an expression of one conjunction. -/
theorem Restores.expression {levels : Nat} {p : Predicate}
    (h : Restores c limits root (IsConjunction levels (insideOf levels)) p) :
    Restores c limits root (IsExpression levels) p := by
  rw [isExpression_eq]
  exact Renders.imp h fun _ e he hp => ⟨e, ⟨e, [], .one he, rfl⟩, hp⟩

/-- The predicate is restored from its text by the production for its shape, on as many levels as
its brackets are nested. -/
structure Restored (c : Catalog) (limits : Limits) (root : String) (p : Predicate) : Prop where
  primary : p.isDisjunction = false → p.isConjunction = false → ∀ levels, p.nesting ≤ levels →
    Restores c limits root (IsPrimary levels (insideOf levels)) p
  conjunct : p.isDisjunction = false → ∀ levels, p.nesting ≤ levels →
    Restores c limits root (IsConjunction levels (insideOf levels)) p
  expression (levels : Nat) : p.nesting ≤ levels → Restores c limits root (IsExpression levels) p

theorem Restored.of_primary {p : Predicate}
    (h : ∀ levels, p.nesting ≤ levels →
      Restores c limits root (IsPrimary levels (insideOf levels)) p) :
    Restored c limits root p where
  primary _ _ := h
  conjunct _ levels hlevels := (h levels hlevels).conjunct
  expression levels hlevels := (h levels hlevels).conjunct.expression

/-- The predicates of operands joined one after the other. -/
theorem foldOthers_eq_ok {s : Scope} {join : Predicate → Predicate → Predicate} {p : Predicate}
    {ps : List Predicate} {es : List Expression}
    (h : List.Forall₂ (fun p e => e.toPredicate c limits s = .ok p) ps es) :
    Expression.foldOthers c limits s join p es = .ok (ps.foldl join p) := by
  induction h generalizing p with
  | nil => rfl
  | cons hp _ ih =>
    simp only [Expression.foldOthers, bind_eq_ok]
    exact ⟨_, hp, ih⟩

/-- The predicate of operands that are combined is that of the operands joined. -/
theorem toPredicate_combine {s : Scope} {join : Predicate → Predicate → Predicate}
    {combination : Extent → Expression → List Expression → Expression}
    (hcombination : ∀ extent e es, (combination extent e es).toPredicate c limits s =
      e.toPredicate c limits s >>= fun p => Expression.foldOthers c limits s join p es)
    {p : Predicate} {ps : List Predicate} {e : Expression} {es : List Expression}
    (h : List.Forall₂ (fun p e => e.toPredicate c limits s = .ok p) (p :: ps) (e :: es)) :
    (combine combination e es).toPredicate c limits s = .ok (ps.foldl join p) := by
  obtain ⟨hp, hps⟩ := List.forall₂_cons.1 h
  unfold combine
  split
  -- A single operand is not combined with anything.
  · rename_i hlast
    obtain rfl := List.getLast?_eq_none_iff.1 hlast
    cases hps
    exact hp
  · rw [hcombination, hp]
    exact foldOthers_eq_ok hps

/-- The text of a child of a conjunction. -/
def conjunctText (child : Predicate) : String :=
  if child.isDisjunction then "(" ++ child.text ++ ")" else child.text

theorem conjunctTexts_eq (children : List Predicate) :
    Predicate.conjunctTexts children = children.map conjunctText := by
  induction children with
  | nil => rfl
  | cons child children ih => rw [Predicate.conjunctTexts, ih, List.map_cons, conjunctText]

theorem disjunctTexts_eq (children : List Predicate) :
    Predicate.disjunctTexts children = children.map Predicate.text := by
  induction children with
  | nil => rfl
  | cons child children ih => rw [Predicate.disjunctTexts, ih, List.map_cons]

/-- A child of a conjunction is an operand, in parentheses if it is a disjunction. -/
theorem Restored.conjunctText {p : Predicate} (h : Restored c limits root p)
    (hflat : p.isConjunction = false) {levels : Nat}
    (hlevels : (if p.isDisjunction then p.nesting + 1 else p.nesting) ≤ levels) :
    Renders closes (conjunctText p).toList (IsPrimary levels (insideOf levels)) fun e =>
      e.toPredicate c limits (Scope.root root) = .ok p := by
  unfold Language.conjunctText
  cases hdisjunction : p.isDisjunction with
  | false =>
    rw [hdisjunction] at hlevels
    exact h.primary hdisjunction hflat levels hlevels
  | true =>
    rw [hdisjunction] at hlevels
    -- The parentheses take the level by which the child counts for more than its own nesting.
    obtain ⟨levels, rfl⟩ : ∃ n, levels = n + 1 :=
      Nat.exists_eq_succ_of_ne_zero (Nat.ne_of_gt (Nat.lt_of_lt_of_le (Nat.succ_pos _) hlevels))
    have hinner := h.expression levels (Nat.le_of_succ_le_succ hlevels)
    have htext : ("(" ++ p.text ++ ")").toList = '(' :: (p.text.toList ++ [')']) := by simp
    rw [if_pos rfl, htext]
    refine (hinner.inParentheses.mono fun _ _ => rfl).imp ?_
    rintro _ e ⟨opening, us, closing, rfl, hopening, he, hclosing⟩ hp
    exact ⟨_, .group rfl hopening he hclosing, hp⟩

/-! ### Combinations -/

theorem exists_cons_cons {α : Type} {xs : List α} (h : 2 ≤ xs.length) :
    ∃ first second others, xs = first :: second :: others := by
  match xs, h with
  | first :: second :: others, _ => exact ⟨first, second, others, rfl⟩

theorem restored_conjunction {children : List Predicate} (several : 2 ≤ children.length)
    (flat : ∀ p ∈ children, p ≠ Predicate.all ∧ p.isConjunction = false)
    (h : ∀ p ∈ children, Restored c limits root p) :
    Restored c limits root (.conjunction children) := by
  have hconjunct : ∀ levels, (Predicate.conjunction children).nesting ≤ levels →
      Restores c limits root (IsConjunction levels (insideOf levels)) (.conjunction children) := by
    intro levels hlevels
    rw [Predicate.nesting] at hlevels
    obtain ⟨first, second, others, rfl⟩ := exists_cons_cons several
    have hitems : ∀ p ∈ first :: second :: others,
        Renders closes (conjunctText p).toList (IsPrimary levels (insideOf levels)) fun e =>
          e.toPredicate c limits (Scope.root root) = .ok p := fun p hp =>
      (h p hp).conjunctText (flat p hp).2
        (Nat.le_trans (Predicate.nesting_le_conjunctNesting hp) hlevels)
    have hchain := renders_chain separates_ampersand hitems
    unfold Restores
    rw [Predicate.text, conjunctTexts_eq, toList_intercalate_map]
    refine Renders.imp hchain ?_
    rintro located ⟨e, es⟩ hes hps
    refine ⟨combine .conjunction e es, ⟨e, es, hes, rfl⟩, ?_⟩
    -- Joining children that are neither `all` nor conjunctions only lists them.
    rw [toPredicate_combine (fun _ _ _ => by rw [Expression.toPredicate]) hps,
      Predicate.foldl_and (List.cons_ne_nil _ _) flat]
  refine ⟨fun _ hshape => ?_, fun _ => hconjunct, fun levels hlevels =>
    (hconjunct levels hlevels).expression⟩
  cases hshape

theorem restored_disjunction {children : List Predicate} (several : 2 ≤ children.length)
    (flat : ∀ p ∈ children, p.isDisjunction = false)
    (h : ∀ p ∈ children, Restored c limits root p) :
    Restored c limits root (.disjunction children) := by
  refine ⟨nofun, nofun, ?_⟩
  intro levels hlevels
  rw [Predicate.nesting] at hlevels
  obtain ⟨first, second, others, rfl⟩ := exists_cons_cons several
  have hitems : ∀ p ∈ first :: second :: others,
      Renders closes p.text.toList (IsConjunction levels (insideOf levels)) fun e =>
        e.toPredicate c limits (Scope.root root) = .ok p := fun p hp =>
    (h p hp).conjunct (flat p hp) levels
      (Nat.le_trans (Predicate.nesting_le_disjunctNesting hp) hlevels)
  have hchain := renders_chain separates_pipe hitems
  unfold Restores
  rw [Predicate.text, disjunctTexts_eq, toList_intercalate_map, isExpression_eq]
  refine Renders.imp hchain ?_
  rintro located ⟨e, es⟩ hes hps
  refine ⟨combine .disjunction e es, ⟨e, es, hes, rfl⟩, ?_⟩
  rw [toPredicate_combine (fun _ _ _ => by rw [Expression.toPredicate]) hps,
    Predicate.foldl_or (List.cons_ne_nil _ _) flat]

/-! ### All predicates -/

theorem restored_all : Restored c limits root .all :=
  .of_primary fun _ _ =>
    renders_token ((written_word (Keyword.isWord_text .allWord)).mono fun _ => endsWord_of_closes)
      fun _ hu => ⟨_, .all hu, rfl⟩

theorem restored_none : Restored c limits root .none :=
  .of_primary fun _ _ =>
    renders_token ((written_word (Keyword.isWord_text .noneWord)).mono fun _ => endsWord_of_closes)
      fun _ hu => ⟨_, .none hu, rfl⟩

theorem restored_comparison {found : Comparison} (h : found.WellTyped c limits root)
    (hnamed : found.operand.Named IsWord) (hprintable : found.Printable) :
    Restored c limits root (.comparison found) := by
  refine .of_primary ?_
  intro levels hlevels
  rw [Predicate.nesting] at hlevels
  unfold Restores
  rw [Predicate.text]
  exact (renders_comparison h hnamed hlevels hprintable).imp fun _ e he hp => ⟨e, .leaf he, hp⟩

theorem restored_existence {test : Existence} {r : RelationshipPath} {filter : Option Predicate}
    (hr : r.WellTyped c root) (hnamed : r.Named IsWord)
    (h : ∀ p ∈ filter, Restored c limits r.targetType p) :
    Restored c limits root (.existence test r filter) := by
  refine .of_primary ?_
  intro levels hlevels
  rw [Predicate.nesting] at hlevels
  obtain ⟨levels, rfl⟩ : ∃ n, levels = n + 1 :=
    Nat.exists_eq_succ_of_ne_zero (Nat.ne_of_gt (Nat.lt_of_lt_of_le (Nat.succ_pos _) hlevels))
  have hfilter : ∀ p ∈ filter, Restores c limits r.targetType (IsExpression levels) p := by
    rintro p rfl
    exact (h p rfl).expression levels (Nat.le_of_succ_le_succ hlevels)
  exact (renders_existence hr hnamed hfilter).imp fun _ e he hp => ⟨e, .leaf he, hp⟩

end

/-- A predicate whose text is read as the predicate again: well typed, with words for names,
printable values and flat combinations. -/
structure Readable (c : Catalog) (limits : Limits) (root : String) (p : Predicate) : Prop where
  wellTyped : p.WellTyped c limits root
  named : p.Named IsWord root
  printable : p.Printable root
  normal : p.Normal

/-- By induction on the predicate, with the shapes of its parts. -/
theorem Readable.restored {c : Catalog} {limits : Limits} {root : String} {p : Predicate}
    (h : Readable c limits root p) : Restored c limits root p := by
  -- Typing, names and printable values are inherited together, the normal form beside them.
  have heverywhere := (h.wellTyped.both h.named).both h.printable
  have hnormal := h.normal
  clear h
  induction heverywhere with
  | all => exact restored_all
  | none => exact restored_none
  | conjunction inner ih =>
    cases hnormal with
    | conjunction several flat hnormal =>
      exact restored_conjunction several flat fun p hp => ih p hp (hnormal p hp)
  | disjunction inner ih =>
    cases hnormal with
    | disjunction several flat hnormal =>
      exact restored_disjunction several flat fun p hp => ih p hp (hnormal p hp)
  | existence path inner ih =>
    cases hnormal with
    | existence hnormal =>
      exact restored_existence path.1.1 path.1.2 fun p hp => ih p hp (hnormal p hp)
  | comparison holds => exact restored_comparison holds.1.1 holds.1.2 holds.2

/-- The tokens of the text of a readable predicate are derived on as many levels as it is nested. -/
theorem Readable.exists_expression {c : Catalog} {limits : Limits} {root : String} {p : Predicate}
    (h : Readable c limits root p) {levels : Nat} (hlevels : p.nesting ≤ levels) :
    ∃ located e, tokenize p.text = .ok located ∧ IsExpression levels located e ∧
      e.toPredicate c limits (Scope.root root) = .ok p := by
  obtain ⟨ts, hwritten, hderives⟩ := h.restored.expression levels hlevels
  obtain ⟨located, hlocated, hvalues⟩ := hwritten.exists_tokens
  obtain ⟨e, he, hp⟩ := hderives located hvalues
  exact ⟨located, e, hlocated, he, hp⟩

/-- The text of a readable predicate compiles to the predicate, if brackets may be nested as deep
as they are in the text. -/
theorem Readable.compile_text {c : Catalog} {limits : Limits} {root : String} {p : Predicate}
    (h : Readable c limits root p) (hroot : ∃ entity, c.entity? root = some entity)
    (hnesting : bracketNesting p.text ≤ limits.maxDepth) :
    compile c limits root p.text = .ok p := by
  -- The text is derived on as many levels as the predicate is nested, so on those it needs.
  obtain ⟨located, e, htokens, he, hp⟩ := h.exists_expression (Nat.le_refl p.nesting)
  rw [bracketNesting, htokens] at hnesting
  refine compile_eq_ok.2 ⟨e, ?_, hroot, hp⟩
  exact bind_eq_ok.2 ⟨located, htokens, (ofTokens_iff _).2 (isExpression_of_deepest he hnesting)⟩

/-- The same, if they may be nested as deep as the predicate is. -/
theorem Readable.compile_text_of_nesting {c : Catalog} {limits : Limits} {root : String}
    {p : Predicate} (h : Readable c limits root p) (hroot : ∃ entity, c.entity? root = some entity)
    (hnesting : p.nesting ≤ limits.maxDepth) : compile c limits root p.text = .ok p := by
  obtain ⟨located, e, htokens, he, hp⟩ := h.exists_expression hnesting
  refine compile_eq_ok.2 ⟨e, ?_, hroot, hp⟩
  exact bind_eq_ok.2 ⟨located, htokens, (ofTokens_iff _).2 he⟩

end Criteria.Language
