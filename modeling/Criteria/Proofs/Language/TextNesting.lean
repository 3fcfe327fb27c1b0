import Criteria.Proofs.Language.WrittenPhrase
import Criteria.Proofs.Limits
import Criteria.Proofs.Predicate.Assembly

/-! # Nesting of a text and of its source

The brackets in the text of a predicate are nested at most as deep as those of its source would be
if every existence test were written as a method (`Expression.nesting_of_toPredicate`). A method
opens a bracket; the tests `exists` and `not exists` open none, so the text can be nested one level
deeper than the source and then exceeds a limit that the source keeps (`compile_text_refused_iff`).
-/

set_option autoImplicit false

namespace Criteria

namespace Language

open Grammar Criteria.Language.Derivation

/-! ## Nesting of expressions -/

namespace Expression

/-- Whether the expression is a disjunction. -/
def isDisjunction : Expression → Bool
  | disjunction _ _ _ => true
  | _ => false

mutual

/-- How deep the brackets of an expression are nested if every existence test is written as a
method. -/
def nesting : Expression → Nat
  | all _ => 0
  | none _ => 0
  | conjunction _ first others =>
    max (if first.isDisjunction then first.nesting + 1 else first.nesting) (conjunctNesting others)
  | disjunction _ first others => max first.nesting (disjunctNesting others)
  | group _ inner => inner.nesting + 1
  | unary _ operand _ => operand.nesting
  | binary _ operand _ _ => operand.nesting
  | existence _ _ _ filter => filterNesting filter + 1

/-- How deep the brackets around and in the operands of a conjunction are nested. -/
def conjunctNesting : List Expression → Nat
  | [] => 0
  | e :: es => max (if e.isDisjunction then e.nesting + 1 else e.nesting) (conjunctNesting es)

/-- How deep the brackets in the operands of a disjunction are nested. -/
def disjunctNesting : List Expression → Nat
  | [] => 0
  | e :: es => max e.nesting (disjunctNesting es)

/-- How deep the brackets in a filter are nested. -/
def filterNesting : Option Expression → Nat
  | .none => 0
  | some e => e.nesting

end

/-- How deep the brackets around and in an operand of a conjunction are nested. -/
def operandNesting (e : Expression) : Nat := if e.isDisjunction then e.nesting + 1 else e.nesting

theorem operandNesting_of_not_disjunction {e : Expression} (h : e.isDisjunction = false) :
    e.operandNesting = e.nesting := by
  rw [operandNesting, h]
  rfl

variable {c : Catalog} {limits : Limits}

/-- What a leaf yields has the brackets of its operand, or none. -/
theorem operandNesting_of_compare {s : Scope} {operand : Term} {comparator : Comparator}
    {argument : Argument} {a : AttributeRef} {p : Predicate} (ha : operand.resolve c s = .ok a)
    (h : a.compare limits comparator argument = .ok p) : p.operandNesting ≤ operand.nesting := by
  rcases AttributeRef.compare_isYieldOf h with rfl | rfl | ⟨found, rfl, rfl⟩
  · exact Nat.zero_le _
  · exact Nat.zero_le _
  · exact (Term.nesting_of_resolve ha).le

mutual

/-- The predicate of an expression is nested at most as deep as the expression, by itself and as an
operand of a conjunction. -/
theorem nesting_of_toPredicate (e : Expression) {s : Scope} {p : Predicate}
    (h : e.toPredicate c limits s = .ok p) :
    p.nesting ≤ e.nesting ∧ p.operandNesting ≤ e.operandNesting := by
  -- All but a disjunction have the same depth either way.
  have hboth : ∀ {e : Expression}, e.isDisjunction = false → p.operandNesting ≤ e.nesting →
      p.nesting ≤ e.nesting ∧ p.operandNesting ≤ e.operandNesting := by
    intro e he hle
    rw [operandNesting_of_not_disjunction he]
    exact ⟨p.nesting_le_operandNesting.trans hle, hle⟩
  cases e with
  | all extent =>
    cases h
    exact ⟨Nat.le_refl _, Nat.le_refl _⟩
  | none extent =>
    cases h
    exact ⟨Nat.le_refl _, Nat.le_refl _⟩
  | conjunction extent first others =>
    rw [toPredicate, bind_eq_ok] at h
    obtain ⟨q, hq, h⟩ := h
    have hfirst := (nesting_of_toPredicate first hq).2
    exact hboth rfl ((operandNesting_of_foldOthers others h).trans
      (max_le_max hfirst (Nat.le_refl _)))
  | disjunction extent first others =>
    rw [toPredicate, bind_eq_ok] at h
    obtain ⟨q, hq, h⟩ := h
    have hfirst := (nesting_of_toPredicate first hq).1
    have hnesting : p.nesting ≤ (disjunction extent first others).nesting :=
      (nesting_of_foldOthers others h).trans (max_le_max hfirst (Nat.le_refl _))
    exact ⟨hnesting, p.operandNesting_le.trans (Nat.succ_le_succ hnesting)⟩
  | group extent inner =>
    rw [toPredicate] at h
    have hinner := (nesting_of_toPredicate inner h).1
    exact hboth rfl (p.operandNesting_le.trans (Nat.succ_le_succ hinner))
  | unary extent operand comparator =>
    obtain ⟨a, ha, h⟩ := toPredicate_unary_eq_ok.1 h
    exact hboth rfl (operandNesting_of_compare ha h)
  | binary extent operand comparator parameter =>
    obtain ⟨a, ha, h⟩ := toPredicate_binary_eq_ok.1 h
    exact hboth rfl (operandNesting_of_compare ha h)
  | existence extent navigation test filter =>
    obtain ⟨target, inner, -, hinner, rfl⟩ := toPredicate_existence_eq_ok.1 h
    exact hboth rfl (Nat.succ_le_succ (filterNesting_of_toFilter filter hinner))
termination_by structural e

theorem operandNesting_of_foldOthers (es : List Expression) {s : Scope} {p q : Predicate}
    (h : foldOthers c limits s Predicate.and p es = .ok q) :
    q.operandNesting ≤ max p.operandNesting (conjunctNesting es) := by
  cases es with
  | nil =>
    cases h
    exact Nat.le_max_left _ _
  | cons e es =>
    rw [foldOthers, bind_eq_ok] at h
    obtain ⟨r, hr, h⟩ := h
    have hfirst := (nesting_of_toPredicate e hr).2
    calc q.operandNesting
        ≤ max (p.and r).operandNesting (conjunctNesting es) := operandNesting_of_foldOthers es h
      _ ≤ max (max p.operandNesting e.operandNesting) (conjunctNesting es) :=
          max_le_max ((p.operandNesting_and r).trans (max_le_max (Nat.le_refl _) hfirst))
            (Nat.le_refl _)
      _ = max p.operandNesting (conjunctNesting (e :: es)) := Nat.max_assoc _ _ _
termination_by structural es

theorem nesting_of_foldOthers (es : List Expression) {s : Scope} {p q : Predicate}
    (h : foldOthers c limits s Predicate.or p es = .ok q) :
    q.nesting ≤ max p.nesting (disjunctNesting es) := by
  cases es with
  | nil =>
    cases h
    exact Nat.le_max_left _ _
  | cons e es =>
    rw [foldOthers, bind_eq_ok] at h
    obtain ⟨r, hr, h⟩ := h
    have hfirst := (nesting_of_toPredicate e hr).1
    calc q.nesting
        ≤ max (p.or r).nesting (disjunctNesting es) := nesting_of_foldOthers es h
      _ = max (max p.nesting r.nesting) (disjunctNesting es) := by rw [p.nesting_or r]
      _ ≤ max (max p.nesting e.nesting) (disjunctNesting es) :=
          max_le_max (max_le_max (Nat.le_refl _) hfirst) (Nat.le_refl _)
      _ = max p.nesting (disjunctNesting (e :: es)) := Nat.max_assoc _ _ _
termination_by structural es

theorem filterNesting_of_toFilter (filter : Option Expression) {s : Scope}
    {inner : Option Predicate} (h : toFilter c limits s filter = .ok inner) :
    Predicate.filterNesting inner ≤ filterNesting filter := by
  cases filter with
  | none =>
    cases h
    exact Nat.le_refl _
  | some e =>
    obtain ⟨p, hp, rfl⟩ := toFilter_some_eq_ok.1 h
    exact (nesting_of_toPredicate e hp).1
termination_by structural filter

end

end Expression

/-! ## Nesting of derivations -/

/-- What is derived inside brackets is nested at most as deep as the levels. -/
def InnerNested (levels : Nat) : Prop :=
  ∀ R, insideOf levels = some R → ∀ ts e, R ts e → e.nesting ≤ levels

theorem isTerm_nesting {levels : Nat} {ts : Tokens} {t : Term} (h : IsTerm levels ts t) :
    t.nesting ≤ levels := by
  induction h with
  | path h => exact Nat.zero_le _
  | call ht opening hargument hintegers closing ih => exact Nat.succ_le_succ ih

section

variable {levels : Nat}

theorem isExistence_nesting (hinner : InnerNested levels) {p : Path} {ts : Tokens}
    {e : Expression} (h : IsExistence (insideOf levels) p ts e) : e.nesting ≤ levels + 1 := by
  cases h with
  | method htest hparent opening hfilter closing =>
    refine Nat.succ_le_succ ?_
    cases hfilter with
    | empty hR => exact Nat.zero_le _
    | filter hR he => exact hinner _ hR _ _ he
  | present ht => exact Nat.succ_le_succ (Nat.zero_le _)
  | absent ht hu => exact Nat.succ_le_succ (Nat.zero_le _)
  | absentWith hR ht hu opening he closing => exact Nat.succ_le_succ (hinner _ hR _ _ he)

/-- A bare test counts as a bracket here, though it takes no level. -/
theorem isPrimary_nesting (hinner : InnerNested levels) {ts : Tokens} {e : Expression}
    (h : IsPrimary levels (insideOf levels) ts e) :
    e.isDisjunction = false ∧ e.nesting ≤ levels + 1 := by
  cases h with
  | all ht => exact ⟨rfl, Nat.zero_le _⟩
  | none ht => exact ⟨rfl, Nat.zero_le _⟩
  | group hR opening he closing => exact ⟨rfl, Nat.succ_le_succ (hinner _ hR _ _ he)⟩
  | leaf h =>
    cases h with
    | comparison hoperand h =>
      have hterm := isTerm_nesting hoperand
      cases h with
      | unary h => exact ⟨rfl, Nat.le_succ_of_le hterm⟩
      | binary hcomparator hparameter => exact ⟨rfl, Nat.le_succ_of_le hterm⟩
    | existence hp h =>
      have hnesting := isExistence_nesting hinner h
      cases h <;> exact ⟨rfl, hnesting⟩

theorem chain_nesting {separator : Symbol} {R : Production Expression} {ts : Tokens}
    {a : Expression × List Expression} {depth : Expression → Nat} {most : Nat}
    (h : ∀ ts e, R ts e → depth e ≤ most) (hchain : Chain separator R ts a) :
    depth a.1 ≤ most ∧ ∀ e ∈ a.2, depth e ≤ most := by
  induction hchain with
  | one item => exact ⟨h _ _ item, fun _ he => nomatch he⟩
  | more item between tail ih => exact ⟨h _ _ item, List.forall_mem_cons.2 ih⟩

theorem Expression.conjunctNesting_le {es : List Expression} {most : Nat}
    (h : ∀ e ∈ es, e.operandNesting ≤ most) : Expression.conjunctNesting es ≤ most := by
  induction es with
  | nil => exact Nat.zero_le _
  | cons e es ih =>
    obtain ⟨hfirst, hothers⟩ := List.forall_mem_cons.1 h
    exact Nat.max_le.2 ⟨hfirst, ih hothers⟩

theorem Expression.disjunctNesting_le {es : List Expression} {most : Nat}
    (h : ∀ e ∈ es, e.nesting ≤ most) : Expression.disjunctNesting es ≤ most := by
  induction es with
  | nil => exact Nat.zero_le _
  | cons e es ih =>
    obtain ⟨hfirst, hothers⟩ := List.forall_mem_cons.1 h
    exact Nat.max_le.2 ⟨hfirst, ih hothers⟩

theorem isConjunction_nesting (hinner : InnerNested levels) {ts : Tokens} {e : Expression}
    (h : IsConjunction levels (insideOf levels) ts e) : e.nesting ≤ levels + 1 := by
  obtain ⟨first, others, hchain, rfl⟩ := h
  have hprimary : ∀ ts e, IsPrimary levels (insideOf levels) ts e →
      e.operandNesting ≤ levels + 1 := by
    intro ts e he
    obtain ⟨hdisjunction, hnesting⟩ := isPrimary_nesting hinner he
    rwa [Expression.operandNesting_of_not_disjunction hdisjunction]
  obtain ⟨hfirst, hothers⟩ := chain_nesting hprimary hchain
  refine combine_induction (motive := fun e => e.nesting ≤ levels + 1) ?_ fun _ extent => ?_
  · have hsingle : ∀ ts e, IsPrimary levels (insideOf levels) ts e → e.nesting ≤ levels + 1 :=
      fun ts e he => (isPrimary_nesting hinner he).2
    exact (chain_nesting hsingle hchain).1
  · exact Nat.max_le.2 ⟨hfirst, Expression.conjunctNesting_le hothers⟩

theorem isDisjunction_nesting (hinner : InnerNested levels) {ts : Tokens} {e : Expression}
    (h : IsDisjunction levels (insideOf levels) ts e) : e.nesting ≤ levels + 1 := by
  obtain ⟨first, others, hchain, rfl⟩ := h
  have hconjunction : ∀ ts e, IsConjunction levels (insideOf levels) ts e →
      e.nesting ≤ levels + 1 := fun ts e he => isConjunction_nesting hinner he
  obtain ⟨hfirst, hothers⟩ := chain_nesting hconjunction hchain
  refine combine_induction (motive := fun e => e.nesting ≤ levels + 1) hfirst fun _ extent => ?_
  exact Nat.max_le.2 ⟨hfirst, Expression.disjunctNesting_le hothers⟩

end

/-- An expression on so many levels is nested at most one deeper, where a bare test stands on the
last level. -/
theorem isExpression_nesting {levels : Nat} {ts : Tokens} {e : Expression}
    (h : IsExpression levels ts e) : e.nesting ≤ levels + 1 := by
  -- By induction on the levels: what stands inside brackets is on one level less.
  induction levels generalizing ts e with
  | zero =>
    have hinner : InnerNested 0 := fun R hR => nomatch hR
    exact isDisjunction_nesting hinner h
  | succ levels ih =>
    have hinner : InnerNested (levels + 1) := by
      intro R hR ts e he
      cases hR
      exact ih he
    exact isDisjunction_nesting hinner h

/-! ## Texts that are refused -/

/-- The text is refused because its brackets are nested deeper than the limits allow. -/
def RefusedForNesting (c : Catalog) (limits : Limits) (rootType source : String) : Prop :=
  ∃ e position, compile c limits rootType source = .error e ∧
    e.cause = .unparsable (.nestingTooDeep limits.maxDepth position)

/-- A text is refused for its nesting where it does not parse for that reason. -/
theorem refusedForNesting_iff {c : Catalog} {limits : Limits} {rootType source : String} :
    RefusedForNesting c limits rootType source ↔
      ∃ position, Expression.parse limits.maxDepth source
        = .error (.nestingTooDeep limits.maxDepth position) := by
  unfold RefusedForNesting compile
  dsimp only
  constructor
  · rintro ⟨e, position, h, hcause⟩
    split at h
    · rename_i parseError hparse
      cases h
      have hsame : parseError = .nestingTooDeep limits.maxDepth position :=
        Cause.unparsable.inj hcause
      exact ⟨position, hsame ▸ hparse⟩
    -- Once a text has parsed, it can only be rejected.
    · split at h
      · cases h
        cases hcause
      · split at h
        · cases h
          cases hcause
        · cases h
  · rintro ⟨position, hparse⟩
    rw [hparse]
    exact ⟨_, position, rfl, rfl⟩

/-- The text of a predicate is refused for its nesting where its brackets may not be nested as deep
as they are. -/
theorem parse_text_of_lt {p : Predicate} (h : Spelled p) {maxDepth : Nat}
    (hdepth : maxDepth < p.nesting) :
    ∃ position, Expression.parse maxDepth p.text = .error (.nestingTooDeep maxDepth position) := by
  obtain ⟨e, he⟩ := parse_text_of_le h (Nat.le_refl p.nesting)
  let refusal (cause : Cause) : Prop :=
    ∃ position, cause = .unparsable (.nestingTooDeep maxDepth position)
  have hfollows := Expression.parse_follows hdepth.le (d := .stopping refusal)
    (fun position => ⟨position, rfl⟩) p.text
  rw [he] at hfollows
  generalize hparse : Expression.parse maxDepth p.text = r at hfollows ⊢
  cases hfollows with
  | stopped hstops =>
    obtain ⟨position, hcause⟩ := hstops
    exact ⟨position, congrArg Except.error (Cause.unparsable.inj hcause)⟩
  -- Nothing else stops the text, but then there is a phrase of its tokens that is less deep.
  | ok e =>
    exfalso
    obtain ⟨ts, d, hts, hwords, hnesting⟩ := exists_phrase_of_text h
    obtain ⟨ts', hts', hread⟩ := bind_eq_ok.1 hparse
    obtain rfl : ts = ts' := Except.ok.inj (hts.symm.trans hts')
    obtain ⟨d', hwords', hnesting', -⟩ := exists_phrase ((ofTokens_iff _).1 hread)
    obtain rfl : d = d' := Phrase.Composite.tokens_injective (hwords.trans hwords')
    dsimp only at hnesting'
    omega

/-- A text that compiles has a predicate whose own text is nested at most one level deeper than the
limits allow, and that text is refused for its nesting if and only if it is. It is nested no deeper
than the source with a bracket behind every existence test. -/
theorem compile_text_refused_iff {c : Catalog} {limits : Limits} {rootType source : String}
    {p : Predicate} (h : compile c limits rootType source = .ok p) :
    (RefusedForNesting c limits rootType p.text ↔ p.nesting = limits.maxDepth + 1) ∧
      ∃ e, Expression.parse limits.maxDepth source = .ok e ∧ p.nesting ≤ e.nesting ∧
        e.nesting ≤ limits.maxDepth + 1 := by
  obtain ⟨e, hparse, -, hp⟩ := compile_eq_ok.1 h
  have hpredicate := (Expression.nesting_of_toPredicate e hp).1
  have hexpression : e.nesting ≤ limits.maxDepth + 1 := by
    obtain ⟨ts, -, hread⟩ := bind_eq_ok.1 hparse
    exact isExpression_nesting ((ofTokens_iff _).1 hread)
  have hspelled : Spelled p := spelled_of_wellTyped (compile_kept (.wellTyped c limits IsWord) h)
    (compile_kept (.named c limits IsWord) h) (compile_kept (.normal c limits IsWord) h)
  refine ⟨?_, e, hparse, hpredicate, hexpression⟩
  rw [refusedForNesting_iff]
  constructor
  · rintro ⟨position, hrefused⟩
    by_contra hne
    have hle : p.nesting ≤ limits.maxDepth := by omega
    obtain ⟨e', he'⟩ := parse_text_of_le hspelled hle
    rw [hrefused] at he'
    cases he'
  · intro hdeeper
    exact parse_text_of_lt hspelled (by omega)

/-- With room for 64 brackets inside each other the text of a predicate with one is not refused. -/
theorem managedByChildren_not_refused :
    ¬ RefusedForNesting staff {} "Person" managedByChildren.text := by
  have hiff := (compile_text_refused_iff compile_managedByChildren).1
  rw [hiff]
  decide

/-- Persons whose manager has no manager. -/
def managedByHead : Predicate :=
  .existence .absent ⟨"Person", ["manager"], "Person"⟩
    (some (.existence .present ⟨"Person", ["manager"], "Person"⟩ none))

/-- Room for one bracket is enough for the source and not for the text. -/
theorem managedByHead_refused :
    compile staff { maxDepth := 1 } "Person" "this.manager not exists {this.manager exists}"
        = .ok managedByHead ∧
      managedByHead.text = "this.manager.notExists(this.manager.exists())" ∧
      RefusedForNesting staff { maxDepth := 1 } "Person" managedByHead.text := by
  refine ⟨by cbv, by rfl, ?_⟩
  rw [refusedForNesting_iff]
  exact ⟨36, by cbv⟩

end Language

end Criteria
