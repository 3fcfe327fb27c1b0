import Criteria.Proofs.Language.TextNesting
import Criteria.Proofs.Predicate.Depth

/-! # Depth of compiled texts

Reading a text counts a level for every bracket of a group, filter or function, and none for the
relationships of a path. The predicate of a text that compiles is as deep as the limit without its
relationships, and with them as deep as the paths of the source are long (`compile_depth`), which no
limit bounds (`managersManager_deeper`).
-/

set_option autoImplicit false

namespace Criteria.Language

open Grammar Criteria.Language.Derivation

/-! ## Terms -/

/-- The path that the functions of a term are applied to. -/
def Term.bottom : Term → Path
  | path p => p
  | call _ _ argument _ => argument.bottom

/-- A term resolves to the relationships of its path, behind those of the scope. -/
theorem Term.navigation_of_resolve {c : Catalog} {s : Scope} {t : Term} {a : AttributeRef}
    (h : t.resolve c s = .ok a) :
    a.path.navigation = s.navigation ++ t.bottom.hops.map (·.value) := by
  induction t generalizing a with
  | path p =>
    simp only [Term.resolve, Path.resolve, bind_eq_ok, Catalog.navigateAll_iff,
      Catalog.attributeRef_iff] at h
    obtain ⟨-, -, _, ⟨target, -, rfl⟩, found, -, rfl⟩ := h
    rfl
  | call extent name argument integers ih =>
    simp only [Term.resolve, bind_eq_ok, AttributeRef.apply_iff] at h
    obtain ⟨source, hsource, function, -, -, -, rfl⟩ := h
    have hnavigation := ih hsource
    exact hnavigation

namespace Expression

/-! ## Depth of expressions -/

section

variable (hop : Nat)

mutual

/-- How deep filters, relationships and functions are nested in an expression, if a relationship
counts as so many levels. A group adds none. -/
def depth : Expression → Nat
  | all _ => 0
  | none _ => 0
  | conjunction _ first others => max first.depth (depthOfList others)
  | disjunction _ first others => max first.depth (depthOfList others)
  | group _ inner => inner.depth
  | unary _ operand _ => hop * operand.bottom.hops.length + operand.nesting
  | binary _ operand _ _ => hop * operand.bottom.hops.length + operand.nesting
  | existence _ navigation _ filter => hop * navigation.segments.length + depthOfFilter filter

/-- The depth of the deepest operand of a combination. -/
def depthOfList : List Expression → Nat
  | [] => 0
  | e :: es => max e.depth (depthOfList es)

/-- The depth of a filter with the level that it adds, if there is one. -/
def depthOfFilter : Option Expression → Nat
  | .none => 0
  | some e => e.depth + 1

end

end

variable {c : Catalog} {limits : Limits} {hop : Nat}

/-- What a leaf yields is as deep as its operand, or a constant. -/
theorem depth_of_compare {s : Scope} (hs : s.navigation = []) {operand : Term}
    {comparator : Comparator} {argument : Argument} {a : AttributeRef} {p : Predicate}
    (ha : operand.resolve c s = .ok a) (h : a.compare limits comparator argument = .ok p) :
    p.depth hop ≤ hop * operand.bottom.hops.length + operand.nesting := by
  have hyield : p.depth hop ≤ hop * a.path.navigation.length + a.nesting :=
    (AttributeRef.compare_isYieldOf h).depth_le
  rwa [Term.navigation_of_resolve ha, hs, List.nil_append, List.length_map,
    Term.nesting_of_resolve ha] at hyield

mutual

/-- The predicate of an expression, read where no relationship has been followed, is no deeper than
the expression. -/
theorem depth_of_toPredicate (e : Expression) {s : Scope} (hs : s.navigation = []) {p : Predicate}
    (h : e.toPredicate c limits s = .ok p) : p.depth hop ≤ e.depth hop := by
  cases e with
  | all extent =>
    cases h
    exact Nat.le_refl _
  | none extent =>
    cases h
    exact Nat.le_refl _
  | conjunction extent first others =>
    rw [toPredicate, bind_eq_ok] at h
    obtain ⟨q, hq, h⟩ := h
    have hfirst : q.depth hop ≤ first.depth hop := depth_of_toPredicate first hs hq
    exact (depth_of_foldOthers others hs Predicate.depth_and h).trans
      (max_le_max hfirst (Nat.le_refl _))
  | disjunction extent first others =>
    rw [toPredicate, bind_eq_ok] at h
    obtain ⟨q, hq, h⟩ := h
    have hfirst : q.depth hop ≤ first.depth hop := depth_of_toPredicate first hs hq
    exact (depth_of_foldOthers others hs Predicate.depth_or h).trans
      (max_le_max hfirst (Nat.le_refl _))
  | group extent inner =>
    rw [toPredicate] at h
    exact depth_of_toPredicate inner hs h
  | unary extent operand comparator =>
    obtain ⟨a, ha, h⟩ := toPredicate_unary_eq_ok.1 h
    exact depth_of_compare hs ha h
  | binary extent operand comparator parameter =>
    obtain ⟨a, ha, h⟩ := toPredicate_binary_eq_ok.1 h
    exact depth_of_compare hs ha h
  | existence extent navigation test filter =>
    obtain ⟨target, inner, htarget, hinner, rfl⟩ := toPredicate_existence_eq_ok.1 h
    simp only [Path.navigate, bind_eq_ok, Catalog.navigateAll_iff] at htarget
    obtain ⟨-, -, targetType, -, rfl⟩ := htarget
    have hfilter : Predicate.depthOfFilter hop inner ≤ depthOfFilter hop filter :=
      depth_of_toFilter filter rfl hinner
    rw [Predicate.depth, depth, hs, List.nil_append, List.length_map]
    exact Nat.add_le_add_left hfilter _
termination_by structural e

theorem depth_of_foldOthers (es : List Expression) {s : Scope} (hs : s.navigation = [])
    {join : Predicate → Predicate → Predicate}
    (hjoin : ∀ p q, (join p q).depth hop = max (p.depth hop) (q.depth hop)) {p q : Predicate}
    (h : foldOthers c limits s join p es = .ok q) :
    q.depth hop ≤ max (p.depth hop) (depthOfList hop es) := by
  cases es with
  | nil =>
    cases h
    exact Nat.le_max_left _ _
  | cons e es =>
    rw [foldOthers, bind_eq_ok] at h
    obtain ⟨r, hr, h⟩ := h
    have hfirst : r.depth hop ≤ e.depth hop := depth_of_toPredicate e hs hr
    calc q.depth hop
        ≤ max ((join p r).depth hop) (depthOfList hop es) := depth_of_foldOthers es hs hjoin h
      _ = max (max (p.depth hop) (r.depth hop)) (depthOfList hop es) := by rw [hjoin]
      _ ≤ max (max (p.depth hop) (e.depth hop)) (depthOfList hop es) :=
          max_le_max (max_le_max (Nat.le_refl _) hfirst) (Nat.le_refl _)
      _ = max (p.depth hop) (depthOfList hop (e :: es)) := Nat.max_assoc _ _ _
termination_by structural es

theorem depth_of_toFilter (filter : Option Expression) {s : Scope} (hs : s.navigation = [])
    {inner : Option Predicate} (h : toFilter c limits s filter = .ok inner) :
    Predicate.depthOfFilter hop inner ≤ depthOfFilter hop filter := by
  cases filter with
  | none =>
    cases h
    exact Nat.le_refl _
  | some e =>
    obtain ⟨p, hp, rfl⟩ := toFilter_some_eq_ok.1 h
    exact Nat.succ_le_succ (depth_of_toPredicate e hs hp)
termination_by structural filter

end

theorem depthOfList_le {es : List Expression} {most : Nat} (h : ∀ e ∈ es, e.depth hop ≤ most) :
    depthOfList hop es ≤ most := by
  induction es with
  | nil => exact Nat.zero_le _
  | cons e es ih =>
    obtain ⟨hfirst, hothers⟩ := List.forall_mem_cons.1 h
    exact Nat.max_le.2 ⟨hfirst, ih hothers⟩

end Expression

/-! ## Depth of derivations -/

/-- What is derived inside brackets is a level less deep, relationships apart. -/
def InnerDepth (levels : Nat) : Prop :=
  ∀ R, insideOf levels = some R → ∀ ts e, R ts e → e.depth 0 + 1 ≤ levels

section

variable {levels : Nat}

theorem isExistence_depth (hinner : InnerDepth levels) {p : Path} {ts : Tokens} {e : Expression}
    (h : IsExistence (insideOf levels) p ts e) : e.depth 0 ≤ levels := by
  have hfilter : ∀ {extent : Extent} {navigation : Path} {test : Existence}
      {filter : Option Expression}, Expression.depthOfFilter 0 filter ≤ levels →
        (Expression.existence extent navigation test filter).depth 0 ≤ levels := by
    intro extent navigation test filter hle
    rwa [Expression.depth, Nat.zero_mul, Nat.zero_add]
  cases h with
  | method htest hparent opening hfilters closing =>
    cases hfilters with
    | empty hR => exact hfilter (Nat.zero_le _)
    | filter hR he => exact hfilter (hinner _ hR _ _ he)
  | present ht => exact hfilter (Nat.zero_le _)
  | absent ht hu => exact hfilter (Nat.zero_le _)
  | absentWith hR ht hu opening he closing => exact hfilter (hinner _ hR _ _ he)

theorem isPrimary_depth (hinner : InnerDepth levels) (ts : Tokens) (e : Expression)
    (h : IsPrimary levels (insideOf levels) ts e) : e.depth 0 ≤ levels := by
  cases h with
  | all ht => exact Nat.zero_le _
  | none ht => exact Nat.zero_le _
  | group hR opening he closing =>
    have hinside := hinner _ hR _ _ he
    exact Nat.le_of_succ_le hinside
  | leaf h =>
    cases h with
    | @comparison _ _ operand _ hoperand h =>
      have hterm : 0 * operand.bottom.hops.length + operand.nesting ≤ levels := by
        rw [Nat.zero_mul, Nat.zero_add]
        exact isTerm_nesting hoperand
      cases h with
      | unary h => exact hterm
      | binary hcomparator hparameter => exact hterm
    | existence hp h => exact isExistence_depth hinner h

theorem combine_depth {separator : Symbol} {R : Production Expression} {ts : Tokens}
    {first : Expression} {others : List Expression}
    {combination : Extent → Expression → List Expression → Expression}
    (h : ∀ ts e, R ts e → e.depth 0 ≤ levels) (hchain : Chain separator R ts (first, others))
    (hcombination : ∀ extent, (combination extent first others).depth 0
      = max (first.depth 0) (Expression.depthOfList 0 others)) :
    (combine combination first others).depth 0 ≤ levels := by
  obtain ⟨hfirst, hothers⟩ := chain_nesting h hchain
  refine combine_induction (motive := fun e => e.depth 0 ≤ levels) hfirst fun _ extent => ?_
  rw [hcombination]
  exact Nat.max_le.2 ⟨hfirst, Expression.depthOfList_le hothers⟩

theorem isDisjunction_depth (hinner : InnerDepth levels) {ts : Tokens} {e : Expression}
    (h : IsDisjunction levels (insideOf levels) ts e) : e.depth 0 ≤ levels := by
  obtain ⟨first, others, hchain, rfl⟩ := h
  refine combine_depth ?_ hchain fun _ => rfl
  rintro ts e ⟨first, others, hchain, rfl⟩
  exact combine_depth (isPrimary_depth hinner) hchain fun _ => rfl

end

/-- An expression on so many levels is no deeper, relationships apart. -/
theorem isExpression_depth {levels : Nat} {ts : Tokens} {e : Expression}
    (h : IsExpression levels ts e) : e.depth 0 ≤ levels := by
  -- By induction on the levels: what stands inside brackets is on one level less.
  induction levels generalizing ts e with
  | zero =>
    have hinner : InnerDepth 0 := fun R hR => nomatch hR
    exact isDisjunction_depth hinner h
  | succ levels ih =>
    have hinner : InnerDepth (levels + 1) := by
      intro R hR ts e he
      cases hR
      exact Nat.succ_le_succ (ih he)
    exact isDisjunction_depth hinner h

/-! ## Depth of predicates -/

/-- Wherever a node lies in the predicate of a text, the filters and functions around it are
together no more than the limit. Together with the relationships that lead to it, its own included,
they are no more than the depth of the source in which every relationship of a path counts. -/
theorem compile_depth {c : Catalog} {limits : Limits} {rootType source : String}
    {p node : Predicate} {filters hops : Nat} (h : compile c limits rootType source = .ok p)
    (hnode : p.Reaches filters hops node) :
    filters + node.ownFunctions ≤ limits.maxDepth ∧
      ∃ e, Expression.parse limits.maxDepth source = .ok e ∧
        filters + (hops + node.ownHops) + node.ownFunctions ≤ e.depth 1 := by
  obtain ⟨e, hparse, -, hp⟩ := compile_eq_ok.1 h
  have hpredicate : ∀ hop, p.depth hop ≤ e.depth hop := fun hop => e.depth_of_toPredicate rfl hp
  have hexpression : e.depth 0 ≤ limits.maxDepth := by
    obtain ⟨ts, -, hread⟩ := bind_eq_ok.1 hparse
    exact isExpression_depth ((ofTokens_iff _).1 hread)
  constructor
  · have hflat : filters + 0 * (hops + node.ownHops) + node.ownFunctions ≤ p.depth 0 :=
      hnode.le_depth
    rw [Nat.zero_mul, Nat.add_zero] at hflat
    exact hflat.trans ((hpredicate 0).trans hexpression)
  · have hfull : filters + 1 * (hops + node.ownHops) + node.ownFunctions ≤ p.depth 1 :=
      hnode.le_depth
    rw [Nat.one_mul] at hfull
    exact ⟨e, hparse, hfull.trans (hpredicate 1)⟩

/-- The manager's name, as a function of it that is not null. -/
def managersNameText : String := "this.manager.exists(toLowerCase(this.manager.name) is not null)"

/-- The comparison of the manager's name. -/
def managersNameKnown : Predicate :=
  .comparison ⟨.derived .toLowerCase (.simple ⟨"Person", ["manager"], "name", .string, true⟩),
    .isNotNull, .none⟩

theorem compile_managersNameText :
    compile staff { maxDepth := 2 } "Person" managersNameText =
      .ok (.existence .present ⟨"Person", ["manager"], "Person"⟩ (some managersNameKnown)) := by
  cbv

/-- One filter and one function, in two levels. -/
theorem managersNameKnown_depth :
    1 + managersNameKnown.ownFunctions ≤ 2 ∧
      ∃ e, Expression.parse 2 managersNameText = .ok e ∧
        1 + (1 + managersNameKnown.ownHops) + managersNameKnown.ownFunctions ≤ e.depth 1 :=
  compile_depth compile_managersNameText (.filter .self)

/-- Two relationships, in a text that compiles with room for one level. -/
theorem managersManager_deeper :
    ∃ p, compile staff { maxDepth := 1 } "Person" "this.manager.manager.name is null" = .ok p ∧
      p.Reaches 0 0 p ∧ 1 < 0 + (0 + p.ownHops) + p.ownFunctions := by
  refine ⟨.comparison ⟨.simple ⟨"Person", ["manager", "manager"], "name", .string, true⟩,
    .isNull, .none⟩, by cbv, .self, by decide⟩

/-! ## Paths of any length -/

/-- Persons the manager of whose manager, and so on, has no name. -/
def unnamedAbove (hops : Nat) : Predicate :=
  .comparison ⟨.simple ⟨"Person", List.replicate hops "manager", "name", .string, true⟩,
    .isNull, .none⟩

theorem target?_managers (hops : Nat) :
    staff.target? "Person" (List.replicate hops "manager") = some "Person" := by
  induction hops with
  | zero => rfl
  | succ hops ih => rw [List.replicate_succ, Catalog.target?]; exact ih

theorem readable_unnamedAbove (limits : Limits) (hops : Nat) :
    Readable staff limits "Person" (unnamedAbove hops) where
  wellTyped := by
    refine .comparison ⟨⟨rfl, "Person", target?_managers hops, rfl⟩, ⟨.unary, ?_⟩, ?_, ?_, ?_⟩
    · show (⟨.compare .isNull, .unary⟩ : TableEntry) ∈ ValueType.string.operators
      decide
    · exact trivial
    · exact fun _ => rfl
    · exact nofun
  named := by
    have hname : IsWord "name" := isWord_of_toList rfl (by decide +kernel)
    have hmanager : IsWord "manager" := isWord_of_toList rfl (by decide +kernel)
    refine .comparison ⟨fun relationship hrelationship => ?_, hname⟩
    obtain rfl := List.eq_of_mem_replicate hrelationship
    exact hmanager
  printable := .comparison fun v hv => nomatch hv
  normal := .comparison

/-- Whatever the limits are, texts compile whose paths are longer. -/
theorem exists_compile_of_hops (limits : Limits) (hops : Nat) :
    ∃ source p, compile staff limits "Person" source = .ok p ∧ p.Reaches 0 0 p ∧
      p.ownHops = hops :=
  ⟨_, _, (readable_unnamedAbove limits hops).compile_text_of_nesting ⟨_, rfl⟩ (Nat.zero_le _),
    .self, List.length_replicate⟩

end Criteria.Language
