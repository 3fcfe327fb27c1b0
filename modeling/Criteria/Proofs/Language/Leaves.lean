import Criteria.Proofs.Language.Meaning
import Criteria.Proofs.Predicate.Assembly

/-! # Leaves of expressions

The comparisons and existence tests of an expression in the order of the source, each with the
filters it stands in, and what a leaf yields when it is compiled on its own. An expression compiles
to what its leaves yield, put together in their order (`Expression.toPredicate_assembled`), and
where it does not compile, the fault is that of the first leaf that does not
(`Expression.toPredicate_firstFault`).
-/

set_option autoImplicit false

namespace Criteria.Language

open Predicate (AssembledFrom)

/-! ## Leaves -/

/-- A comparison, or an existence test apart from its filter. -/
inductive Leaf where
  | comparison (extent : Extent) (operand : Term) (comparator : Comparator) (argument : Argument)
  | existence (navigation : Path) (test : Existence)

namespace Leaf

/-- The range of the comparison, or that of the path of the existence test. -/
def extent : Leaf → Extent
  | comparison extent _ _ _ => extent
  | existence navigation _ => navigation.extent

/-- What the leaf yields in a scope. An existence test yields itself without a filter. -/
def compile (c : Catalog) (limits : Limits) (s : Scope) : Leaf → Except Rejection Predicate
  | comparison _ operand comparator argument => operand.compare c limits s comparator argument
  | existence navigation test => do
    let target ← navigation.navigate c s
    .ok (.existence test ⟨target.rootType, target.navigation, target.currentType⟩ none)

end Leaf

/-- A leaf and the paths of the existence tests in whose filters it stands, outermost first. -/
structure PlacedLeaf where
  filters : List Path
  leaf : Leaf

namespace PlacedLeaf

/-- The leaf in one more filter. -/
def inside (navigation : Path) (l : PlacedLeaf) : PlacedLeaf :=
  { l with filters := navigation :: l.filters }

/-- The scope of the leaf: each filter is about the type that its path leads to. -/
def scope (c : Catalog) (s : Scope) (l : PlacedLeaf) : Except Rejection Scope :=
  l.filters.foldlM (fun s navigation => (navigation.navigate c s).map Scope.rebase) s

/-- What the leaf yields in its own scope. -/
def compile (c : Catalog) (limits : Limits) (s : Scope) (l : PlacedLeaf) :
    Except Rejection Predicate := do
  let inner ← l.scope c s
  l.leaf.compile c limits inner

/-- The leaf is rejected in its own scope, and the fault is about the leaf. -/
structure Fails (c : Catalog) (limits : Limits) (s : Scope) (fault : Fault) (l : PlacedLeaf) :
    Prop where
  extent : fault.extent = l.leaf.extent
  rejected : ∃ inner, l.scope c s = .ok inner ∧
    l.leaf.compile c limits inner = .error fault.rejection

variable {c : Catalog} {limits : Limits} {s target : Scope} {navigation : Path}

theorem scope_inside (h : navigation.navigate c s = .ok target) (l : PlacedLeaf) :
    (l.inside navigation).scope c s = l.scope c target.rebase := by
  unfold scope inside
  rw [List.foldlM_cons, h]
  rfl

theorem compile_inside (h : navigation.navigate c s = .ok target) (l : PlacedLeaf) :
    (l.inside navigation).compile c limits s = l.compile c limits target.rebase := by
  unfold compile
  rw [scope_inside h]
  rfl

theorem Fails.inside {fault : Fault} {l : PlacedLeaf}
    (hnavigation : navigation.navigate c s = .ok target)
    (h : l.Fails c limits target.rebase fault) :
    (l.inside navigation).Fails c limits s fault where
  extent := h.extent
  rejected := by
    rw [scope_inside hnavigation]
    exact h.rejected

end PlacedLeaf

namespace Expression

mutual

/-- The leaves of an expression from left to right. -/
def leaves : Expression → List PlacedLeaf
  | all _ => []
  | none _ => []
  | conjunction _ first others => first.leaves ++ leavesOfList others
  | disjunction _ first others => first.leaves ++ leavesOfList others
  | group _ inner => inner.leaves
  | unary extent operand comparator => [⟨[], .comparison extent operand comparator .empty⟩]
  | binary extent operand comparator parameter =>
    [⟨[], .comparison extent operand comparator (.value parameter.value)⟩]
  | existence _ navigation test filter =>
    ⟨[], .existence navigation test⟩ :: (leavesOfFilter filter).map (·.inside navigation)

/-- The leaves of the operands of a combination. -/
def leavesOfList : List Expression → List PlacedLeaf
  | [] => []
  | e :: es => e.leaves ++ leavesOfList es

/-- The leaves of a filter, if there is one. -/
def leavesOfFilter : Option Expression → List PlacedLeaf
  | .none => []
  | some e => e.leaves

end

end Expression

/-! ## Yields of the leaves -/

variable {c : Catalog} {limits : Limits} {s : Scope}

theorem assembledFrom_comparison {extent : Extent} {operand : Term} {comparator : Comparator}
    {argument : Argument} {p : Predicate}
    (h : operand.compare c limits s comparator argument = .ok p) :
    AssembledFrom (PlacedLeaf.compile c limits s)
      [⟨[], .comparison extent operand comparator argument⟩] p := by
  obtain ⟨a, -, ha⟩ := bind_eq_ok.1 h
  exact .single h (.yield (AttributeRef.compare_isYield ha))

theorem compile_existence {navigation : Path} {test : Existence} {target : Scope}
    (h : navigation.navigate c s = .ok target) :
    PlacedLeaf.compile c limits s ⟨[], .existence navigation test⟩ = .ok
      (.existence test ⟨target.rootType, target.navigation, target.currentType⟩ none) :=
  bind_eq_ok.2 ⟨s, rfl, bind_eq_ok.2 ⟨target, h, rfl⟩⟩

namespace Expression

mutual

/-- An expression compiles to what its leaves yield, put together in their order. -/
theorem toPredicate_assembled : ∀ (e : Expression) {s : Scope} {p : Predicate},
    e.toPredicate c limits s = .ok p → AssembledFrom (PlacedLeaf.compile c limits s) e.leaves p
  | all _, s, p, h => by
    cases h
    exact .nil .all
  | none _, s, p, h => by
    cases h
    exact .nil .none
  | conjunction _ first others, s, p, h => by
    obtain ⟨q, hq, h⟩ := bind_eq_ok.1 h
    rw [leaves]
    exact foldOthers_assembled others .and (toPredicate_assembled first hq) h
  | disjunction _ first others, s, p, h => by
    obtain ⟨q, hq, h⟩ := bind_eq_ok.1 h
    rw [leaves]
    exact foldOthers_assembled others .or (toPredicate_assembled first hq) h
  | group _ inner, s, p, h => by
    rw [leaves]
    exact toPredicate_assembled inner h
  | unary _ operand comparator, s, p, h => by
    rw [toPredicate, atExtent_eq_ok] at h
    rw [leaves]
    exact assembledFrom_comparison h
  | binary _ operand comparator parameter, s, p, h => by
    rw [toPredicate, atExtent_eq_ok] at h
    rw [leaves]
    exact assembledFrom_comparison h
  | existence _ navigation test filter, s, p, h => by
    obtain ⟨target, inner, htarget, hinner, rfl⟩ := toPredicate_existence_eq_ok.1 h
    rw [leaves]
    exact toFilter_assembled filter hinner htarget

theorem foldOthers_assembled : ∀ (es : List Expression) {s : Scope}
    {join : Predicate → Predicate → Predicate} {p q : Predicate} {ls : List PlacedLeaf},
    (∀ {ls ms : List PlacedLeaf} {p q : Predicate},
      AssembledFrom (PlacedLeaf.compile c limits s) ls p →
        AssembledFrom (PlacedLeaf.compile c limits s) ms q →
          AssembledFrom (PlacedLeaf.compile c limits s) (ls ++ ms) (join p q)) →
    AssembledFrom (PlacedLeaf.compile c limits s) ls p →
      foldOthers c limits s join p es = .ok q →
        AssembledFrom (PlacedLeaf.compile c limits s) (ls ++ leavesOfList es) q
  | [], s, join, p, q, ls, _, hp, h => by
    cases h
    rw [leavesOfList, List.append_nil]
    exact hp
  | e :: es, s, join, p, q, ls, hjoin, hp, h => by
    obtain ⟨r, hr, h⟩ := bind_eq_ok.1 h
    rw [leavesOfList, ← List.append_assoc]
    exact foldOthers_assembled es hjoin (hjoin hp (toPredicate_assembled e hr)) h

/-- An existence test is put together from itself and the leaves of its filter, which are compiled
where the path of the test leads. -/
theorem toFilter_assembled : ∀ (filter : Option Expression) {s target : Scope}
    {found : Option Predicate} {navigation : Path} {test : Existence},
    toFilter c limits target.rebase filter = .ok found → navigation.navigate c s = .ok target →
      AssembledFrom (PlacedLeaf.compile c limits s)
        (⟨[], .existence navigation test⟩ :: (leavesOfFilter filter).map (·.inside navigation))
        (.existence test ⟨target.rootType, target.navigation, target.currentType⟩ found)
  | .none, s, target, found, navigation, test, h, htarget => by
    cases h
    exact .single (compile_existence htarget) .bare
  | some e, s, target, found, navigation, test, h, htarget => by
    obtain ⟨p, hp, rfl⟩ := toFilter_some_eq_ok.1 h
    exact .filtered (compile_existence htarget)
      ((toPredicate_assembled e hp).map (PlacedLeaf.compile_inside htarget))

end

end Expression

/-! ## The first fault -/

/-- The fault is that of the first leaf that does not compile. -/
def FirstFault (c : Catalog) (limits : Limits) (s : Scope) (ls : List PlacedLeaf)
    (fault : Fault) : Prop :=
  ∃ front l back, ls = front ++ l :: back ∧ (∀ m ∈ front, ∃ q, m.compile c limits s = .ok q) ∧
    l.Fails c limits s fault

namespace FirstFault

variable {ls ms : List PlacedLeaf} {fault : Fault}

theorem cons {l : PlacedLeaf} (h : l.Fails c limits s fault) :
    FirstFault c limits s (l :: ls) fault :=
  ⟨[], l, ls, rfl, List.forall_mem_nil _, h⟩

theorem append_left (h : FirstFault c limits s ls fault) :
    FirstFault c limits s (ls ++ ms) fault := by
  obtain ⟨front, l, back, rfl, hfront, hl⟩ := h
  exact ⟨front, l, back ++ ms, by simp, hfront, hl⟩

theorem append_right (hls : ∀ l ∈ ls, ∃ q, l.compile c limits s = .ok q)
    (h : FirstFault c limits s ms fault) : FirstFault c limits s (ls ++ ms) fault := by
  obtain ⟨front, l, back, rfl, hfront, hl⟩ := h
  exact ⟨ls ++ front, l, back, by simp, List.forall_mem_append.2 ⟨hls, hfront⟩, hl⟩

/-- The first fault of a filter, seen from where the path of its test starts. -/
theorem inside {navigation : Path} {target : Scope}
    (hnavigation : navigation.navigate c s = .ok target)
    (h : FirstFault c limits target.rebase ls fault) :
    FirstFault c limits s (ls.map (·.inside navigation)) fault := by
  obtain ⟨front, l, back, rfl, hfront, hl⟩ := h
  refine ⟨front.map (·.inside navigation), l.inside navigation, back.map (·.inside navigation),
    by simp, ?_, hl.inside hnavigation⟩
  intro m hm
  obtain ⟨m', hm', rfl⟩ := List.mem_map.1 hm
  rw [PlacedLeaf.compile_inside hnavigation]
  exact hfront m' hm'

end FirstFault

theorem atExtent_eq_error {α : Type} {extent : Extent} {r : Except Rejection α} {fault : Fault} :
    atExtent extent r = .error fault ↔ fault.extent = extent ∧ r = .error fault.rejection := by
  obtain ⟨rejection, extent'⟩ := fault
  cases r with
  | ok a => simp [atExtent]
  | error rejection' => simp [atExtent, and_comm, eq_comm]

theorem PlacedLeaf.Fails.comparison {extent : Extent} {fault : Fault} {operand : Term}
    {comparator : Comparator} {argument : Argument}
    (h : atExtent extent (operand.compare c limits s comparator argument) = .error fault) :
    Fails c limits s fault ⟨[], .comparison extent operand comparator argument⟩ := by
  obtain ⟨hextent, hrejected⟩ := atExtent_eq_error.1 h
  exact ⟨hextent, s, rfl, hrejected⟩

namespace Expression

mutual

/-- The fault of an expression is that of its first leaf that does not compile. -/
theorem toPredicate_firstFault : ∀ (e : Expression) {s : Scope} {fault : Fault},
    e.toPredicate c limits s = .error fault → FirstFault c limits s e.leaves fault
  | all _, s, fault, h => nomatch h
  | none _, s, fault, h => nomatch h
  | conjunction _ first others, s, fault, h => by
    rw [leaves]
    rcases bind_eq_error.1 h with h | ⟨p, hp, h⟩
    · exact (toPredicate_firstFault first h).append_left
    · exact .append_right (toPredicate_assembled first hp).exists_yield
        (foldOthers_firstFault others h)
  | disjunction _ first others, s, fault, h => by
    rw [leaves]
    rcases bind_eq_error.1 h with h | ⟨p, hp, h⟩
    · exact (toPredicate_firstFault first h).append_left
    · exact .append_right (toPredicate_assembled first hp).exists_yield
        (foldOthers_firstFault others h)
  | group _ inner, s, fault, h => by
    rw [leaves]
    exact toPredicate_firstFault inner h
  | unary _ operand comparator, s, fault, h => by
    rw [leaves]
    exact .cons (.comparison h)
  | binary _ operand comparator parameter, s, fault, h => by
    rw [leaves]
    exact .cons (.comparison h)
  | existence _ navigation test filter, s, fault, h => by
    rw [leaves]
    rcases bind_eq_error.1 h with h | ⟨target, htarget, h⟩
    · obtain ⟨hextent, hrejected⟩ := atExtent_eq_error.1 h
      exact .cons ⟨hextent, s, rfl, bind_eq_error.2 (.inl hrejected)⟩
    · rw [atExtent_eq_ok] at htarget
      rcases bind_eq_error.1 h with h | ⟨inner, -, h⟩
      · have hhead : ∀ l ∈ [PlacedLeaf.mk [] (.existence navigation test)],
            ∃ q, l.compile c limits s = .ok q := by
          intro l hl
          obtain rfl := List.mem_singleton.1 hl
          exact ⟨_, compile_existence htarget⟩
        exact .append_right hhead ((toFilter_firstFault filter h).inside htarget)
      · cases h

theorem foldOthers_firstFault : ∀ (es : List Expression) {s : Scope}
    {join : Predicate → Predicate → Predicate} {p : Predicate} {fault : Fault},
    foldOthers c limits s join p es = .error fault →
      FirstFault c limits s (leavesOfList es) fault
  | [], s, join, p, fault, h => nomatch h
  | e :: es, s, join, p, fault, h => by
    rw [leavesOfList]
    rcases bind_eq_error.1 h with h | ⟨q, hq, h⟩
    · exact (toPredicate_firstFault e h).append_left
    · exact .append_right (toPredicate_assembled e hq).exists_yield (foldOthers_firstFault es h)

theorem toFilter_firstFault : ∀ (filter : Option Expression) {s : Scope} {fault : Fault},
    toFilter c limits s filter = .error fault →
      FirstFault c limits s (leavesOfFilter filter) fault
  | .none, s, fault, h => nomatch h
  | some e, s, fault, h => by
    rw [leavesOfFilter]
    rcases bind_eq_error.1 h with h | ⟨p, -, h⟩
    · exact toPredicate_firstFault e h
    · cases h

end

end Expression

end Criteria.Language
