import Criteria.Language.Compile
import Criteria.Proofs.Predicate.Kept

/-! # Predicates of expressions

A property that building predicates keeps holds of the predicate of every expression whose names
are of the right sort and whose numbers are finite (`Expression.toPredicate_kept`).
-/

set_option autoImplicit false

namespace Criteria.Language

open Number

/-! ## Lexical conditions -/

/-- Every name behind the root is of the given sort. -/
def Path.Named (Name : String → Prop) (p : Path) : Prop := ∀ name ∈ p.segments, Name name.value

/-- Every name on the path of the term is of the given sort. -/
def Term.Named (Name : String → Prop) : Term → Prop
  | path p => p.Named Name
  | call _ _ argument _ => argument.Named Name

/-- Every name of a member is of the given sort, and every number is finite. -/
inductive Expression.Lexical (Name : String → Prop) : Expression → Prop
  | all {extent : Extent} : Lexical Name (all extent)
  | none {extent : Extent} : Lexical Name (none extent)
  | conjunction {extent : Extent} {first : Expression} {others : List Expression}
      (hfirst : Lexical Name first) (hothers : ∀ e ∈ others, Lexical Name e) :
      Lexical Name (conjunction extent first others)
  | disjunction {extent : Extent} {first : Expression} {others : List Expression}
      (hfirst : Lexical Name first) (hothers : ∀ e ∈ others, Lexical Name e) :
      Lexical Name (disjunction extent first others)
  | group {extent : Extent} {inner : Expression} (hinner : Lexical Name inner) :
      Lexical Name (group extent inner)
  | unary {extent : Extent} {operand : Term} {comparator : Comparator}
      (hoperand : operand.Named Name) : Lexical Name (unary extent operand comparator)
  | binary {extent : Extent} {operand : Term} {comparator : Comparator}
      {parameter : Located Literal} (hoperand : operand.Named Name)
      (hfinite : parameter.value.Finite) : Lexical Name (binary extent operand comparator parameter)
  | existence {extent : Extent} {navigation : Path} {test : Existence} {filter : Option Expression}
      (hnavigation : navigation.Named Name) (hfilter : ∀ e ∈ filter, Lexical Name e) :
      Lexical Name (existence extent navigation test filter)

/-! ## Terms -/

variable {c : Catalog} {limits : Limits} {Name : String → Prop}

theorem atExtent_eq_ok {α : Type} {extent : Extent} {r : Except Rejection α} {a : α} :
    atExtent extent r = .ok a ↔ r = .ok a := by
  cases r <;> simp [atExtent]

theorem Path.resolve_wellTyped {s : Scope} (hs : s.Reached c Name) {p : Path}
    (hp : p.Named Name) {a : AttributeRef} (h : p.resolve c s = .ok a) :
    a.WellTyped c s.rootType ∧ a.Named Name := by
  simp only [resolve, bind_eq_ok, Catalog.navigateAll_iff, Catalog.attributeRef_iff] at h
  obtain ⟨-, -, _, ⟨target, htarget, rfl⟩, found, hfound, rfl⟩ := h
  have hhops : ∀ name ∈ p.hops.map (·.value), Name name := by
    intro name hname
    obtain ⟨located, hlocated, rfl⟩ := List.mem_map.1 hname
    exact hp located (List.mem_append_left _ hlocated)
  exact (hs.append htarget hhops).reference hfound
    (hp p.last (List.mem_append_right _ (List.mem_singleton_self _)))

theorem Term.resolve_wellTyped {s : Scope} (hs : s.Reached c Name) {t : Term}
    (ht : t.Named Name) {a : AttributeRef} (h : t.resolve c s = .ok a) :
    a.WellTyped c s.rootType ∧ a.Named Name := by
  induction t generalizing a with
  | path p => exact p.resolve_wellTyped hs ht h
  | call extent name argument integers ih =>
    simp only [resolve, bind_eq_ok] at h
    obtain ⟨source, hsource, function, -, happly⟩ := h
    obtain ⟨htyped, hnamed⟩ := ih ht hsource
    obtain ⟨rfl, hderived⟩ := AttributeRef.apply_wellTyped htyped happly
    exact ⟨hderived, hnamed⟩

theorem Path.navigate_wellTyped {s : Scope} (hs : s.Reached c Name) {p : Path}
    (hp : p.Named Name) {target : Scope} (h : p.navigate c s = .ok target) :
    target.rootType = s.rootType ∧ target.navigation ≠ [] ∧ target.Reached c Name := by
  simp only [navigate, bind_eq_ok, Catalog.navigateAll_iff] at h
  obtain ⟨-, -, target, htarget, rfl⟩ := h
  have hnames : ∀ name ∈ p.segments.map (·.value), Name name := by
    intro name hname
    obtain ⟨located, hlocated, rfl⟩ := List.mem_map.1 hname
    exact hp located hlocated
  exact ⟨rfl, by simp [segments], hs.append htarget hnames⟩

/-! ## Expressions -/

namespace Expression

theorem toPredicate_unary_eq_ok {extent : Extent} {operand : Term} {comparator : Comparator}
    {s : Scope} {p : Predicate} :
    (unary extent operand comparator).toPredicate c limits s = .ok p ↔
      ∃ a, operand.resolve c s = .ok a ∧ a.compare limits comparator .empty = .ok p := by
  rw [toPredicate, atExtent_eq_ok, bind_eq_ok]

theorem toPredicate_binary_eq_ok {extent : Extent} {operand : Term} {comparator : Comparator}
    {parameter : Located Literal} {s : Scope} {p : Predicate} :
    (binary extent operand comparator parameter).toPredicate c limits s = .ok p ↔
      ∃ a, operand.resolve c s = .ok a ∧
        a.compare limits comparator (.value parameter.value) = .ok p := by
  rw [toPredicate, atExtent_eq_ok, bind_eq_ok]

/-- An existence test is read where its path starts, its filter where the path ends. -/
theorem toPredicate_existence_eq_ok {extent : Extent} {navigation : Path} {test : Existence}
    {filter : Option Expression} {s : Scope} {p : Predicate} :
    (existence extent navigation test filter).toPredicate c limits s = .ok p ↔
      ∃ target inner, navigation.navigate c s = .ok target ∧
        toFilter c limits target.rebase filter = .ok inner ∧
        p = .existence test ⟨target.rootType, target.navigation, target.currentType⟩ inner := by
  simp only [toPredicate, bind_eq_ok, atExtent_eq_ok]
  constructor
  · rintro ⟨target, htarget, inner, hinner, h⟩
    cases h
    exact ⟨target, inner, htarget, hinner, rfl⟩
  · rintro ⟨target, inner, htarget, hinner, rfl⟩
    exact ⟨target, htarget, inner, hinner, rfl⟩

theorem toFilter_some_eq_ok {e : Expression} {s : Scope} {found : Option Predicate} :
    toFilter c limits s (some e) = .ok found ↔
      ∃ p, e.toPredicate c limits s = .ok p ∧ found = some p := by
  rw [toFilter, bind_eq_ok]
  constructor
  · rintro ⟨p, hp, h⟩
    cases h
    exact ⟨p, hp, rfl⟩
  · rintro ⟨p, hp, rfl⟩
    exact ⟨p, hp, rfl⟩

variable {P : String → Predicate → Prop}

theorem foldOthers_kept {s : Scope} {root : String} {join : Predicate → Predicate → Predicate}
    (hjoin : ∀ {p q : Predicate}, P root p → P root q → P root (join p q)) {es : List Expression}
    (hes : ∀ e ∈ es, ∀ p, e.toPredicate c limits s = .ok p → P root p) {p q : Predicate}
    (hp : P root p) (h : foldOthers c limits s join p es = .ok q) : P root q := by
  induction es generalizing p with
  | nil =>
    cases h
    exact hp
  | cons e es ih =>
    simp only [foldOthers, bind_eq_ok] at h
    obtain ⟨r, hr, h⟩ := h
    exact ih (fun e' he' => hes e' (List.mem_cons_of_mem _ he'))
      (hjoin hp (hes e List.mem_cons_self r hr)) h

/-- The predicate of an expression has every property that building predicates keeps. -/
theorem toPredicate_kept (k : Predicate.Kept c limits Name P) {e : Expression}
    (he : e.Lexical Name) {s : Scope} (hs : s.Reached c Name) {p : Predicate}
    (h : e.toPredicate c limits s = .ok p) : P s.rootType p := by
  induction he generalizing s p with
  | all =>
    cases h
    exact k.all _
  | none =>
    cases h
    exact k.none _
  | conjunction hfirst hothers ihfirst ihothers =>
    simp only [toPredicate, bind_eq_ok] at h
    obtain ⟨first, hpfirst, h⟩ := h
    exact foldOthers_kept k.and (fun e he q hq => ihothers e he hs hq) (ihfirst hs hpfirst) h
  | disjunction hfirst hothers ihfirst ihothers =>
    simp only [toPredicate, bind_eq_ok] at h
    obtain ⟨first, hpfirst, h⟩ := h
    exact foldOthers_kept k.or (fun e he q hq => ihothers e he hs hq) (ihfirst hs hpfirst) h
  | group hinner ih =>
    simp only [toPredicate] at h
    exact ih hs h
  | unary hoperand =>
    obtain ⟨a, ha, h⟩ := toPredicate_unary_eq_ok.1 h
    obtain ⟨htyped, hnamed⟩ := Term.resolve_wellTyped hs hoperand ha
    have hempty : Argument.empty.Finite := trivial
    exact k.outcome hnamed (AttributeRef.compare_wellTyped htyped hempty h)
  | binary hoperand hfinite =>
    rename_i parameter
    obtain ⟨a, ha, h⟩ := toPredicate_binary_eq_ok.1 h
    obtain ⟨htyped, hnamed⟩ := Term.resolve_wellTyped hs hoperand ha
    have hvalue : (Argument.value parameter.value).Finite := hfinite
    exact k.outcome hnamed (AttributeRef.compare_wellTyped htyped hvalue h)
  | existence hnavigation hfilter ih =>
    rename_i filter
    obtain ⟨target, inner, htarget, hinner, rfl⟩ := toPredicate_existence_eq_ok.1 h
    obtain ⟨hroot, hne, hreached⟩ := Path.navigate_wellTyped hs hnavigation htarget
    obtain ⟨htyped, hnamed⟩ := hreached.relationshipPath hne
    rw [← hroot]
    refine k.existence htyped hnamed ?_
    intro q hq
    cases filter with
    | none =>
      cases hinner
      cases hq
    | some e =>
      obtain ⟨r, hr, rfl⟩ := toFilter_some_eq_ok.1 hinner
      cases hq
      -- The filter is about the target type, so the scope starts again there.
      exact ih e rfl (Scope.Reached.root _) hr

end Expression

end Criteria.Language
