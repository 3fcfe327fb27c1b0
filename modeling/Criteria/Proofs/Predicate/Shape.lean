import Criteria.Predicate.Basic
import Mathlib

/-! # The shape of predicates

Two things that hold at every depth of a predicate, inside the filters of existence tests too:
combinations are flat (`Predicate.Normal`), and comparisons and chains of relationships have a
property that depends on the type they are about (`Predicate.Everywhere`). Both survive `and` and
`or`.
-/

set_option autoImplicit false

namespace Criteria

namespace Predicate

/-! ## Combinations -/

/-- The operands that a predicate is to a conjunction. -/
def conjuncts : Predicate → List Predicate
  | all => []
  | conjunction children => children
  | p => [p]

/-- The operands that a predicate is to a disjunction. -/
def disjuncts : Predicate → List Predicate
  | disjunction children => children
  | p => [p]

theorem all_and (p : Predicate) : all.and p = p := rfl

theorem and_all (p : Predicate) : p.and all = p := by
  cases p <;> rfl

/-- Apart from `all`, predicates are combined by joining their operands. -/
theorem and_eq {p q : Predicate} (hp : p ≠ all) (hq : q ≠ all) :
    p.and q = conjunction (p.conjuncts ++ q.conjuncts) := by
  cases p with
  | all => exact absurd rfl hp
  | _ =>
    cases q with
    | all => exact absurd rfl hq
    | _ => rfl

theorem or_eq (p q : Predicate) : p.or q = disjunction (p.disjuncts ++ q.disjuncts) := by
  cases p <;> cases q <;> rfl

/-- Whatever holds of `all` and of predicates joined by their operands holds of `and`. -/
theorem and_induction {motive : Predicate → Prop} {p q : Predicate} (hp : motive p) (hq : motive q)
    (hjoin : p ≠ all → q ≠ all → motive (conjunction (p.conjuncts ++ q.conjuncts))) :
    motive (p.and q) := by
  by_cases hpall : p = all
  · rw [hpall, all_and]
    exact hq
  · by_cases hqall : q = all
    · rw [hqall, and_all]
      exact hp
    · rw [and_eq hpall hqall]
      exact hjoin hpall hqall

/-! ## Normal form -/

/-- Whether the predicate is a conjunction. -/
def isConjunction : Predicate → Bool
  | conjunction _ => true
  | _ => false

/-- A combination has at least two operands, none of them a combination of the same kind, and
`all` is no operand of a conjunction. -/
inductive Normal : Predicate → Prop
  | all : Normal all
  | none : Normal none
  | conjunction {children : List Predicate} (several : 2 ≤ children.length)
      (flat : ∀ p ∈ children, p ≠ Predicate.all ∧ p.isConjunction = false)
      (inner : ∀ p ∈ children, Normal p) : Normal (conjunction children)
  | disjunction {children : List Predicate} (several : 2 ≤ children.length)
      (flat : ∀ p ∈ children, p.isDisjunction = false)
      (inner : ∀ p ∈ children, Normal p) : Normal (disjunction children)
  | existence {test : Existence} {relationship : RelationshipPath} {filter : Option Predicate}
      (inner : ∀ p ∈ filter, Normal p) : Normal (existence test relationship filter)
  | comparison {c : Comparison} : Normal (comparison c)

namespace Normal

theorem of_conjuncts {p : Predicate} (hp : p.Normal) (hall : p ≠ Predicate.all) :
    1 ≤ p.conjuncts.length ∧
      ∀ q ∈ p.conjuncts, (q ≠ Predicate.all ∧ q.isConjunction = false) ∧ q.Normal := by
  cases hp with
  | all => exact absurd rfl hall
  | conjunction several flat inner =>
    exact ⟨Nat.le_of_succ_le several, fun q hq => ⟨flat q hq, inner q hq⟩⟩
  | none => simp [conjuncts, isConjunction, Normal.none]
  | disjunction several flat inner =>
    simp [conjuncts, isConjunction, Normal.disjunction several flat inner]
  | existence inner => simp [conjuncts, isConjunction, Normal.existence inner]
  | comparison => simp [conjuncts, isConjunction, Normal.comparison]

theorem of_disjuncts {p : Predicate} (hp : p.Normal) :
    1 ≤ p.disjuncts.length ∧ ∀ q ∈ p.disjuncts, q.isDisjunction = false ∧ q.Normal := by
  cases hp with
  | disjunction several flat inner =>
    exact ⟨Nat.le_of_succ_le several, fun q hq => ⟨flat q hq, inner q hq⟩⟩
  | all => simp [disjuncts, isDisjunction, Normal.all]
  | conjunction several flat inner =>
    simp [disjuncts, isDisjunction, Normal.conjunction several flat inner]
  | none => simp [disjuncts, isDisjunction, Normal.none]
  | existence inner => simp [disjuncts, isDisjunction, Normal.existence inner]
  | comparison => simp [disjuncts, isDisjunction, Normal.comparison]

theorem and {p q : Predicate} (hp : p.Normal) (hq : q.Normal) : (p.and q).Normal := by
  refine and_induction hp hq ?_
  intro hpall hqall
  obtain ⟨hp₁, hp⟩ := hp.of_conjuncts hpall
  obtain ⟨hq₁, hq⟩ := hq.of_conjuncts hqall
  have hmem : ∀ r ∈ p.conjuncts ++ q.conjuncts,
      (r ≠ Predicate.all ∧ r.isConjunction = false) ∧ r.Normal :=
    List.forall_mem_append.2 ⟨hp, hq⟩
  refine .conjunction ?_ (fun r hr => (hmem r hr).1) fun r hr => (hmem r hr).2
  rw [List.length_append]
  omega

theorem or {p q : Predicate} (hp : p.Normal) (hq : q.Normal) : (p.or q).Normal := by
  obtain ⟨hp₁, hp⟩ := hp.of_disjuncts
  obtain ⟨hq₁, hq⟩ := hq.of_disjuncts
  have hmem : ∀ r ∈ p.disjuncts ++ q.disjuncts, r.isDisjunction = false ∧ r.Normal :=
    List.forall_mem_append.2 ⟨hp, hq⟩
  rw [or_eq]
  refine .disjunction ?_ (fun r hr => (hmem r hr).1) fun r hr => (hmem r hr).2
  rw [List.length_append]
  omega

end Normal

/-! ## Joining flat operands -/

theorem conjuncts_eq_self {p : Predicate} (hall : p ≠ all) (hflat : p.isConjunction = false) :
    p.conjuncts = [p] := by
  cases p with
  | all => exact absurd rfl hall
  | conjunction children => cases hflat
  | _ => rfl

theorem disjuncts_eq_self {p : Predicate} (hflat : p.isDisjunction = false) :
    p.disjuncts = [p] := by
  cases p with
  | disjunction children => cases hflat
  | _ => rfl

theorem foldl_and_conjunction {children others : List Predicate}
    (flat : ∀ p ∈ others, p ≠ all ∧ p.isConjunction = false) :
    others.foldl and (conjunction children) = conjunction (children ++ others) := by
  induction others generalizing children with
  | nil => simp
  | cons p others ih =>
    obtain ⟨hall, hflat⟩ := flat p List.mem_cons_self
    have hne : conjunction children ≠ all := nofun
    have hjoin : (conjunction children).and p = conjunction (children ++ [p]) := by
      rw [and_eq hne hall, conjuncts_eq_self hall hflat]
      rfl
    rw [List.foldl_cons, hjoin, ih fun q hq => flat q (List.mem_cons_of_mem _ hq)]
    simp

theorem foldl_or_disjunction {children others : List Predicate}
    (flat : ∀ p ∈ others, p.isDisjunction = false) :
    others.foldl or (disjunction children) = disjunction (children ++ others) := by
  induction others generalizing children with
  | nil => simp
  | cons p others ih =>
    have hjoin : (disjunction children).or p = disjunction (children ++ [p]) := by
      rw [or_eq, disjuncts_eq_self (flat p List.mem_cons_self)]
      rfl
    rw [List.foldl_cons, hjoin, ih fun q hq => flat q (List.mem_cons_of_mem _ hq)]
    simp

/-- Flat operands joined one after the other make up a conjunction. -/
theorem foldl_and {first : Predicate} {others : List Predicate} (hne : others ≠ [])
    (flat : ∀ p ∈ first :: others, p ≠ all ∧ p.isConjunction = false) :
    others.foldl and first = conjunction (first :: others) := by
  obtain ⟨second, rest, rfl⟩ := List.exists_cons_of_ne_nil hne
  obtain ⟨hall, hflat⟩ := flat first List.mem_cons_self
  obtain ⟨hall', hflat'⟩ := flat second (by simp)
  rw [List.foldl_cons, and_eq hall hall', conjuncts_eq_self hall hflat,
    conjuncts_eq_self hall' hflat', foldl_and_conjunction fun p hp => flat p (by simp [hp])]
  rfl

/-- Flat operands joined one after the other make up a disjunction. -/
theorem foldl_or {first : Predicate} {others : List Predicate} (hne : others ≠ [])
    (flat : ∀ p ∈ first :: others, p.isDisjunction = false) :
    others.foldl or first = disjunction (first :: others) := by
  obtain ⟨second, rest, rfl⟩ := List.exists_cons_of_ne_nil hne
  rw [List.foldl_cons, or_eq, disjuncts_eq_self (flat first List.mem_cons_self),
    disjuncts_eq_self (flat second (by simp)),
    foldl_or_disjunction fun p hp => flat p (by simp [hp])]
  rfl

/-! ## Properties of all parts -/

section

variable (onComparison : String → Comparison → Prop) (onPath : String → RelationshipPath → Prop)

/-- Every comparison and every chain of relationships has the property for the type it is about:
the root type, or inside the filter of an existence test the type that the test leads to. -/
inductive Everywhere : String → Predicate → Prop
  | all {root : String} : Everywhere root all
  | none {root : String} : Everywhere root none
  | conjunction {root : String} {children : List Predicate}
      (inner : ∀ p ∈ children, Everywhere root p) : Everywhere root (conjunction children)
  | disjunction {root : String} {children : List Predicate}
      (inner : ∀ p ∈ children, Everywhere root p) : Everywhere root (disjunction children)
  | existence {root : String} {test : Existence} {relationship : RelationshipPath}
      {filter : Option Predicate} (path : onPath root relationship)
      (inner : ∀ p ∈ filter, Everywhere relationship.targetType p) :
      Everywhere root (existence test relationship filter)
  | comparison {root : String} {c : Comparison} (holds : onComparison root c) :
      Everywhere root (comparison c)

end

namespace Everywhere

variable {onComparison : String → Comparison → Prop} {onPath : String → RelationshipPath → Prop}
  {root : String} {p q : Predicate}

theorem of_conjuncts (hp : Everywhere onComparison onPath root p) :
    ∀ r ∈ p.conjuncts, Everywhere onComparison onPath root r := by
  cases hp with
  | all => simp [conjuncts]
  | conjunction inner => exact inner
  | none => simpa [conjuncts] using Everywhere.none
  | disjunction inner => simpa [conjuncts] using Everywhere.disjunction inner
  | existence path inner => simpa [conjuncts] using Everywhere.existence path inner
  | comparison holds => simpa [conjuncts] using Everywhere.comparison holds

theorem of_disjuncts (hp : Everywhere onComparison onPath root p) :
    ∀ r ∈ p.disjuncts, Everywhere onComparison onPath root r := by
  cases hp with
  | disjunction inner => exact inner
  | all => simpa [disjuncts] using Everywhere.all
  | none => simpa [disjuncts] using Everywhere.none
  | conjunction inner => simpa [disjuncts] using Everywhere.conjunction inner
  | existence path inner => simpa [disjuncts] using Everywhere.existence path inner
  | comparison holds => simpa [disjuncts] using Everywhere.comparison holds

theorem and (hp : Everywhere onComparison onPath root p)
    (hq : Everywhere onComparison onPath root q) :
    Everywhere onComparison onPath root (p.and q) := by
  have hoperands : ∀ r ∈ p.conjuncts ++ q.conjuncts, Everywhere onComparison onPath root r :=
    List.forall_mem_append.2 ⟨hp.of_conjuncts, hq.of_conjuncts⟩
  exact and_induction hp hq fun _ _ => .conjunction hoperands

theorem or (hp : Everywhere onComparison onPath root p)
    (hq : Everywhere onComparison onPath root q) :
    Everywhere onComparison onPath root (p.or q) := by
  have hoperands : ∀ r ∈ p.disjuncts ++ q.disjuncts, Everywhere onComparison onPath root r :=
    List.forall_mem_append.2 ⟨hp.of_disjuncts, hq.of_disjuncts⟩
  rw [or_eq]
  exact .disjunction hoperands

/-- Two properties of the parts together. -/
theorem both {onComparison' : String → Comparison → Prop}
    {onPath' : String → RelationshipPath → Prop} (h : Everywhere onComparison onPath root p)
    (h' : Everywhere onComparison' onPath' root p) :
    Everywhere (fun root c => onComparison root c ∧ onComparison' root c)
      (fun root r => onPath root r ∧ onPath' root r) root p := by
  induction h with
  | all => exact .all
  | none => exact .none
  | conjunction inner ih =>
    cases h' with
    | conjunction inner' => exact .conjunction fun q hq => ih q hq (inner' q hq)
  | disjunction inner ih =>
    cases h' with
    | disjunction inner' => exact .disjunction fun q hq => ih q hq (inner' q hq)
  | existence path inner ih =>
    cases h' with
    | existence path' inner' =>
      exact .existence ⟨path, path'⟩ fun q hq => ih q hq (inner' q hq)
  | comparison holds =>
    cases h' with
    | comparison holds' => exact .comparison ⟨holds, holds'⟩

end Everywhere

end Predicate

end Criteria
