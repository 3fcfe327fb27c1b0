import Criteria.Proofs.Predicate.Shape

/-! # The meaning of predicates

A predicate holds at an entity or not, under an interpretation of comparisons and of chains of
relationships. Flat or not, `and` and `or` mean conjunction and disjunction.
-/

set_option autoImplicit false

namespace Criteria

/-- Which comparisons hold at which entities, and which entities a chain of relationships leads to
from an entity. -/
structure Interpretation (Entity : Type) where
  holds : Comparison → Entity → Prop
  related : RelationshipPath → Entity → List Entity

/-- Whether the existence test succeeds at an entity. The recursive test looks at everything that
the chain leads to when it is followed once or several times. -/
def Interpretation.Tests {Entity : Type} (I : Interpretation Entity) (test : Existence)
    (r : RelationshipPath) (filter : Entity → Prop) (x : Entity) : Prop :=
  match test with
  | .present => ∃ y ∈ I.related r x, filter y
  | .absent => ¬∃ y ∈ I.related r x, filter y
  | .absentRecursively =>
    ¬∃ y, Relation.TransGen (fun y z => z ∈ I.related r y) x y ∧ filter y

namespace Predicate

variable {Entity : Type} (I : Interpretation Entity)

mutual

/-- Whether the predicate holds at an entity. -/
def Holds : Predicate → Entity → Prop
  | all, _ => True
  | none, _ => False
  | conjunction children, x => EveryHolds children x
  | disjunction children, x => SomeHolds children x
  | existence test r filter, x => I.Tests test r (FilterHolds filter) x
  | comparison c, x => I.holds c x

/-- Whether all of the predicates hold. -/
def EveryHolds : List Predicate → Entity → Prop
  | [], _ => True
  | p :: ps, x => p.Holds x ∧ EveryHolds ps x

/-- Whether one of the predicates holds. -/
def SomeHolds : List Predicate → Entity → Prop
  | [], _ => False
  | p :: ps, x => p.Holds x ∨ SomeHolds ps x

/-- Whether the filter holds, if there is one. -/
def FilterHolds : Option Predicate → Entity → Prop
  | .none, _ => True
  | some p, x => p.Holds x

end

variable {I} {x : Entity}

theorem everyHolds_iff {ps : List Predicate} : EveryHolds I ps x ↔ ∀ p ∈ ps, p.Holds I x := by
  induction ps with
  | nil => simp [EveryHolds]
  | cons p ps ih => rw [EveryHolds, ih, List.forall_mem_cons]

theorem someHolds_iff {ps : List Predicate} : SomeHolds I ps x ↔ ∃ p ∈ ps, p.Holds I x := by
  induction ps with
  | nil => simp [SomeHolds]
  | cons p ps ih => simp [SomeHolds, ih]

theorem holds_conjuncts {p : Predicate} : (∀ q ∈ p.conjuncts, q.Holds I x) ↔ p.Holds I x := by
  cases p with
  | all => simp [conjuncts, Holds]
  | conjunction children => rw [conjuncts, Holds, everyHolds_iff]
  | _ => simp [conjuncts]

theorem holds_disjuncts {p : Predicate} : (∃ q ∈ p.disjuncts, q.Holds I x) ↔ p.Holds I x := by
  cases p with
  | disjunction children => rw [disjuncts, Holds, someHolds_iff]
  | _ => simp [disjuncts]

/-- `and` means conjunction. -/
theorem holds_and {p q : Predicate} : (p.and q).Holds I x ↔ p.Holds I x ∧ q.Holds I x := by
  by_cases hp : p = all
  · rw [hp, all_and, Holds, true_and]
  · by_cases hq : q = all
    · rw [hq, and_all, Holds, and_true]
    · rw [and_eq hp hq, Holds, everyHolds_iff, List.forall_mem_append, holds_conjuncts,
        holds_conjuncts]

/-- `or` means disjunction. -/
theorem holds_or {p q : Predicate} : (p.or q).Holds I x ↔ p.Holds I x ∨ q.Holds I x := by
  have happend : (∃ r ∈ p.disjuncts ++ q.disjuncts, r.Holds I x) ↔
      (∃ r ∈ p.disjuncts, r.Holds I x) ∨ ∃ r ∈ q.disjuncts, r.Holds I x := by
    simp only [List.mem_append, or_and_right, exists_or]
  rw [or_eq, Holds, someHolds_iff, happend, holds_disjuncts, holds_disjuncts]

end Predicate

/-- The test depends on nothing but where its filter holds. -/
theorem Interpretation.tests_congr {Entity : Type} {I : Interpretation Entity} {test : Existence}
    {r : RelationshipPath} {filter filter' : Entity → Prop} (h : ∀ x, filter x ↔ filter' x)
    (x : Entity) : I.Tests test r filter x ↔ I.Tests test r filter' x := by
  have heq : filter = filter' := funext fun y => propext (h y)
  rw [heq]

end Criteria
