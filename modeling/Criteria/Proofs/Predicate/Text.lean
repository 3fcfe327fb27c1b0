import Criteria.Calendar.Instant
import Criteria.Predicate.Text
import Criteria.Proofs.Predicate.Shape

/-! # What the text of a predicate holds

The text of a predicate reads back as the predicate where its values do, and where the brackets
that it opens are allowed to be nested as deep as they are.
-/

set_option autoImplicit false

namespace Criteria

open Calendar

/-! ## Values -/

/-- A value that is no number of 32 bits, and no instant outside the years 0 to 9999 of universal
time. -/
def Value.Printable : Value → Prop
  | float _ => False
  | timestamp t => 0 ≤ (civil (t.seconds / 86400)).1 ∧ (civil (t.seconds / 86400)).1 ≤ 9999
  | _ => True

/-- The values of a parameter. -/
def Parameter.values : Parameter → List Value
  | none => []
  | one value => [value]
  | many values => values

/-- A comparison with printable values. -/
def Comparison.Printable (c : Comparison) : Prop := ∀ v ∈ c.parameter.values, v.Printable

/-- A predicate over a type in which all values are printable. -/
def Predicate.Printable (root : String) (p : Predicate) : Prop :=
  p.Everywhere (fun _ c => c.Printable) (fun _ _ => True) root

/-! ## Nesting -/

/-- How many functions are applied to the attribute, each with a bracket of its own. -/
def AttributeRef.nesting : AttributeRef → Nat
  | simple _ => 0
  | derived _ source => source.nesting + 1

namespace Predicate

mutual

/-- How deep the brackets in the text of a predicate are nested, those of lists apart. -/
def nesting : Predicate → Nat
  | all => 0
  | none => 0
  | conjunction children => conjunctNesting children
  | disjunction children => disjunctNesting children
  | existence _ _ filter => filterNesting filter + 1
  | comparison c => c.operand.nesting

/-- How deep the brackets around and in the children of a conjunction are nested. -/
def conjunctNesting : List Predicate → Nat
  | [] => 0
  | child :: children =>
    max (if child.isDisjunction then child.nesting + 1 else child.nesting)
      (conjunctNesting children)

/-- How deep the brackets in the children of a disjunction are nested. -/
def disjunctNesting : List Predicate → Nat
  | [] => 0
  | child :: children => max child.nesting (disjunctNesting children)

/-- How deep the brackets in a filter are nested. -/
def filterNesting : Option Predicate → Nat
  | .none => 0
  | some p => p.nesting

end

theorem nesting_le_conjunctNesting {children : List Predicate} {child : Predicate}
    (h : child ∈ children) :
    (if child.isDisjunction then child.nesting + 1 else child.nesting) ≤
      conjunctNesting children := by
  induction children with
  | nil => cases h
  | cons first others ih =>
    rw [conjunctNesting]
    rcases List.mem_cons.1 h with rfl | h
    · exact Nat.le_max_left _ _
    · exact Nat.le_trans (ih h) (Nat.le_max_right _ _)

theorem nesting_le_disjunctNesting {children : List Predicate} {child : Predicate}
    (h : child ∈ children) : child.nesting ≤ disjunctNesting children := by
  induction children with
  | nil => cases h
  | cons first others ih =>
    rw [disjunctNesting]
    rcases List.mem_cons.1 h with rfl | h
    · exact Nat.le_max_left _ _
    · exact Nat.le_trans (ih h) (Nat.le_max_right _ _)

/-! ### Nesting of combinations -/

/-- How deep the brackets around and in an operand of a conjunction are nested. -/
def operandNesting (p : Predicate) : Nat := if p.isDisjunction then p.nesting + 1 else p.nesting

theorem nesting_le_operandNesting (p : Predicate) : p.nesting ≤ p.operandNesting := by
  unfold operandNesting
  split
  · exact Nat.le_succ _
  · exact Nat.le_refl _

theorem operandNesting_le (p : Predicate) : p.operandNesting ≤ p.nesting + 1 := by
  unfold operandNesting
  split
  · exact Nat.le_refl _
  · exact Nat.le_succ _

/-- The deepest nesting of items. -/
def deepestOf {β : Type} (depth : β → Nat) (xs : List β) : Nat :=
  xs.foldr (fun x deepest => max (depth x) deepest) 0

theorem deepestOf_append {β : Type} (depth : β → Nat) (xs ys : List β) :
    deepestOf depth (xs ++ ys) = max (deepestOf depth xs) (deepestOf depth ys) := by
  induction xs with
  | nil => simp [deepestOf]
  | cons x xs ih =>
    show max (depth x) (deepestOf depth (xs ++ ys)) = max (max (depth x) (deepestOf depth xs)) _
    rw [ih, Nat.max_assoc]

theorem deepestOf_singleton {β : Type} (depth : β → Nat) (x : β) : deepestOf depth [x] = depth x :=
  Nat.max_eq_left (Nat.zero_le _)

theorem conjunctNesting_eq (children : List Predicate) :
    conjunctNesting children = deepestOf operandNesting children := by
  induction children with
  | nil => rfl
  | cons child children ih =>
    rw [conjunctNesting, ih]
    rfl

theorem disjunctNesting_eq (children : List Predicate) :
    disjunctNesting children = deepestOf nesting children := by
  induction children with
  | nil => rfl
  | cons child children ih =>
    rw [disjunctNesting, ih]
    rfl

theorem deepestOf_conjuncts (p : Predicate) :
    deepestOf operandNesting p.conjuncts ≤ p.operandNesting := by
  cases p with
  | all => exact Nat.zero_le _
  | conjunction children => exact (conjunctNesting_eq children).ge
  | _ => exact (deepestOf_singleton operandNesting _).le

theorem deepestOf_disjuncts (p : Predicate) : deepestOf nesting p.disjuncts = p.nesting := by
  cases p with
  | disjunction children => exact (disjunctNesting_eq children).symm
  | _ => exact deepestOf_singleton nesting _

/-- As an operand, a conjunction is nested no deeper than its parts are as operands. -/
theorem operandNesting_and (p q : Predicate) :
    (p.and q).operandNesting ≤ max p.operandNesting q.operandNesting := by
  refine and_induction (motive := fun r => r.operandNesting ≤ max p.operandNesting q.operandNesting)
    (Nat.le_max_left _ _) (Nat.le_max_right _ _) ?_
  intro _ _
  have hnesting : (conjunction (p.conjuncts ++ q.conjuncts)).operandNesting
      = deepestOf operandNesting (p.conjuncts ++ q.conjuncts) := conjunctNesting_eq _
  rw [hnesting, deepestOf_append]
  exact max_le_max (deepestOf_conjuncts p) (deepestOf_conjuncts q)

/-- A disjunction is nested as deep as its parts. -/
theorem nesting_or (p q : Predicate) : (p.or q).nesting = max p.nesting q.nesting := by
  rw [or_eq, nesting, disjunctNesting_eq, deepestOf_append, deepestOf_disjuncts,
    deepestOf_disjuncts]

end Predicate

end Criteria
