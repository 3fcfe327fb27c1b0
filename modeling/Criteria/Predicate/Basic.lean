import Criteria.Attribute
import Criteria.Predicate.Comparator
import Criteria.Value

/-! # Predicates

A predicate is a boolean combination of comparisons and existence tests over the entities of a
type. Combining predicates keeps combinations flat: a conjunction of conjunctions is one
conjunction, and the predicate that holds of everything drops out of it.
-/

set_option autoImplicit false

namespace Criteria

/-- The values a comparison is made with. -/
inductive Parameter where
  | none
  | one (value : Value)
  | many (values : List Value)
  deriving DecidableEq

/-- An attribute compared with values. -/
structure Comparison where
  operand : AttributeRef
  comparator : Comparator
  parameter : Parameter
  deriving DecidableEq

/-- What an existence test asks of the entities at the end of a chain of relationships. -/
inductive Existence where
  | present
  | absent
  | absentRecursively
  deriving DecidableEq

namespace Existence

/-- The name of the test in both notations. -/
def method : Existence → String
  | present => "exists"
  | absent => "notExists"
  | absentRecursively => "recursiveNotExists"

/-- The test of the given name. -/
def ofMethod? : String → Option Existence
  | "exists" => some present
  | "notExists" => some absent
  | "recursiveNotExists" => some absentRecursively
  | _ => none

theorem ofMethod?_method (e : Existence) : ofMethod? e.method = some e := by cases e <;> rfl

end Existence

/-- A boolean filter over the entities of a type. -/
inductive Predicate where
  | all
  | none
  | conjunction (children : List Predicate)
  | disjunction (children : List Predicate)
  | existence (test : Existence) (relationship : RelationshipPath) (filter : Option Predicate)
  | comparison (c : Comparison)

namespace Predicate

/-- Both predicates hold. -/
def and : Predicate → Predicate → Predicate
  | all, other => other
  | this, all => this
  | conjunction left, conjunction right => conjunction (left ++ right)
  | conjunction left, other => conjunction (left ++ [other])
  | this, conjunction right => conjunction (this :: right)
  | this, other => conjunction [this, other]

/-- One of the predicates holds. -/
def or : Predicate → Predicate → Predicate
  | disjunction left, disjunction right => disjunction (left ++ right)
  | disjunction left, other => disjunction (left ++ [other])
  | this, disjunction right => disjunction (this :: right)
  | this, other => disjunction [this, other]

/-- A comparison as a predicate. -/
def compare (operand : AttributeRef) (comparator : Comparator) (parameter : Parameter) :
    Predicate :=
  comparison ⟨operand, comparator, parameter⟩

/-- Whether the predicate is a disjunction. -/
def isDisjunction : Predicate → Bool
  | disjunction _ => true
  | _ => false

mutual

/-- Whether two predicates are the same tree. -/
def same : Predicate → Predicate → Bool
  | all, all => true
  | none, none => true
  | conjunction cs, conjunction ds => sameList cs ds
  | disjunction cs, disjunction ds => sameList cs ds
  | existence t r f, existence t' r' f' => t = t' && r = r' && sameFilter f f'
  | comparison c, comparison d => c = d
  | _, _ => false

/-- Whether two lists hold the same trees. -/
def sameList : List Predicate → List Predicate → Bool
  | [], [] => true
  | c :: cs, d :: ds => same c d && sameList cs ds
  | _, _ => false

/-- Whether two filters are both absent or the same tree. -/
def sameFilter : Option Predicate → Option Predicate → Bool
  | .none, .none => true
  | some p, some q => same p q
  | _, _ => false

end

mutual

theorem same_iff (p q : Predicate) : same p q = true ↔ p = q := by
  cases p with
  | all => cases q <;> simp [same]
  | none => cases q <;> simp [same]
  | conjunction cs => cases q <;> simp [same, sameList_iff cs]
  | disjunction cs => cases q <;> simp [same, sameList_iff cs]
  | existence t r f => cases q <;> simp [same, sameFilter_iff f, and_assoc]
  | comparison c => cases q <;> simp [same]

theorem sameList_iff (cs ds : List Predicate) : sameList cs ds = true ↔ cs = ds := by
  cases cs with
  | nil => cases ds <;> simp [sameList]
  | cons c cs => cases ds <;> simp [sameList, same_iff c, sameList_iff cs]

theorem sameFilter_iff (f g : Option Predicate) : sameFilter f g = true ↔ f = g := by
  cases f with
  | none => cases g <;> simp [sameFilter]
  | some p => cases g <;> simp [sameFilter, same_iff p]

end

instance : DecidableEq Predicate := fun p q => decidable_of_iff _ (same_iff p q)

end Predicate

end Criteria
