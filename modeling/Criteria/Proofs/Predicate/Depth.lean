import Criteria.Proofs.Predicate.Assembly
import Criteria.Proofs.Predicate.Text

/-! # Depth of predicates

How deep a comparison or existence test lies in a predicate: inside so many filters, behind so many
relationships, with so many functions around its attribute. The depth of a predicate
(`Predicate.depth`) bounds the sum of the three at every node (`Reaches.le_depth`). A relationship
may count as a level or as none, since the two front ends do not agree on it.
-/

set_option autoImplicit false

namespace Criteria

namespace Predicate

/-! ## Nodes and what is around them -/

/-- The relationships that a node follows itself. -/
def ownHops : Predicate → Nat
  | existence _ relationship _ => relationship.segments.length
  | comparison c => c.operand.path.navigation.length
  | _ => 0

/-- The functions around the attribute of a node. -/
def ownFunctions : Predicate → Nat
  | comparison c => c.operand.nesting
  | _ => 0

/-- A predicate has a node inside so many filters of existence tests, which follow so many
relationships altogether. -/
inductive Reaches : Predicate → Nat → Nat → Predicate → Prop
  | self {p : Predicate} : Reaches p 0 0 p
  | conjunct {children : List Predicate} {child node : Predicate} {filters hops : Nat}
      (mem : child ∈ children) (below : Reaches child filters hops node) :
      Reaches (conjunction children) filters hops node
  | disjunct {children : List Predicate} {child node : Predicate} {filters hops : Nat}
      (mem : child ∈ children) (below : Reaches child filters hops node) :
      Reaches (disjunction children) filters hops node
  | filter {test : Existence} {relationship : RelationshipPath} {inner node : Predicate}
      {filters hops : Nat} (below : Reaches inner filters hops node) :
      Reaches (existence test relationship (some inner)) (filters + 1)
        (relationship.segments.length + hops) node

/-! ## Depth -/

section

variable (hop : Nat)

mutual

/-- How deep filters, relationships and functions are nested in a predicate, if a relationship
counts as so many levels. -/
def depth : Predicate → Nat
  | all => 0
  | none => 0
  | conjunction children => depthOfList children
  | disjunction children => depthOfList children
  | existence _ relationship filter =>
    hop * relationship.segments.length + depthOfFilter filter
  | comparison c => hop * c.operand.path.navigation.length + c.operand.nesting

/-- The depth of the deepest operand of a combination. -/
def depthOfList : List Predicate → Nat
  | [] => 0
  | p :: ps => max p.depth (depthOfList ps)

/-- The depth of a filter with the level that it adds, if there is one. -/
def depthOfFilter : Option Predicate → Nat
  | .none => 0
  | some p => p.depth + 1

end

end

variable {hop : Nat}

theorem depth_le_depthOfList {p : Predicate} {ps : List Predicate} (h : p ∈ ps) :
    p.depth hop ≤ depthOfList hop ps := by
  induction ps with
  | nil => cases h
  | cons q qs ih =>
    rw [depthOfList]
    rcases List.mem_cons.1 h with rfl | h
    · exact Nat.le_max_left _ _
    · exact (ih h).trans (Nat.le_max_right _ _)

/-- What is around a node and what it has of its own is no more than the depth. -/
theorem Reaches.le_depth {p node : Predicate} {filters hops : Nat}
    (h : p.Reaches filters hops node) :
    filters + hop * (hops + node.ownHops) + node.ownFunctions ≤ p.depth hop := by
  induction h with
  | @self p => cases p <;> simp [ownHops, ownFunctions, depth]
  | conjunct mem below ih => exact ih.trans (depth_le_depthOfList mem)
  | disjunct mem below ih => exact ih.trans (depth_le_depthOfList mem)
  | @filter test relationship inner node filters hops below ih =>
    rw [depth, depthOfFilter, Nat.add_assoc relationship.segments.length, Nat.mul_add]
    omega

/-! ## Depth of combinations -/

theorem depthOfList_append (ps qs : List Predicate) :
    depthOfList hop (ps ++ qs) = max (depthOfList hop ps) (depthOfList hop qs) := by
  induction ps with
  | nil => rw [List.nil_append, depthOfList, Nat.zero_max]
  | cons p ps ih => rw [List.cons_append, depthOfList, depthOfList, ih, Nat.max_assoc]

theorem depthOfList_singleton (p : Predicate) : depthOfList hop [p] = p.depth hop := by
  rw [depthOfList, depthOfList, Nat.max_zero]

/-- The operands of a conjunction are as deep as it is. -/
theorem depthOfList_conjuncts (p : Predicate) : depthOfList hop p.conjuncts = p.depth hop := by
  cases p with
  | all => rfl
  | conjunction children => rw [conjuncts, depth]
  | _ => exact depthOfList_singleton _

/-- The operands of a disjunction are as deep as it is. -/
theorem depthOfList_disjuncts (p : Predicate) : depthOfList hop p.disjuncts = p.depth hop := by
  cases p with
  | disjunction children => rw [disjuncts, depth]
  | _ => exact depthOfList_singleton _

theorem depth_and (p q : Predicate) :
    (p.and q).depth hop = max (p.depth hop) (q.depth hop) := by
  by_cases hp : p = all
  · rw [hp, all_and, depth, Nat.zero_max]
  · by_cases hq : q = all
    · rw [hq, and_all, depth, Nat.max_zero]
    · rw [and_eq hp hq, depth, depthOfList_append, depthOfList_conjuncts, depthOfList_conjuncts]

theorem depth_or (p q : Predicate) :
    (p.or q).depth hop = max (p.depth hop) (q.depth hop) := by
  rw [or_eq, depth, depthOfList_append, depthOfList_disjuncts, depthOfList_disjuncts]

/-- What a comparison of a reference yields is as deep as the reference, or a constant. -/
theorem IsYieldOf.depth_le {a : AttributeRef} {p : Predicate} (h : p.IsYieldOf a) :
    p.depth hop ≤ hop * a.path.navigation.length + a.nesting := by
  rcases h with rfl | rfl | ⟨found, rfl, rfl⟩
  · exact Nat.zero_le _
  · exact Nat.zero_le _
  · exact Nat.le_refl _

end Predicate

end Criteria
