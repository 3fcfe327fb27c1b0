import Criteria.Proofs.Soundness
import Criteria.Proofs.Structural.Meaning

/-! # Meaning of accepted predicates

Both front ends preserve meaning: flattening, dropping `all` and folding null checks change
nothing about where a predicate holds.
-/

set_option autoImplicit false

namespace Criteria

open Criteria.Language Criteria.Structural

/-- A predicate that is accepted holds exactly where the text, or the criteria, read as they stand
hold. -/
theorem accepted_holds_iff {Entity : Type} (I : Interpretation Entity) (c : Catalog)
    (limits : Limits) (rootType : String) :
    (∀ source p, compile c limits rootType source = .ok p →
      ∃ e, Expression.parse limits.maxDepth source = .ok e ∧
        ∀ x, p.Holds I x ↔ e.Holds I c limits (Scope.root rootType) x) ∧
    ∀ criteria p, convert c limits rootType criteria = .ok p →
      ∀ x, p.Holds I x ↔ MembersHold I c limits (Scope.root rootType) criteria x :=
  ⟨fun _ _ h => compile_holds h, fun _ _ h => convert_holds h⟩

/-- Persons in a row, of whom each is managed by the next. Every comparison holds of the first
person only. -/
def row : Interpretation Nat where
  holds _ x := x = 0
  related _ x := [x + 1]

theorem staff_predicates_hold_iff :
    (∃ e, Expression.parse 64 "this.name is null & this.manager.exists(this.age in (7, 8, 7))"
        = .ok e ∧
      ∀ x, managedByChildren.Holds row x ↔ e.Holds row staff {} (Scope.root "Person") x) ∧
    ∀ x, startsWithA.Holds row x ↔
      MembersHold row staff {} (Scope.root "Person") startsWithACriteria x :=
  ⟨(accepted_holds_iff row staff {} "Person").1 _ _ compile_managedByChildren,
    (accepted_holds_iff row staff {} "Person").2 _ _ convert_startsWithA⟩

end Criteria
