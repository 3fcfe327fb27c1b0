import Criteria.Proofs.Language.LeafTokens
import Criteria.Proofs.NormalForm

/-! # Nothing is lost

The comparisons and existence tests of a predicate are those that its criteria write, each once and
in the same order. Only what is constant leaves no node behind.
-/

set_option autoImplicit false

namespace Criteria

open Criteria.Language Criteria.Structural

/-- The nodes of what a front end accepts are what the leaves of the text, in the order of the
source, or the entries of the document, in its order, yield one by one, apart from constants. -/
theorem accepted_nodes (c : Catalog) (limits : Limits) (rootType : String) :
    (∀ source p, compile c limits rootType source = .ok p →
      ∃ e yields, Expression.parse limits.maxDepth source = .ok e ∧
        (e.leaves.Pairwise fun l m => l.leaf.extent.Before m.leaf.extent) ∧
        e.leaves.mapM (PlacedLeaf.compile c limits (Scope.root rootType)) = .ok yields ∧
        p.nodes = yields.filter fun q => !q.isConstant) ∧
    ∀ criteria p, convert c limits rootType criteria = .ok p →
      ∃ yields,
        (memberEntries c (Scope.root rootType) criteria).mapM (Entry.convert limits) = .ok yields ∧
        p.nodes = yields.filter fun q => !q.isConstant := by
  constructor
  · intro source p h
    obtain ⟨e, hparse, -, hp⟩ := compile_eq_ok.1 h
    obtain ⟨yields, hyields, hnodes⟩ := (e.toPredicate_assembled hp).exists_yields
    exact ⟨e, yields, hparse, parse_leaves_ordered hparse, hyields, hnodes⟩
  · intro criteria p h
    exact (convert_assembled h).exists_yields

theorem staff_predicates_nodes :
    (∃ e yields, Expression.parse 64
        "this.name is null & this.manager.exists(this.age in (7, 8, 7))" = .ok e ∧
      (e.leaves.Pairwise fun l m => l.leaf.extent.Before m.leaf.extent) ∧
      e.leaves.mapM (PlacedLeaf.compile staff {} (Scope.root "Person")) = .ok yields ∧
      managedByChildren.nodes = yields.filter fun q => !q.isConstant) ∧
    ∃ yields,
      (memberEntries staff (Scope.root "Person") startsWithACriteria).mapM
        (Entry.convert {}) = .ok yields ∧
      startsWithA.nodes = yields.filter fun q => !q.isConstant :=
  ⟨(accepted_nodes staff {} "Person").1 _ _ compile_managedByChildren,
    (accepted_nodes staff {} "Person").2 _ _ convert_startsWithA⟩

end Criteria
