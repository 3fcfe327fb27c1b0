import Criteria.Proofs.Language.Leaves
import Criteria.Proofs.Soundness
import Criteria.Proofs.Structural.Entries

/-! # Normal form

However predicates are obtained from the front ends and combined further, their combinations are
flat at every depth.
-/

set_option autoImplicit false

namespace Criteria

/-- A predicate that a front end returns for some input, or that is combined from such
predicates. -/
inductive Obtained : Predicate → Prop
  | compiled {c : Catalog} {limits : Limits} {rootType source : String} {p : Predicate}
      (h : Language.compile c limits rootType source = .ok p) : Obtained p
  | converted {c : Catalog} {limits : Limits} {rootType : String}
      {criteria : List (String × Json)} {p : Predicate}
      (h : Structural.convert c limits rootType criteria = .ok p) : Obtained p
  | and {p q : Predicate} (left : Obtained p) (right : Obtained q) : Obtained (p.and q)
  | or {p q : Predicate} (left : Obtained p) (right : Obtained q) : Obtained (p.or q)

/-- Both front ends return predicates in normal form, and combining predicates keeps it. -/
theorem Obtained.predicate_normal {p : Predicate} (h : Obtained p) : p.Normal := by
  induction h with
  | compiled h =>
    obtain ⟨e, -, -, hp⟩ := Language.compile_eq_ok.1 h
    exact (e.toPredicate_assembled hp).normal
  | converted h => exact (Structural.convert_assembled h).normal
  | and left right ihleft ihright => exact ihleft.and ihright
  | or left right ihleft ihright => exact ihleft.or ihright

theorem staff_combinations_normal :
    (managedByChildren.and startsWithA).Normal ∧
      ((managedByChildren.or startsWithA).or managedByChildren).Normal :=
  have hcompiled : Obtained managedByChildren := .compiled compile_managedByChildren
  have hconverted : Obtained startsWithA := .converted convert_startsWithA
  ⟨Obtained.predicate_normal (.and hcompiled hconverted),
    Obtained.predicate_normal (.or (.or hcompiled hconverted) hcompiled)⟩

end Criteria
