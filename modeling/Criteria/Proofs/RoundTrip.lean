import Criteria.Proofs.Language.Rendering
import Criteria.Proofs.Soundness

/-! # Texts of accepted predicates

The text of a predicate that comes from a front end compiles to the predicate again: that of texts
compiled and combined (`compile_text_of_combination`), and that of structural criteria converted
(`compile_text_of_convert`). The depth that brackets have in the text is always enough. It is more
than is needed where the parentheses of a list are the deepest brackets, for a list takes no level
of its own; the nesting of the predicate leaves them out (`Combination.compile_text_of_nesting`,
`compile_text_of_convert_of_nesting`).
-/

set_option autoImplicit false

namespace Criteria

open Criteria.Language Criteria.Structural

/-! ## Limits on the depth -/

/-- The limits with another depth. -/
def Limits.withDepth (limits : Limits) (maxDepth : Nat) : Limits :=
  { limits with maxDepth := maxDepth }

section

variable {c : Catalog} {limits : Limits} {rootType : String} {p : Predicate}

/-- The depth has no part in what is well typed. -/
theorem wellTyped_withDepth (c : Catalog) (limits : Limits) (maxDepth : Nat) :
    Predicate.WellTyped c (limits.withDepth maxDepth) = Predicate.WellTyped c limits := by
  have hcomparison : Comparison.WellTyped c (limits.withDepth maxDepth) =
      Comparison.WellTyped c limits := by
    funext root found
    apply propext
    constructor
    · exact fun h => ⟨h.operand, h.offered, h.fits, h.nullable, h.notAsOf⟩
    · exact fun h => ⟨h.operand, h.offered, h.fits, h.nullable, h.notAsOf⟩
  unfold Predicate.WellTyped
  rw [hcomparison]

theorem Language.Readable.withDepth (h : Readable c limits rootType p) (maxDepth : Nat) :
    Readable c (limits.withDepth maxDepth) rootType p where
  wellTyped := (wellTyped_withDepth c limits maxDepth).symm ▸ h.wellTyped
  named := h.named
  printable := h.printable
  normal := h.normal

/-! ## Predicates of texts -/

/-- A predicate that texts about one type compile to, and what predicates of such texts are combined
to. The texts may be compiled with limits of their own on the depth. -/
inductive Combination (c : Catalog) (limits : Limits) (rootType : String) : Predicate → Prop
  | compiled {maxDepth : Nat} {source : String} {p : Predicate}
      (h : compile c (limits.withDepth maxDepth) rootType source = .ok p) :
      Combination c limits rootType p
  | and {p q : Predicate} (left : Combination c limits rootType p)
      (right : Combination c limits rootType q) : Combination c limits rootType (p.and q)
  | or {p q : Predicate} (left : Combination c limits rootType p)
      (right : Combination c limits rootType q) : Combination c limits rootType (p.or q)

namespace Combination

theorem exists_entity (h : Combination c limits rootType p) :
    ∃ entity, c.entity? rootType = some entity := by
  induction h with
  | compiled h =>
    obtain ⟨-, -, hentity, -⟩ := compile_eq_ok.1 h
    exact hentity
  | and _ _ ih _ => exact ih
  | or _ _ ih _ => exact ih

/-- Combinations have every property that building predicates keeps. -/
theorem kept {P : String → Predicate → Prop}
    (k : ∀ maxDepth, Predicate.Kept c (limits.withDepth maxDepth) IsWord P)
    (h : Combination c limits rootType p) : P rootType p := by
  induction h with
  | compiled h => exact compile_kept (k _) h
  | and _ _ ihp ihq => exact (k 0).and ihp ihq
  | or _ _ ihp ihq => exact (k 0).or ihp ihq

theorem readable (h : Combination c limits rootType p) (hprintable : p.Printable rootType) :
    Readable c limits rootType p where
  wellTyped := h.kept fun maxDepth =>
    wellTyped_withDepth c limits maxDepth ▸ .wellTyped c (limits.withDepth maxDepth) IsWord
  named := h.kept fun maxDepth => .named c (limits.withDepth maxDepth) IsWord
  printable := hprintable
  normal := h.kept fun maxDepth => .normal c (limits.withDepth maxDepth) IsWord

/-- The text of a combination compiles with room for as many brackets inside each other as the
combination is nested, those of lists apart. -/
theorem compile_text_of_nesting (h : Combination c limits rootType p)
    (hprintable : p.Printable rootType) {maxDepth : Nat} (hnesting : p.nesting ≤ maxDepth) :
    compile c (limits.withDepth maxDepth) rootType p.text = .ok p :=
  ((h.readable hprintable).withDepth maxDepth).compile_text_of_nesting h.exists_entity hnesting

end Combination

/-- The filter is one bracket deep, and the list in it a second one. -/
example : managedByChildren.nesting = 1 ∧ bracketNesting managedByChildren.text = 2 :=
  ⟨rfl, by cbv⟩

/-- The text of a combination compiles to the combination. -/
theorem compile_text_of_combination (h : Combination c limits rootType p)
    (hprintable : p.Printable rootType) {maxDepth : Nat}
    (hnesting : bracketNesting p.text ≤ maxDepth) :
    compile c (limits.withDepth maxDepth) rootType p.text = .ok p :=
  ((h.readable hprintable).withDepth maxDepth).compile_text h.exists_entity hnesting

theorem printable_managedByChildren : managedByChildren.Printable "Person" := by
  refine .conjunction ?_
  intro p hp
  rcases List.mem_pair.1 hp with rfl | rfl
  · exact .comparison fun v hv => nomatch hv
  · refine .existence trivial ?_
    intro p hp
    obtain rfl := Option.mem_some_iff.1 hp
    refine .comparison ?_
    intro v hv
    rcases List.mem_pair.1 hv with rfl | rfl
    · exact trivial
    · exact trivial

/-- A disjunction of conjunctions, which were compiled with room for 64 brackets inside each other,
compiles with room for two. -/
theorem compile_text_managedByChildren :
    compile staff (Limits.withDepth {} 2) "Person"
      (managedByChildren.or managedByChildren).text =
        .ok (managedByChildren.or managedByChildren) :=
  have hcompiled : Combination staff {} "Person" managedByChildren :=
    .compiled compile_managedByChildren
  compile_text_of_combination (hcompiled.or hcompiled)
    (printable_managedByChildren.or printable_managedByChildren) (by cbv)

/-! ## Predicates of structural criteria -/

theorem readable_of_convert (hnamed : c.Named IsWord) {criteria : List (String × Json)}
    (hdocument : ∀ m ∈ criteria, m.2.Bounded) (h : convert c limits rootType criteria = .ok p)
    (hprintable : p.Printable rootType) : Readable c limits rootType p where
  wellTyped := convert_kept (.wellTyped c limits IsWord) hnamed hdocument h
  named := convert_kept (.named c limits IsWord) hnamed hdocument h
  printable := hprintable
  normal := convert_kept (.normal c limits IsWord) hnamed hdocument h

/-- The text of the predicate of structural criteria compiles with room for as many brackets inside
each other as the predicate is nested, those of lists apart. -/
theorem compile_text_of_convert_of_nesting (hnamed : c.Named IsWord)
    {criteria : List (String × Json)} (hdocument : ∀ m ∈ criteria, m.2.Bounded)
    (h : convert c limits rootType criteria = .ok p) (hprintable : p.Printable rootType)
    {maxDepth : Nat} (hnesting : p.nesting ≤ maxDepth) :
    compile c (limits.withDepth maxDepth) rootType p.text = .ok p := by
  have hreadable := readable_of_convert hnamed hdocument h hprintable
  exact (hreadable.withDepth maxDepth).compile_text_of_nesting (convert_eq_ok.1 h).1 hnesting

/-- The text of the predicate of structural criteria compiles to the predicate, if the names of
members are words. -/
theorem compile_text_of_convert (hnamed : c.Named IsWord) {criteria : List (String × Json)}
    (hdocument : ∀ m ∈ criteria, m.2.Bounded) (h : convert c limits rootType criteria = .ok p)
    (hprintable : p.Printable rootType) {maxDepth : Nat}
    (hnesting : bracketNesting p.text ≤ maxDepth) :
    compile c (limits.withDepth maxDepth) rootType p.text = .ok p := by
  have hreadable := readable_of_convert hnamed hdocument h hprintable
  exact (hreadable.withDepth maxDepth).compile_text (convert_eq_ok.1 h).1 hnesting

end

theorem named_staff : staff.Named IsWord := by
  refine Schema.Named.catalog ?_
  intro e he
  obtain rfl := List.mem_singleton.1 he
  constructor
  · intro a ha
    rcases List.mem_pair.1 ha with rfl | rfl
    · exact isWord_of_toList rfl (by decide +kernel)
    · exact isWord_of_toList rfl (by decide +kernel)
  · intro r hr
    obtain rfl := List.mem_singleton.1 hr
    exact isWord_of_toList rfl (by decide +kernel)

theorem compile_text_startsWithA :
    compile staff (Limits.withDepth {} 1) "Person" startsWithA.text = .ok startsWithA := by
  refine compile_text_of_convert named_staff bounded_startsWithACriteria convert_startsWithA
    (.comparison fun v hv => ?_) (by cbv)
  obtain rfl := List.mem_singleton.1 hv
  exact trivial

end Criteria
