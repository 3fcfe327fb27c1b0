import Criteria.Proofs.Operators.Dispatch
import Criteria.Proofs.Predicate.Shape

/-! # How predicates are assembled

Both front ends put predicates together from what single leaves yield: they join with `and` and
`or`, and they place an existence test in front of its filter. `Predicate.Assembled` records the
yields of the leaves in their order. Whatever is assembled is in normal form (`Assembled.normal`),
and its comparisons and existence tests are the yields that are not constant (`Assembled.nodes_eq`).
-/

set_option autoImplicit false

namespace Criteria

namespace Predicate

/-! ## Nodes -/

/-- Whether the predicate holds of everything or of nothing. -/
def isConstant : Predicate → Bool
  | all => true
  | none => true
  | _ => false

mutual

/-- The comparisons and existence tests of a predicate from left to right, each test without its
filter and in front of the nodes of its filter. -/
def nodes : Predicate → List Predicate
  | all => []
  | none => []
  | conjunction children => nodesOfList children
  | disjunction children => nodesOfList children
  | existence test relationship filter =>
    existence test relationship .none :: nodesOfFilter filter
  | comparison c => [comparison c]

/-- The nodes of the operands of a combination. -/
def nodesOfList : List Predicate → List Predicate
  | [] => []
  | p :: ps => p.nodes ++ nodesOfList ps

/-- The nodes of a filter, if there is one. -/
def nodesOfFilter : Option Predicate → List Predicate
  | .none => []
  | some p => p.nodes

end

theorem nodesOfList_append (ps qs : List Predicate) :
    nodesOfList (ps ++ qs) = nodesOfList ps ++ nodesOfList qs := by
  induction ps with
  | nil => rfl
  | cons p ps ih => rw [List.cons_append, nodesOfList, nodesOfList, ih, List.append_assoc]

theorem nodesOfList_singleton (p : Predicate) : nodesOfList [p] = p.nodes := by
  rw [nodesOfList, nodesOfList, List.append_nil]

/-- The operands of a conjunction have its nodes. -/
theorem nodesOfList_conjuncts (p : Predicate) : nodesOfList p.conjuncts = p.nodes := by
  cases p with
  | all => rfl
  | conjunction children => rw [conjuncts, nodes]
  | _ => exact nodesOfList_singleton _

/-- The operands of a disjunction have its nodes. -/
theorem nodesOfList_disjuncts (p : Predicate) : nodesOfList p.disjuncts = p.nodes := by
  cases p with
  | disjunction children => rw [disjuncts, nodes]
  | _ => exact nodesOfList_singleton _

theorem nodes_and (p q : Predicate) : (p.and q).nodes = p.nodes ++ q.nodes := by
  by_cases hp : p = all
  · rw [hp, all_and, nodes, List.nil_append]
  · by_cases hq : q = all
    · rw [hq, and_all, nodes, List.append_nil]
    · rw [and_eq hp hq, nodes, nodesOfList_append, nodesOfList_conjuncts, nodesOfList_conjuncts]

theorem nodes_or (p q : Predicate) : (p.or q).nodes = p.nodes ++ q.nodes := by
  rw [or_eq, nodes, nodesOfList_append, nodesOfList_disjuncts, nodesOfList_disjuncts]

/-! ## Assembly -/

/-- What a leaf yields: a constant or a comparison. -/
def IsYield (p : Predicate) : Prop := p = all ∨ p = none ∨ ∃ found, p = comparison found

/-- What a comparison of a reference yields: a constant, or a comparison of that reference. -/
def IsYieldOf (a : AttributeRef) (p : Predicate) : Prop :=
  p = all ∨ p = none ∨ ∃ found, p = comparison found ∧ found.operand = a

theorem IsYieldOf.isYield {a : AttributeRef} {p : Predicate} (h : p.IsYieldOf a) : p.IsYield := by
  rcases h with rfl | rfl | ⟨found, rfl, -⟩
  · exact .inl rfl
  · exact .inr (.inl rfl)
  · exact .inr (.inr ⟨found, rfl⟩)

/-- The predicate is put together from what leaves yield, in this order. An existence test counts
as a leaf of its own, in front of the leaves of its filter. -/
inductive Assembled : List Predicate → Predicate → Prop
  | all : Assembled [] all
  | none : Assembled [] none
  | yield {p : Predicate} (h : p.IsYield) : Assembled [p] p
  | and {ps qs : List Predicate} {p q : Predicate} (left : Assembled ps p)
      (right : Assembled qs q) : Assembled (ps ++ qs) (p.and q)
  | or {ps qs : List Predicate} {p q : Predicate} (left : Assembled ps p)
      (right : Assembled qs q) : Assembled (ps ++ qs) (p.or q)
  | bare {test : Existence} {r : RelationshipPath} :
      Assembled [existence test r .none] (existence test r .none)
  | filtered {test : Existence} {r : RelationshipPath} {ps : List Predicate} {p : Predicate}
      (filter : Assembled ps p) :
      Assembled (existence test r .none :: ps) (existence test r (some p))

namespace Assembled

variable {ps : List Predicate} {p : Predicate}

/-- What is assembled is in normal form. -/
theorem normal (h : Assembled ps p) : p.Normal := by
  induction h with
  | all => exact .all
  | none => exact .none
  | yield h =>
    rcases h with rfl | rfl | ⟨found, rfl⟩
    · exact .all
    · exact .none
    · exact .comparison
  | and left right ihleft ihright => exact ihleft.and ihright
  | or left right ihleft ihright => exact ihleft.or ihright
  | bare => exact .existence fun q hq => nomatch hq
  | filtered filter ih =>
    refine .existence ?_
    intro q hq
    obtain rfl := Option.mem_some_iff.1 hq
    exact ih

/-- Nothing but constants is lost, and nothing is duplicated or moved. -/
theorem nodes_eq (h : Assembled ps p) : p.nodes = ps.filter fun q => !q.isConstant := by
  induction h with
  | all => rfl
  | none => rfl
  | yield h => rcases h with rfl | rfl | ⟨found, rfl⟩ <;> rfl
  | and left right ihleft ihright => rw [nodes_and, List.filter_append, ihleft, ihright]
  | or left right ihleft ihright => rw [nodes_or, List.filter_append, ihleft, ihright]
  | bare => rfl
  | filtered filter ih =>
    rw [nodes, nodesOfFilter, ih]
    rfl

end Assembled

/-! ## Assembly from leaves -/

section

variable {α : Type} {yield : α → Except Rejection Predicate} {xs ys : List α} {p q : Predicate}

/-- The predicate is put together from what the leaves yield one after the other. -/
def AssembledFrom (yield : α → Except Rejection Predicate) (xs : List α) (p : Predicate) : Prop :=
  ∃ yields, List.Forall₂ (fun x q => yield x = .ok q) xs yields ∧ Assembled yields p

namespace AssembledFrom

theorem nil (h : Assembled [] p) : AssembledFrom yield [] p := ⟨[], .nil, h⟩

theorem single {x : α} (hx : yield x = .ok p) (h : Assembled [p] p) : AssembledFrom yield [x] p :=
  ⟨[p], .cons hx .nil, h⟩

theorem and (left : AssembledFrom yield xs p) (right : AssembledFrom yield ys q) :
    AssembledFrom yield (xs ++ ys) (p.and q) := by
  obtain ⟨yields, hyields, hp⟩ := left
  obtain ⟨yields', hyields', hq⟩ := right
  exact ⟨yields ++ yields', List.rel_append hyields hyields', hp.and hq⟩

theorem or (left : AssembledFrom yield xs p) (right : AssembledFrom yield ys q) :
    AssembledFrom yield (xs ++ ys) (p.or q) := by
  obtain ⟨yields, hyields, hp⟩ := left
  obtain ⟨yields', hyields', hq⟩ := right
  exact ⟨yields ++ yields', List.rel_append hyields hyields', hp.or hq⟩

theorem filtered {test : Existence} {r : RelationshipPath} {x : α}
    (hx : yield x = .ok (existence test r .none)) (h : AssembledFrom yield xs p) :
    AssembledFrom yield (x :: xs) (existence test r (some p)) := by
  obtain ⟨yields, hyields, hp⟩ := h
  exact ⟨_, .cons hx hyields, hp.filtered⟩

theorem map {β : Type} {yield' : β → Except Rejection Predicate} {f : α → β}
    (hf : ∀ x, yield' (f x) = yield x) (h : AssembledFrom yield xs p) :
    AssembledFrom yield' (xs.map f) p := by
  obtain ⟨yields, hyields, hp⟩ := h
  refine ⟨yields, ?_, hp⟩
  rw [List.forall₂_map_left_iff]
  refine hyields.imp ?_
  intro x q hx
  rw [hf]
  exact hx

theorem normal (h : AssembledFrom yield xs p) : p.Normal := by
  obtain ⟨yields, -, hp⟩ := h
  exact hp.normal

/-- The leaves all yield something, and the nodes of the predicate are what they yield, apart from
constants. -/
theorem exists_yields (h : AssembledFrom yield xs p) :
    ∃ yields, xs.mapM yield = .ok yields ∧ p.nodes = yields.filter fun q => !q.isConstant := by
  obtain ⟨yields, hyields, hp⟩ := h
  exact ⟨yields, mapM_eq_ok.2 hyields, hp.nodes_eq⟩

theorem exists_yield (h : AssembledFrom yield xs p) : ∀ x ∈ xs, ∃ q, yield x = .ok q := by
  obtain ⟨yields, hyields, -⟩ := h
  intro x hx
  obtain ⟨i, hi, rfl⟩ := List.mem_iff_getElem.1 hx
  have hi' : i < yields.length := hyields.length_eq ▸ hi
  exact ⟨_, (List.forall₂_iff_get.1 hyields).2 i hi hi'⟩

end AssembledFrom

end

end Predicate

/-! ## Yields of operators -/

namespace AttributeRef

variable {limits : Limits} {a : AttributeRef} {comparator : Comparator} {argument : Argument}
  {p : Predicate}

/-- A comparison operator yields a comparison of its operand, or the constant that a null check
comes to. -/
theorem compare_isYieldOf (h : a.compare limits comparator argument = .ok p) : p.IsYieldOf a := by
  have hcheck : ∀ {c : Comparator} {q : Predicate}, a.ChecksNull c q → q.IsYieldOf a := by
    intro c q hq
    cases hq with
    | compared _ _ => exact .inr (.inr ⟨_, rfl, rfl⟩)
    | never _ => exact .inr (.inl rfl)
    | always _ => exact .inl rfl
  obtain ⟨arity, -, hyields⟩ := compare_iff.1 h
  cases hyields with
  | check h => exact hcheck h
  | bare _ => exact .inr (.inr ⟨_, rfl, rfl⟩)
  | eqNull _ h => exact hcheck h
  | notEqNull _ h => exact hcheck h
  | one _ _ => exact .inr (.inr ⟨_, rfl, rfl⟩)
  | many _ _ _ => exact .inr (.inr ⟨_, rfl, rfl⟩)

theorem compare_isYield (h : a.compare limits comparator argument = .ok p) : p.IsYield :=
  (compare_isYieldOf h).isYield

end AttributeRef

end Criteria
