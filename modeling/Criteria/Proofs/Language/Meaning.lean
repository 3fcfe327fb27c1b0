import Criteria.Proofs.Language.Compiling
import Criteria.Proofs.Predicate.Meaning

/-! # The meaning of expressions

An expression is read as it stands: `&` and `|` join their operands, groups add nothing, a leaf is
the predicate that its operator yields, and a filter is about the type its path leads to. The
predicate of an expression means the same (`compile_holds`).
-/

set_option autoImplicit false

namespace Criteria

/-- Whether a result is a predicate that holds. -/
def ResultHolds {ε Entity : Type} (I : Interpretation Entity) (result : Except ε Predicate)
    (x : Entity) : Prop :=
  ∃ p, result = .ok p ∧ p.Holds I x

theorem resultHolds_iff {ε Entity : Type} {I : Interpretation Entity} {result : Except ε Predicate}
    {p : Predicate} (h : result = .ok p) (x : Entity) : ResultHolds I result x ↔ p.Holds I x := by
  rw [h]
  constructor
  · rintro ⟨q, hq, hholds⟩
    cases hq
    exact hholds
  · exact fun hholds => ⟨p, rfl, hholds⟩

namespace Language

variable {Entity : Type} (I : Interpretation Entity) (c : Catalog) (limits : Limits)

/-- What an operator yields of the operand that a term writes. -/
def Term.compare (s : Scope) (operand : Term) (comparator : Comparator) (argument : Argument) :
    Except Rejection Predicate := do
  let a ← operand.resolve c s
  a.compare limits comparator argument

namespace Expression

mutual

/-- Whether the expression, read in a scope, holds at an entity. -/
def Holds (s : Scope) : Expression → Entity → Prop
  | all _, _ => True
  | none _, _ => False
  | conjunction _ first others, x => first.Holds s x ∧ EveryHolds s others x
  | disjunction _ first others, x => first.Holds s x ∨ SomeHolds s others x
  | group _ inner, x => inner.Holds s x
  | unary _ operand comparator, x =>
    ResultHolds I (operand.compare c limits s comparator .empty) x
  | binary _ operand comparator parameter, x =>
    ResultHolds I (operand.compare c limits s comparator (.value parameter.value)) x
  | existence _ navigation test filter, x =>
    match navigation.navigate c s with
    | .ok target =>
      I.Tests test ⟨target.rootType, target.navigation, target.currentType⟩
        (FilterHolds target.rebase filter) x
    | .error _ => False

/-- Whether all of the expressions hold. -/
def EveryHolds (s : Scope) : List Expression → Entity → Prop
  | [], _ => True
  | e :: es, x => e.Holds s x ∧ EveryHolds s es x

/-- Whether one of the expressions holds. -/
def SomeHolds (s : Scope) : List Expression → Entity → Prop
  | [], _ => False
  | e :: es, x => e.Holds s x ∨ SomeHolds s es x

/-- Whether the filter holds, if there is one. -/
def FilterHolds (s : Scope) : Option Expression → Entity → Prop
  | .none, _ => True
  | some e, x => e.Holds s x

end

/-- A way to join predicates and the connective that it stands for, with what the connective makes
of all further operands. -/
structure Joins (s : Scope) (join : Predicate → Predicate → Predicate)
    (connect : Prop → Prop → Prop) (Others : List Expression → Entity → Prop) : Prop where
  holds_join {p q : Predicate} {x : Entity} :
    (join p q).Holds I x ↔ connect (p.Holds I x) (q.Holds I x)
  others_nil {P : Prop} {x : Entity} : connect P (Others [] x) ↔ P
  others_cons {P : Prop} {e : Expression} {es : List Expression} {x : Entity} :
    connect P (Others (e :: es) x) ↔ connect (connect P (e.Holds I c limits s x)) (Others es x)

variable {I c limits}

theorem joins_and (s : Scope) :
    Joins I c limits s Predicate.and And (EveryHolds I c limits s) where
  holds_join := Predicate.holds_and
  others_nil := by
    intro P x
    rw [EveryHolds, and_true]
  others_cons := by
    intro P e es x
    rw [EveryHolds, and_assoc]

theorem joins_or (s : Scope) :
    Joins I c limits s Predicate.or Or (SomeHolds I c limits s) where
  holds_join := Predicate.holds_or
  others_nil := by
    intro P x
    rw [SomeHolds, or_false]
  others_cons := by
    intro P e es x
    rw [SomeHolds, or_assoc]

mutual

/-- The predicate of an expression means what the expression means. -/
theorem toPredicate_holds : ∀ (e : Expression) {s : Scope} {p : Predicate},
    e.toPredicate c limits s = .ok p → ∀ x, p.Holds I x ↔ e.Holds I c limits s x
  | all _, s, p, h, x => by
    cases h
    rw [Predicate.Holds, Holds]
  | none _, s, p, h, x => by
    cases h
    rw [Predicate.Holds, Holds]
  | conjunction _ first others, s, p, h, x => by
    rw [toPredicate, bind_eq_ok] at h
    obtain ⟨q, hq, h⟩ := h
    rw [Holds, foldOthers_holds (joins_and s) others h, toPredicate_holds first hq]
  | disjunction _ first others, s, p, h, x => by
    rw [toPredicate, bind_eq_ok] at h
    obtain ⟨q, hq, h⟩ := h
    rw [Holds, foldOthers_holds (joins_or s) others h, toPredicate_holds first hq]
  | group _ inner, s, p, h, x => by
    rw [toPredicate] at h
    rw [Holds]
    exact toPredicate_holds inner h x
  | unary _ operand comparator, s, p, h, x => by
    rw [toPredicate, atExtent_eq_ok] at h
    rw [Holds]
    exact (resultHolds_iff h x).symm
  | binary _ operand comparator parameter, s, p, h, x => by
    rw [toPredicate, atExtent_eq_ok] at h
    rw [Holds]
    exact (resultHolds_iff h x).symm
  | existence _ navigation test filter, s, p, h, x => by
    obtain ⟨target, inner, htarget, hinner, rfl⟩ := toPredicate_existence_eq_ok.1 h
    rw [Predicate.Holds, Holds, htarget]
    exact Interpretation.tests_congr (toFilter_holds filter hinner) x

theorem foldOthers_holds {s : Scope} {join : Predicate → Predicate → Predicate}
    {connect : Prop → Prop → Prop} {Others : List Expression → Entity → Prop}
    (hjoins : Joins I c limits s join connect Others) : ∀ (es : List Expression) {p q : Predicate},
    foldOthers c limits s join p es = .ok q →
      ∀ x, q.Holds I x ↔ connect (p.Holds I x) (Others es x)
  | [], p, q, h, x => by
    cases h
    exact hjoins.others_nil.symm
  | e :: es, p, q, h, x => by
    rw [foldOthers, bind_eq_ok] at h
    obtain ⟨r, hr, h⟩ := h
    rw [foldOthers_holds hjoins es h, hjoins.holds_join, toPredicate_holds e hr,
      hjoins.others_cons]

theorem toFilter_holds : ∀ (filter : Option Expression) {s : Scope} {found : Option Predicate},
    toFilter c limits s filter = .ok found →
      ∀ x, Predicate.FilterHolds I found x ↔ FilterHolds I c limits s filter x
  | .none, s, found, h, x => by
    cases h
    rw [Predicate.FilterHolds, FilterHolds]
  | some e, s, found, h, x => by
    obtain ⟨p, hp, rfl⟩ := toFilter_some_eq_ok.1 h
    rw [Predicate.FilterHolds, FilterHolds, toPredicate_holds e hp]

end

end Expression

variable {I c limits}

/-- The predicate of a text means what its expression means. -/
theorem compile_holds {rootType source : String} {p : Predicate}
    (h : compile c limits rootType source = .ok p) :
    ∃ e, Expression.parse limits.maxDepth source = .ok e ∧
      ∀ x, p.Holds I x ↔ e.Holds I c limits (Scope.root rootType) x := by
  obtain ⟨e, hparse, -, hp⟩ := compile_eq_ok.1 h
  exact ⟨e, hparse, e.toPredicate_holds hp⟩

end Language

end Criteria
