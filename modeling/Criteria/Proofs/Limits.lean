import Criteria.Proofs.Language.NestingLimit
import Criteria.Proofs.Language.Runs
import Criteria.Proofs.Soundness
import Criteria.Proofs.Structural.Runs

/-! # Limits

Limits refuse criteria and do nothing else: with limits that are no larger, a compiler gives the
answer it would give anyway, be it a predicate or an error, or it stops with the error of exceeding
them (`limits_only_refuse`). Whether repeated values of a list are dropped is no limit, so it is the
same for both.
-/

set_option autoImplicit false

namespace Criteria

/-- The error of a text that is nested deeper, or has a longer list, than the limits allow. -/
inductive Language.ExceedsLimits (limits : Limits) : Cause → Prop
  | nesting (position : Nat) :
      ExceedsLimits limits (.unparsable (.nestingTooDeep limits.maxDepth position))
  | list {t : ValueType} {comparator : Comparator} {found : Nat}
      (h : limits.maxListSize < found) :
      ExceedsLimits limits (.rejected (.listTooLong t comparator limits.maxListSize found))

/-- The error of criteria that are nested deeper, or have a longer list, than the limits allow. -/
inductive Structural.ExceedsLimits (limits : Limits) : Cause → Prop
  | nesting : ExceedsLimits limits (.rejected (.tooDeep limits.maxDepth))
  | list {t : ValueType} {comparator : Comparator} {found : Nat}
      (h : limits.maxListSize < found) :
      ExceedsLimits limits (.rejected (.listTooLong t comparator limits.maxListSize found))

/-- Limits no larger than others. -/
structure Limits.Within (limits limits' : Limits) : Prop where
  maxDepth : limits.maxDepth ≤ limits'.maxDepth
  maxListSize : limits.maxListSize ≤ limits'.maxListSize
  deduplicateLists : limits.deduplicateLists = limits'.deduplicateLists

/-- Two runs with the same errors, but that the first may stop with some of its own. -/
def Difference.stopping (exceeds : Cause → Prop) : Difference Cause where
  stops := exceeds
  alike e e' := e = e'
  refl _ := rfl

theorem Follows.stopped_or_eq {α : Type} {exceeds : Cause → Prop} {r r' : Except CompileError α}
    (h : Follows (Difference.stopping exceeds).errors r r') :
    (∃ e, r = .error e ∧ exceeds e.cause) ∨ r = r' := by
  cases h with
  | ok a => exact .inr rfl
  | @stopped e _ h => exact .inl ⟨e, rfl, h⟩
  | @error e e' h =>
    obtain ⟨location, cause⟩ := e
    obtain ⟨hlocation, hcause⟩ := h
    cases hlocation
    cases hcause
    exact .inr rfl

variable {exceeds : Cause → Prop} {limits limits' : Limits}

/-! ## Checks under two limits -/

theorem compareMany_follows (hwithin : limits.Within limits')
    (refuses : ∀ t comparator found, limits.maxListSize < found →
      exceeds (.rejected (.listTooLong t comparator limits.maxListSize found)))
    (a : AttributeRef) (comparator : Comparator) (argument : Argument) :
    Follows (Difference.stopping exceeds).rejections (a.compareMany limits comparator argument)
      (a.compareMany limits' comparator argument) := by
  unfold AttributeRef.compareMany
  split
  · exact .refl _
  · rename_i items
    by_cases hempty : items.isEmpty = true
    · rw [if_pos hempty, if_pos hempty]
      exact .refl _
    · rw [if_neg hempty, if_neg hempty]
      by_cases htoo : limits.maxListSize < items.length
      · rw [if_pos htoo]
        exact .stopped (refuses a.valueType comparator items.length htoo)
      · have hle := hwithin.maxListSize
        have htoo' : ¬limits'.maxListSize < items.length := by omega
        rw [if_neg htoo, if_neg htoo', hwithin.deduplicateLists]
        exact .refl _
  · exact .refl _

theorem compare_follows (hwithin : limits.Within limits')
    (refuses : ∀ t comparator found, limits.maxListSize < found →
      exceeds (.rejected (.listTooLong t comparator limits.maxListSize found))) :
    ComparesFollow (.stopping exceeds) limits limits' := by
  intro a comparator argument
  unfold AttributeRef.compare
  cases a.valueType.arity? (.compare comparator) with
  | none => exact .refl _
  | some arity =>
    dsimp only
    by_cases hasOf : a.valueType = .asOf ∧ comparator = .notEq
    · rw [if_pos hasOf, if_pos hasOf]
      exact .refl _
    · rw [if_neg hasOf, if_neg hasOf]
      cases arity with
      | many => exact compareMany_follows hwithin refuses a comparator argument
      | _ => exact .refl _

theorem Structural.checkDepth_follows (hwithin : limits.Within limits')
    (refuses : exceeds (.rejected (.tooDeep limits.maxDepth))) :
    DepthsFollow (.stopping exceeds) limits limits' := by
  intro context depth
  unfold checkDepth
  by_cases hdeep : limits.maxDepth < depth
  · rw [if_pos hdeep]
    exact .stopped refuses
  · have hle := hwithin.maxDepth
    have hdeep' : ¬limits'.maxDepth < depth := by omega
    rw [if_neg hdeep, if_neg hdeep']
    exact .refl _

/-! ## Answers under two limits -/

/-- Under limits that are no larger, a compiler stops with the error of exceeding them, or its
answer is the same. -/
theorem limits_only_refuse {c : Catalog} {limits limits' : Limits} {rootType : String}
    (hwithin : limits.Within limits') :
    (∀ source,
      (∃ e, Language.compile c limits rootType source = .error e ∧
        Language.ExceedsLimits limits e.cause) ∨
      Language.compile c limits rootType source = Language.compile c limits' rootType source) ∧
    ∀ criteria,
      (∃ e, Structural.convert c limits rootType criteria = .error e ∧
        Structural.ExceedsLimits limits e.cause) ∨
      Structural.convert c limits rootType criteria =
        Structural.convert c limits' rootType criteria := by
  constructor
  · intro source
    have hcompare : ComparesFollow (.stopping (Language.ExceedsLimits limits)) limits limits' :=
      compare_follows hwithin fun _ _ _ h => .list h
    have hparse := Language.Expression.parse_follows hwithin.maxDepth
      (d := .stopping (Language.ExceedsLimits limits)) (fun position => .nesting position) source
    exact (Language.compile_follows (.refl c) hcompare rootType source hparse).stopped_or_eq
  · intro criteria
    have hcompare : ComparesFollow (.stopping (Structural.ExceedsLimits limits)) limits limits' :=
      compare_follows hwithin fun _ _ _ h => .list h
    have hdepth : Structural.DepthsFollow (.stopping (Structural.ExceedsLimits limits)) limits
        limits' := Structural.checkDepth_follows hwithin .nesting
    exact (Structural.convert_follows (.refl c) hcompare hdepth rootType criteria).stopped_or_eq

/-- A list of three is one too many for limits of two, and a function of an attribute is nested one
level too deep for limits of one. -/
theorem staff_limits_refuse :
    (∃ e, Language.compile staff { maxListSize := 2 } "Person"
        "this.name is null & this.manager.exists(this.age in (7, 8, 7))" = .error e ∧
      Language.ExceedsLimits { maxListSize := 2 } e.cause) ∧
    ∃ e, Structural.convert staff { maxDepth := 1 } "Person" startsWithACriteria = .error e ∧
      Structural.ExceedsLimits { maxDepth := 1 } e.cause := by
  constructor
  · have hwithin : Limits.Within { maxListSize := 2 } {} := ⟨by decide, by decide, rfl⟩
    have hfails : (Language.compile staff { maxListSize := 2 } "Person"
        "this.name is null & this.manager.exists(this.age in (7, 8, 7))").isOk = false := by cbv
    apply ((limits_only_refuse hwithin).1 _).resolve_right
    rw [compile_managedByChildren]
    intro h
    rw [h] at hfails
    cases hfails
  · have hwithin : Limits.Within { maxDepth := 1 } {} := ⟨by decide, by decide, rfl⟩
    apply ((limits_only_refuse hwithin).2 _).resolve_right
    rw [convert_startsWithA]
    intro h
    cases h

end Criteria
