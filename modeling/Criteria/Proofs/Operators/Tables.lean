import Criteria.Operators.Table
import Mathlib

/-! # Entries of operator tables

A table has one entry for an operator, so the arity that is found for the operator is that of its
entry (`ValueType.arity?_eq_some`), and it fits the operator: comparisons take as many values as
their cardinality says, and functions derive.
-/

set_option autoImplicit false

namespace Criteria

/-- The arity of the entry is that of the operator's own cardinality. -/
def TableEntry.fits : TableEntry → Bool
  | ⟨.compare comparator, arity⟩ =>
    arity ≠ .derive && arity.cardinality? = comparator.cardinality?
  | ⟨.function _, arity⟩ => arity = .derive

namespace ValueType

theorem fits_operators (t : ValueType) : t.operators.all TableEntry.fits = true := by
  cases t <;> decide

theorem nodup_operators (t : ValueType) : (t.operators.map (·.operator)).Nodup := by
  cases t <;> decide

/-- The table finds the arity of an operator exactly if it has an entry that says so. -/
theorem arity?_eq_some {t : ValueType} {o : Operator} {arity : Arity} :
    t.arity? o = some arity ↔ ⟨o, arity⟩ ∈ t.operators := by
  unfold arity?
  rw [Option.map_eq_some_iff]
  constructor
  · rintro ⟨entry, hentry, rfl⟩
    have hoperator := List.find?_some hentry
    rw [← of_decide_eq_true hoperator]
    exact List.mem_of_find?_eq_some hentry
  · intro h
    have hsome : (t.operators.find? (·.operator = o)).isSome = true := by
      rw [List.find?_isSome]
      exact ⟨_, h, decide_eq_true rfl⟩
    obtain ⟨found, hfound⟩ := Option.isSome_iff_exists.1 hsome
    have hoperator : found.operator = o := of_decide_eq_true (List.find?_some hfound :)
    have hsame := List.inj_on_of_nodup_map t.nodup_operators (List.mem_of_find?_eq_some hfound) h
      hoperator
    exact ⟨found, hfound, congrArg TableEntry.arity hsame⟩

theorem cardinality_of_mem {t : ValueType} {comparator : Comparator} {arity : Arity}
    (h : ⟨.compare comparator, arity⟩ ∈ t.operators) :
    arity ≠ .derive ∧ arity.cardinality? = comparator.cardinality? := by
  have hfits := List.all_eq_true.1 t.fits_operators _ h
  simpa [TableEntry.fits] using hfits

/-- An operator has the arity that goes with its cardinality. -/
theorem arity_eq_of_mem {t : ValueType} {comparator : Comparator} {arity expected : Arity}
    (h : ⟨.compare comparator, arity⟩ ∈ t.operators) (hderive : expected ≠ .derive)
    (hcardinality : comparator.cardinality? = expected.cardinality?) : arity = expected := by
  obtain ⟨hcompares, hfits⟩ := cardinality_of_mem h
  rw [hcardinality] at hfits
  cases arity <;> cases expected <;> simp_all [Arity.cardinality?]

/-- Every type offers to check for null. -/
theorem presence_mem_operators (t : ValueType) :
    ⟨.compare .isNull, .unary⟩ ∈ t.operators ∧ ⟨.compare .isNotNull, .unary⟩ ∈ t.operators := by
  cases t <;> decide

/-- Every type can be compared for equality. -/
theorem equality_mem_operators (t : ValueType) :
    ⟨.compare .eq, .one⟩ ∈ t.operators ∧ ⟨.compare .notEq, .one⟩ ∈ t.operators := by
  cases t <;> decide

end ValueType

end Criteria
