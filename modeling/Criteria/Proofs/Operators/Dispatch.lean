import Criteria.Operators.Application
import Criteria.Proofs.Operators.Tables
import Criteria.Proofs.Results

/-! # What comparison operators accept

An operator applied to an attribute is accepted exactly if the table of the attribute's type has an
entry for it, and the argument is one that entries of the arity take (`Comparator.Accepts`). It then
yields the comparison with the values that the argument stands for, or the outcome of a null check
(`AttributeRef.Yields`). Both are stated for every attribute and all limits in
`AttributeRef.compare_exact`; what is proved of comparisons elsewhere starts from
`AttributeRef.compare_iff`.
-/

set_option autoImplicit false

namespace Criteria

/-! ## Acceptance and outcome -/

/-- A literal from which an attribute of the type reads the value: one that is neither null nor a
list. -/
def StandsFor (t : ValueType) (v : Value) (l : Literal) : Prop :=
  Value.ofLiteral? t l = some v ∧ l ≠ .null ∧ l.isList = false

/-- The arguments that the operator takes in a table of the type, at an entry of the arity: nothing;
null for equality, else a literal for a value; a list of literals for values. -/
def Comparator.Accepts (limits : Limits) (t : ValueType) (c : Comparator) :
    Arity → Argument → Prop
  | .unary, argument => argument = .empty
  | .one, argument =>
    argument = .value .null ∧ (c = .eq ∨ c = .notEq) ∨
      ¬(t = .asOf ∧ c = .notEq) ∧ ∃ v l, argument = .value l ∧ StandsFor t v l
  | .many, argument =>
    ∃ items, argument = .value (.list items) ∧ 1 ≤ items.length ∧
      items.length ≤ limits.maxListSize ∧ ∀ l ∈ items, ∃ v, StandsFor t v l
  | .derive, _ => False

/-- What a null check comes to: a comparison only where there may be no value. -/
inductive AttributeRef.ChecksNull (a : AttributeRef) : Comparator → Predicate → Prop
  | compared {c : Comparator} (hc : c = .isNull ∨ c = .isNotNull) (h : a.nullable = true) :
      ChecksNull a c (.comparison ⟨a, c, .none⟩)
  | never (h : a.nullable = false) : ChecksNull a .isNull .none
  | always (h : a.nullable = false) : ChecksNull a .isNotNull .all

/-- The predicate that comes of the operator, at an entry of the arity, and an argument that it
takes. -/
inductive AttributeRef.Yields (limits : Limits) (a : AttributeRef) (c : Comparator) :
    Arity → Argument → Predicate → Prop
  | check {p : Predicate} (h : a.ChecksNull c p) : Yields limits a c .unary .empty p
  | bare (hc : ¬(c = .isNull ∨ c = .isNotNull)) :
      Yields limits a c .unary .empty (.comparison ⟨a, c, .none⟩)
  | eqNull {p : Predicate} (hc : c = .eq) (h : a.ChecksNull .isNull p) :
      Yields limits a c .one (.value .null) p
  | notEqNull {p : Predicate} (hc : c = .notEq) (h : a.ChecksNull .isNotNull p) :
      Yields limits a c .one (.value .null) p
  | one {v : Value} {l : Literal} (hasOf : ¬(a.valueType = .asOf ∧ c = .notEq))
      (h : StandsFor a.valueType v l) :
      Yields limits a c .one (.value l) (.comparison ⟨a, c, .one v⟩)
  | many {values : List Value} {items : List Literal} (hne : 1 ≤ items.length)
      (hlength : items.length ≤ limits.maxListSize)
      (h : List.Forall₂ (StandsFor a.valueType) values items) :
      Yields limits a c .many (.value (.list items)) (.comparison ⟨a, c,
        .many (if limits.deduplicateLists then Value.distinct values else values)⟩)

namespace AttributeRef

variable {limits : Limits} {a : AttributeRef} {c : Comparator} {argument : Argument}
  {p : Predicate}

/-! ## Null checks and values -/

theorem checksNull_iff (hc : c = .isNull ∨ c = .isNotNull) :
    a.ChecksNull c p ↔ p = a.nullCheck c := by
  unfold nullCheck
  constructor
  · intro h
    cases h with
    | compared _ hnullable => exact (if_pos hnullable).symm
    | never hnullable => simp [hnullable]
    | always hnullable => simp [hnullable]
  · rintro rfl
    split
    · exact .compared hc ‹_›
    · rename_i hnullable
      rw [Bool.not_eq_true] at hnullable
      rcases hc with rfl | rfl
      · exact .never hnullable
      · exact .always hnullable

theorem ChecksNull.comparator (h : a.ChecksNull c p) : c = .isNull ∨ c = .isNotNull := by
  cases h with
  | compared hc _ => exact hc
  | never _ => exact .inl rfl
  | always _ => exact .inr rfl

theorem value_eq_ok {l : Literal} {v : Value} :
    a.value l = .ok v ↔ Value.ofLiteral? a.valueType l = some v := by
  unfold value
  cases Value.ofLiteral? a.valueType l with
  | none => simp
  | some found => simp

/-- A value of a list is read from a literal that is neither null nor a list. -/
theorem listValue_eq_ok {l : Literal} {v : Value} :
    a.listValue c l = .ok v ↔ StandsFor a.valueType v l := by
  constructor
  · intro h
    unfold listValue at h
    split at h
    · cases h
    · rename_i hnull
      split at h
      · cases h
      · rename_i hlist
        exact ⟨value_eq_ok.1 h, hnull, by simpa using hlist⟩
  · rintro ⟨hv, hnull, hlist⟩
    unfold listValue
    split
    · exact absurd rfl hnull
    · rw [if_neg (by simp [hlist])]
      exact value_eq_ok.2 hv

/-- Literals for values, taken one by one. -/
theorem exists_forall₂_standsFor {t : ValueType} {items : List Literal} :
    (∃ values, List.Forall₂ (StandsFor t) values items) ↔ ∀ l ∈ items, ∃ v, StandsFor t v l := by
  constructor
  · rintro ⟨values, hread⟩ l hl
    obtain ⟨v, -, hv⟩ := exists_mem_of_forall₂ hread.flip hl
    exact ⟨v, hv⟩
  · intro h
    induction items with
    | nil => exact ⟨[], .nil⟩
    | cons l items ih =>
      obtain ⟨v, hv⟩ := h l List.mem_cons_self
      obtain ⟨values, hread⟩ := ih fun l' hl' => h l' (List.mem_cons_of_mem l hl')
      exact ⟨v :: values, .cons hv hread⟩

/-! ## One arity at a time -/

theorem compareNone_iff :
    a.compareNone c argument = .ok p ↔ a.Yields limits c .unary argument p := by
  constructor
  · intro h
    unfold compareNone at h
    split at h
    · split at h
      · rename_i hc
        cases h
        exact .check ((checksNull_iff hc).2 rfl)
      · rename_i hc
        cases h
        exact .bare hc
    · cases h
  · intro h
    cases h with
    | check hcheck =>
      have hc := hcheck.comparator
      rw [(checksNull_iff hc).1 hcheck]
      exact if_pos hc
    | bare hc => exact if_neg hc

theorem compareOne_iff (hasOf : ¬(a.valueType = .asOf ∧ c = .notEq)) :
    a.compareOne c argument = .ok p ↔ a.Yields limits c .one argument p := by
  constructor
  · intro h
    unfold compareOne at h
    split at h
    · cases h
    · split at h
      · cases h
        exact .eqNull rfl ((checksNull_iff (.inl rfl)).2 rfl)
      · cases h
        exact .notEqNull rfl ((checksNull_iff (.inr rfl)).2 rfl)
      · cases h
    · rename_i l hnull
      split at h
      · cases h
      · rename_i hlist
        obtain ⟨v, hv, rfl⟩ := map_eq_ok.1 h
        exact .one hasOf ⟨value_eq_ok.1 hv, hnull, by simpa using hlist⟩
    · cases h
  · intro h
    cases h with
    | eqNull hc hcheck =>
      subst hc
      rw [(checksNull_iff (.inl rfl)).1 hcheck]
      rfl
    | notEqNull hc hcheck =>
      subst hc
      rw [(checksNull_iff (.inr rfl)).1 hcheck]
      rfl
    | @one v l _ hl =>
      obtain ⟨hv, hnull, hlist⟩ := hl
      unfold compareOne
      split
      · rename_i heq
        cases heq
      · rename_i heq
        cases heq
        exact absurd rfl hnull
      · rename_i heq
        cases heq
        rw [if_neg (by simp [hlist]), value_eq_ok.2 hv]
        rfl
      · rename_i heq
        cases heq

theorem compareMany_iff :
    a.compareMany limits c argument = .ok p ↔ a.Yields limits c .many argument p := by
  constructor
  · intro h
    unfold compareMany at h
    split at h
    · cases h
    · rename_i items
      split at h
      · cases h
      · rename_i hempty
        split at h
        · cases h
        · rename_i hlength
          obtain ⟨values, hvalues, rfl⟩ := map_eq_ok.1 h
          have hne : items ≠ [] := fun hnil => hempty (List.isEmpty_iff.2 hnil)
          exact .many (List.length_pos_iff.2 hne) (Nat.le_of_not_lt hlength)
            ((mapM_eq_ok.1 hvalues).flip.imp fun _ _ hv => listValue_eq_ok.1 hv)
    · cases h
  · intro h
    cases h with
    | @many values items hne hlength hread =>
      have hempty : ¬items.isEmpty = true := by
        rw [List.isEmpty_iff]
        exact List.length_pos_iff.1 hne
      have hvalues : items.mapM (a.listValue c) = .ok values :=
        mapM_eq_ok.2 (hread.flip.imp fun _ _ hv => listValue_eq_ok.2 hv)
      dsimp only [compareMany]
      rw [if_neg hempty, if_neg (Nat.not_lt.2 hlength), hvalues]
      rfl

/-! ## All operators -/

/-- An operator of an entry yields what it yields at the arity of the entry. -/
theorem compare_iff_of_mem {arity : Arity}
    (hentry : ⟨.compare c, arity⟩ ∈ a.valueType.operators) :
    a.compare limits c argument = .ok p ↔ a.Yields limits c arity argument p := by
  have harity := ValueType.arity?_eq_some.2 hentry
  unfold compare
  rw [harity]
  by_cases hasOf : a.valueType = .asOf ∧ c = .notEq
  -- Inequality on as-of attributes takes null before anything else is looked at.
  · obtain ⟨ha, rfl⟩ := hasOf
    rw [ha] at harity
    cases harity
    dsimp only
    rw [if_pos ⟨ha, rfl⟩]
    constructor
    · intro h
      split at h
      · cases h
        exact .notEqNull rfl ((checksNull_iff (.inr rfl)).2 rfl)
      · cases h
    · intro h
      cases h with
      | eqNull hc _ => cases hc
      | notEqNull _ hcheck => exact congrArg Except.ok ((checksNull_iff (.inr rfl)).1 hcheck).symm
      | one hnot _ => exact absurd ⟨ha, rfl⟩ hnot
  · dsimp only
    rw [if_neg hasOf]
    cases arity with
    | unary => exact compareNone_iff
    | one => exact compareOne_iff hasOf
    | many => exact compareMany_iff
    | derive => exact ⟨nofun, nofun⟩

/-- What applying an operator that succeeds means. -/
theorem compare_iff :
    a.compare limits c argument = .ok p ↔
      ∃ arity, ⟨.compare c, arity⟩ ∈ a.valueType.operators ∧
        a.Yields limits c arity argument p := by
  constructor
  · intro h
    cases harity : a.valueType.arity? (.compare c) with
    | none =>
      unfold compare at h
      rw [harity] at h
      cases h
    | some arity =>
      have hentry := ValueType.arity?_eq_some.1 harity
      exact ⟨arity, hentry, (compare_iff_of_mem hentry).1 h⟩
  · rintro ⟨arity, hentry, hyields⟩
    exact (compare_iff_of_mem hentry).2 hyields

/-- Something comes of exactly the arguments that are accepted. -/
theorem exists_yields_iff {arity : Arity} :
    (∃ p, a.Yields limits c arity argument p) ↔ c.Accepts limits a.valueType arity argument := by
  have hcheck : ∀ {c}, (c = .isNull ∨ c = .isNotNull) → a.ChecksNull c (a.nullCheck c) :=
    fun hc => (checksNull_iff hc).2 rfl
  constructor
  · rintro ⟨p, h⟩
    cases h with
    | check _ => rfl
    | bare _ => rfl
    | eqNull hc _ => exact .inl ⟨rfl, .inl hc⟩
    | notEqNull hc _ => exact .inl ⟨rfl, .inr hc⟩
    | one hasOf hl => exact .inr ⟨hasOf, _, _, rfl, hl⟩
    | many hne hlength hread =>
      exact ⟨_, rfl, hne, hlength, exists_forall₂_standsFor.1 ⟨_, hread⟩⟩
  · intro h
    cases arity with
    | unary =>
      obtain rfl : argument = .empty := h
      by_cases hc : c = .isNull ∨ c = .isNotNull
      · exact ⟨_, .check (hcheck hc)⟩
      · exact ⟨_, .bare hc⟩
    | one =>
      rcases h with ⟨rfl, hc | hc⟩ | ⟨hasOf, v, l, rfl, hl⟩
      · exact ⟨_, .eqNull hc (hcheck (.inl rfl))⟩
      · exact ⟨_, .notEqNull hc (hcheck (.inr rfl))⟩
      · exact ⟨_, .one hasOf hl⟩
    | many =>
      obtain ⟨items, rfl, hne, hlength, hitems⟩ := h
      obtain ⟨values, hread⟩ := exists_forall₂_standsFor.2 hitems
      exact ⟨_, .many hne hlength hread⟩
    | derive => exact h.elim

theorem compare_accepts :
    (∃ p, a.compare limits c argument = .ok p) ↔
      ∃ arity, ⟨.compare c, arity⟩ ∈ a.valueType.operators ∧
        c.Accepts limits a.valueType arity argument := by
  simp only [compare_iff, ← exists_yields_iff]
  constructor
  · rintro ⟨p, arity, hentry, hyields⟩
    exact ⟨arity, hentry, p, hyields⟩
  · rintro ⟨arity, hentry, p, hyields⟩
    exact ⟨p, arity, hentry, hyields⟩

/-! ### Null -/

theorem compare_isNull : a.compare limits .isNull .empty = .ok (a.nullCheck .isNull) :=
  (compare_iff_of_mem a.valueType.presence_mem_operators.1).2
    (.check ((checksNull_iff (.inl rfl)).2 rfl))

theorem compare_isNotNull : a.compare limits .isNotNull .empty = .ok (a.nullCheck .isNotNull) :=
  (compare_iff_of_mem a.valueType.presence_mem_operators.2).2
    (.check ((checksNull_iff (.inr rfl)).2 rfl))

theorem compare_eq_null : a.compare limits .eq (.value .null) = .ok (a.nullCheck .isNull) :=
  (compare_iff_of_mem a.valueType.equality_mem_operators.1).2
    (.eqNull rfl ((checksNull_iff (.inl rfl)).2 rfl))

theorem compare_notEq_null :
    a.compare limits .notEq (.value .null) = .ok (a.nullCheck .isNotNull) :=
  (compare_iff_of_mem a.valueType.equality_mem_operators.2).2
    (.notEqNull rfl ((checksNull_iff (.inr rfl)).2 rfl))

/-- An operator is accepted exactly as the tables say, and what comes of it is the comparison or the
null check that was asked for. Equality with null is a null check, and a null check of an attribute
that always has a value is decided at once. -/
theorem compare_exact (limits : Limits) (a : AttributeRef) :
    (∀ c argument, (∃ p, a.compare limits c argument = .ok p) ↔
      ∃ arity, ⟨.compare c, arity⟩ ∈ a.valueType.operators ∧
        c.Accepts limits a.valueType arity argument) ∧
    (∀ c argument p, a.compare limits c argument = .ok p ↔
      ∃ arity, ⟨.compare c, arity⟩ ∈ a.valueType.operators ∧ a.Yields limits c arity argument p) ∧
    a.compare limits .eq (.value .null) = a.compare limits .isNull .empty ∧
    a.compare limits .notEq (.value .null) = a.compare limits .isNotNull .empty ∧
    a.compare limits .isNull .empty =
      .ok (if a.nullable then .comparison ⟨a, .isNull, .none⟩ else .none) ∧
    a.compare limits .isNotNull .empty =
      .ok (if a.nullable then .comparison ⟨a, .isNotNull, .none⟩ else .all) := by
  refine ⟨fun _ _ => compare_accepts, fun _ _ _ => compare_iff,
    compare_eq_null.trans compare_isNull.symm, compare_notEq_null.trans compare_isNotNull.symm,
    ?_, ?_⟩
  · rw [compare_isNull]
    rfl
  · rw [compare_isNotNull]
    rfl

end AttributeRef

end Criteria
