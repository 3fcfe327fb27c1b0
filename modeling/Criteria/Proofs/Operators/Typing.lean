import Criteria.Proofs.Calendar.ReadBack
import Criteria.Proofs.Number.Rounding
import Criteria.Proofs.Operators.Dispatch

/-! # Typing of comparisons

When a comparison is well typed over a catalog, and that functions and comparison operators
applied to well-typed references yield nothing else (`AttributeRef.apply_wellTyped`,
`AttributeRef.compare_wellTyped`).
-/

set_option autoImplicit false

namespace Criteria

open Number Calendar

/-! ## Values -/

/-- A value of a type. Binary numbers have to be finite and instants to be valid. -/
def Value.HasType : Value → ValueType → Prop
  | string _, .string => True
  | boolean _, .boolean => True
  | integer _, .integer => True
  | long _, .long => True
  | float x, .float => x.isFinite = true
  | double x, .double => x.isFinite = true
  | date _, .date => True
  | timestamp t, .timestamp => t.Valid
  | timestamp t, .asOf => t.Valid
  | _, _ => False

/-- The binary numbers of a literal, or of the items of a list, are finite. -/
def Literal.Finite : Literal → Prop
  | float x => x.isFinite = true
  | list items => ∀ x, float x ∈ items → x.isFinite = true
  | _ => True

/-- An argument whose numbers are finite. -/
def Argument.Finite : Argument → Prop
  | value l => l.Finite
  | _ => True

theorem Literal.finite_of_mem {items : List Literal} (h : (Literal.list items).Finite)
    {l : Literal} (hl : l ∈ items) (hlist : l.isList = false) : l.Finite := by
  cases l with
  | float x => exact h x hl
  | list _ => cases hlist
  | _ => exact trivial

/-- Words of 64 bits are in the range of every format that reaches so far. -/
theorem isFinite_ofWord {f : Format} (hp : 2 ≤ f.precision) (hrange : 63 + f.subunit < f.binades)
    (n : Word 64) : (Binary.ofInt f n.toInt).isFinite = true := by
  have hlower := n.lower
  have hupper := n.upper
  have hbound : n.toInt.natAbs ≤ 2 ^ 63 := by omega
  exact Binary.isFinite_ofInt hp hbound hrange

/-- A literal is read as a value of the type it is read at. -/
theorem Value.ofLiteral?_hasType {t : ValueType} {l : Literal} {v : Value} (hl : l.Finite)
    (h : Value.ofLiteral? t l = some v) : v.HasType t := by
  unfold ofLiteral? at h
  split at h
  case h_1 => cases h; exact trivial
  case h_2 => cases h; exact trivial
  case h_3 =>
    obtain ⟨w, -, rfl⟩ := Option.map_eq_some_iff.1 h
    exact trivial
  case h_4 => cases h; exact trivial
  case h_5 n => cases h; exact isFinite_ofWord (by decide) (by decide) n
  case h_6 x =>
    simp only [Option.ite_none_right_eq_some, Option.some.injEq] at h
    obtain ⟨hfinite, rfl⟩ := h
    exact hfinite
  case h_7 n => cases h; exact isFinite_ofWord (by decide) (by decide) n
  case h_8 x => cases h; exact hl
  case h_9 =>
    obtain ⟨d, -, rfl⟩ := Option.map_eq_some_iff.1 h
    exact trivial
  case h_10 =>
    obtain ⟨i, hi, rfl⟩ := Option.map_eq_some_iff.1 h
    exact Instant.read?_valid hi
  case h_11 =>
    obtain ⟨i, hi, rfl⟩ := Option.map_eq_some_iff.1 h
    exact Instant.read?_valid hi
  case h_12 => cases h

/-! ## Lists without repeated values -/

namespace Value

theorem distinct_cons (v : Value) (vs : List Value) :
    distinct (v :: vs) = v :: distinct (vs.filter fun w => !w == v) := List.eraseDups_cons

theorem mem_distinct {v : Value} {vs : List Value} : v ∈ distinct vs ↔ v ∈ vs :=
  List.mem_eraseDups

/-- Dropping repeated values leaves values that differ from each other. -/
theorem nodup_distinct (vs : List Value) : (distinct vs).Nodup := by
  -- By the length: what is left behind a value is filtered, so it is no part of the list.
  induction hn : vs.length using Nat.strongRecOn generalizing vs with
  | _ n ih =>
    cases vs with
    | nil => exact List.nodup_nil
    | cons v vs =>
      have hlength : (vs.filter fun w => !w == v).length ≤ vs.length := List.length_filter_le _ _
      rw [distinct_cons, List.nodup_cons]
      refine ⟨?_, ih _ (by simp only [List.length_cons] at hn; omega) _ rfl⟩
      rw [mem_distinct, List.mem_filter]
      simp

theorem length_distinct_le (vs : List Value) : (distinct vs).length ≤ vs.length := by
  induction hn : vs.length using Nat.strongRecOn generalizing vs with
  | _ n ih =>
    cases vs with
    | nil => exact Nat.zero_le n
    | cons v vs =>
      have hlength : (vs.filter fun w => !w == v).length ≤ vs.length := List.length_filter_le _ _
      simp only [List.length_cons] at hn
      have hrest := ih _ (by omega) (vs.filter fun w => !w == v) rfl
      rw [distinct_cons, List.length_cons]
      omega

/-- Values that differ from each other are all kept. -/
theorem distinct_eq_self {vs : List Value} (h : vs.Nodup) : distinct vs = vs := by
  induction vs with
  | nil => rfl
  | cons v vs ih =>
    obtain ⟨hv, hvs⟩ := List.nodup_cons.1 h
    have hfilter : (vs.filter fun w => !w == v) = vs := by
      refine List.filter_eq_self.2 ?_
      intro w hw
      have hne : w ≠ v := fun heq => hv (heq ▸ hw)
      simp [hne]
    rw [distinct_cons, hfilter, ih hvs]

end Value

/-! ## References -/

/-- The path leads over relationships that the catalog shows to the attribute it describes. -/
def AttributePath.Resolves (c : Catalog) (p : AttributePath) : Prop :=
  ∃ owner, c.target? p.rootType p.navigation = some owner ∧
    c.attribute? owner p.name = some ⟨p.name, p.valueType, p.nullable⟩

/-- The bounds of a substring are in order. -/
def AttributeFunction.Ordered : AttributeFunction → Prop
  | substring start stop => 0 ≤ start.toInt ∧ start.toInt ≤ stop.toInt
  | _ => True

/-- A reference to an attribute that resolves from the root type, inside functions each of which
its operator table offers. -/
def AttributeRef.WellTyped (c : Catalog) (root : String) : AttributeRef → Prop
  | simple path => path.rootType = root ∧ path.Resolves c
  | derived function source =>
    source.WellTyped c root ∧
      ⟨.function function.name, .derive⟩ ∈ source.valueType.operators ∧ function.Ordered

/-- What applying a function that succeeds means. -/
theorem AttributeRef.apply_iff {a b : AttributeRef} {function : AttributeFunction} :
    a.apply function = .ok b ↔
      a.valueType.arity? (.function function.name) = some .derive ∧ function.Ordered ∧
        b = .derived function a := by
  unfold apply
  by_cases harity : a.valueType.arity? (.function function.name) = some .derive
  · rw [if_neg (not_not.2 harity)]
    cases function with
    | substring start stop =>
      simp only [AttributeFunction.Ordered]
      split
      · rename_i hbounds
        simp only [reduceCtorEq, false_iff]
        rintro ⟨-, hordered, -⟩
        omega
      · rename_i hbounds
        have hordered : 0 ≤ start.toInt ∧ start.toInt ≤ stop.toInt := by omega
        simp [harity, hordered, eq_comm]
    | _ => simp [harity, AttributeFunction.Ordered, eq_comm]
  · rw [if_pos harity]
    simp [harity]

theorem AttributeRef.apply_wellTyped {c : Catalog} {root : String} {a b : AttributeRef}
    {function : AttributeFunction} (ha : a.WellTyped c root) (h : a.apply function = .ok b) :
    b = .derived function a ∧ b.WellTyped c root := by
  obtain ⟨harity, hordered, rfl⟩ := apply_iff.1 h
  exact ⟨rfl, ha, ValueType.arity?_eq_some.1 harity, hordered⟩

/-! ## Comparisons -/

/-- The parameter of an operator that takes values of a type: none, one, or a list within the
limits. -/
def Parameter.Fits (limits : Limits) (t : ValueType) : Option Cardinality → Parameter → Prop
  | .none, none => True
  | some .one, one v => v.HasType t
  | some .many, many vs =>
    vs ≠ [] ∧ vs.length ≤ limits.maxListSize ∧ (limits.deduplicateLists = true → vs.Nodup) ∧
      ∀ v ∈ vs, v.HasType t
  | _, _ => False

/-- How many values the parameter holds, if it holds any. -/
def Parameter.cardinality? : Parameter → Option Cardinality
  | none => .none
  | one _ => some .one
  | many _ => some .many

/-- A parameter fits operators of its own cardinality only. -/
theorem Parameter.Fits.cardinality_eq {limits : Limits} {t : ValueType}
    {cardinality : Option Cardinality} {parameter : Parameter}
    (h : parameter.Fits limits t cardinality) : cardinality = parameter.cardinality? := by
  rcases cardinality with _ | _ | _
  all_goals
    cases parameter
    all_goals first | rfl | exact h.elim

/-- Operators without values are those whose parameter is absent. -/
theorem Parameter.Fits.eq_none_iff {limits : Limits} {t : ValueType}
    {cardinality? : Option Cardinality} {parameter : Parameter}
    (h : parameter.Fits limits t cardinality?) : cardinality? = .none ↔ parameter = .none := by
  rw [h.cardinality_eq]
  cases parameter <;> simp [Parameter.cardinality?]

/-- A list of values within the limit still fits when repeated values are dropped. -/
theorem Parameter.fits_many {limits : Limits} {t : ValueType} {values : List Value}
    (hne : values ≠ []) (hlength : values.length ≤ limits.maxListSize)
    (htypes : ∀ v ∈ values, v.HasType t) :
    (Parameter.many (if limits.deduplicateLists then Value.distinct values else values)).Fits
      limits t (some .many) := by
  split
  · have hle := Value.length_distinct_le values
    obtain ⟨first, hfirst⟩ := List.exists_mem_of_ne_nil values hne
    refine ⟨List.ne_nil_of_mem (Value.mem_distinct.2 hfirst), by omega, ?_, ?_⟩
    · intro _
      exact Value.nodup_distinct values
    · intro v hv
      exact htypes v (Value.mem_distinct.1 hv)
  · rename_i hdeduplicate
    exact ⟨hne, hlength, fun h => absurd h hdeduplicate, htypes⟩

/-- A comparison that the engine behind may rely on. -/
structure Comparison.WellTyped (c : Catalog) (limits : Limits) (root : String)
    (found : Comparison) : Prop where
  operand : found.operand.WellTyped c root
  offered : ∃ arity, ⟨.compare found.comparator, arity⟩ ∈ found.operand.valueType.operators
  fits : found.parameter.Fits limits found.operand.valueType found.comparator.cardinality?
  nullable : found.comparator = .isNull ∨ found.comparator = .isNotNull →
    found.operand.nullable = true
  notAsOf : found.comparator = .notEq → found.operand.valueType ≠ .asOf

/-- A well-typed function of a reference is the result of applying the function. -/
theorem AttributeRef.apply_eq_ok {c : Catalog} {root : String} {function : AttributeFunction}
    {source : AttributeRef} (h : (AttributeRef.derived function source).WellTyped c root) :
    source.apply function = .ok (.derived function source) :=
  apply_iff.2 ⟨ValueType.arity?_eq_some.2 h.2.1, h.2.2, rfl⟩

theorem AttributeRef.WellTyped.resolves {c : Catalog} {root : String} {a : AttributeRef}
    (h : a.WellTyped c root) : a.path.rootType = root ∧ a.path.Resolves c := by
  induction a with
  | simple path => exact h
  | derived function source ih => exact ih h.1

/-- What a comparison operator yields: a constant, or a well-typed comparison of the operand. -/
def Predicate.IsOutcome (c : Catalog) (limits : Limits) (root : String) (a : AttributeRef)
    (p : Predicate) : Prop :=
  p = .all ∨ p = .none ∨
    ∃ found : Comparison, p = .comparison found ∧ found.operand = a ∧ found.WellTyped c limits root

namespace AttributeRef

variable {c : Catalog} {limits : Limits} {root : String} {a : AttributeRef}

theorem ChecksNull.isOutcome (ha : a.WellTyped c root) {comparator : Comparator} {p : Predicate}
    (h : a.ChecksNull comparator p) : p.IsOutcome c limits root a := by
  have hpresence := a.valueType.presence_mem_operators
  cases h with
  | compared hc hnullable =>
    refine .inr (.inr ⟨_, rfl, rfl, ?_⟩)
    rcases hc with rfl | rfl
    · exact ⟨ha, ⟨_, hpresence.1⟩, trivial, fun _ => hnullable, fun h => nomatch h⟩
    · exact ⟨ha, ⟨_, hpresence.2⟩, trivial, fun _ => hnullable, fun h => nomatch h⟩
  | never _ => exact .inr (.inl rfl)
  | always _ => exact .inl rfl

/-- A comparison operator applied to a well-typed reference yields a well-typed comparison, or
the constant that a null check comes to. -/
theorem compare_wellTyped (ha : a.WellTyped c root) {comparator : Comparator}
    {argument : Argument} {p : Predicate} (hfinite : argument.Finite)
    (h : a.compare limits comparator argument = .ok p) : p.IsOutcome c limits root a := by
  obtain ⟨arity, hentry, hyields⟩ := compare_iff.1 h
  obtain ⟨-, hcardinality⟩ := ValueType.cardinality_of_mem hentry
  cases hyields with
  | check hcheck => exact hcheck.isOutcome ha
  | bare hc =>
    -- Of the operators without values, only those that check for null need a nullable operand.
    refine .inr (.inr ⟨_, rfl, rfl, ha, ⟨_, hentry⟩, ?_, fun h => absurd h hc, ?_⟩)
    · dsimp only
      rw [← hcardinality]
      trivial
    · rintro rfl
      cases hcardinality
  | eqNull _ hcheck => exact hcheck.isOutcome ha
  | notEqNull _ hcheck => exact hcheck.isOutcome ha
  | one hasOf hl =>
    refine .inr (.inr ⟨_, rfl, rfl, ha, ⟨_, hentry⟩, ?_, ?_, fun hne ht => hasOf ⟨ht, hne⟩⟩)
    · dsimp only
      rw [← hcardinality]
      exact Value.ofLiteral?_hasType hfinite hl.1
    · rintro (rfl | rfl) <;> cases hcardinality
  | @many values items hne hlength hread =>
    have hsame := hread.length_eq
    have htypes : ∀ v ∈ values, v.HasType a.valueType := by
      intro v hv
      obtain ⟨l, hl, hstands⟩ := exists_mem_of_forall₂ hread hv
      exact Value.ofLiteral?_hasType (Literal.finite_of_mem hfinite hl hstands.2.2) hstands.1
    have hvalues : values ≠ [] := by
      rw [← List.length_pos_iff]
      omega
    refine .inr (.inr ⟨_, rfl, rfl, ha, ⟨_, hentry⟩, ?_, ?_, ?_⟩)
    · dsimp only
      rw [← hcardinality]
      exact Parameter.fits_many hvalues (by omega) htypes
    · rintro (rfl | rfl) <;> cases hcardinality
    · rintro rfl
      cases hcardinality

end AttributeRef

/-! ## Arguments for parameters -/

/-- A literal, or a list of literals, for the values of a parameter. -/
def StandsForAll (t : ValueType) : Parameter → Literal → Prop
  | .none, _ => False
  | .one v, l => StandsFor t v l
  | .many vs, l => ∃ items, l = .list items ∧ List.Forall₂ (StandsFor t) vs items

namespace Comparison.WellTyped

variable {c : Catalog} {limits : Limits} {root : String} {found : Comparison}
  (h : found.WellTyped c limits root)
include h

/-- The operator of a well-typed comparison has an entry of the arity of its cardinality. -/
theorem offered_at (expected : Arity) (hderive : expected ≠ .derive)
    (hcardinality : found.comparator.cardinality? = expected.cardinality?) :
    ⟨.compare found.comparator, expected⟩ ∈ found.operand.valueType.operators := by
  obtain ⟨arity, hoffered⟩ := h.offered
  rw [← ValueType.arity_eq_of_mem hoffered hderive hcardinality]
  exact hoffered

/-- A comparison without parameter is what its operator yields of its operand. -/
theorem compare_empty (hparameter : found.parameter = .none) :
    found.operand.compare limits found.comparator .empty = .ok (.comparison found) := by
  have hentry := h.offered_at .unary nofun (h.fits.eq_none_iff.2 hparameter)
  obtain ⟨operand, comparator, parameter⟩ := found
  obtain rfl : parameter = .none := hparameter
  rw [AttributeRef.compare_iff_of_mem hentry]
  by_cases hc : comparator = .isNull ∨ comparator = .isNotNull
  · exact .check (.compared hc (h.nullable hc))
  · exact .bare hc

/-- A comparison is what its operator yields of its operand and a literal for its values. -/
theorem compare_value {l : Literal}
    (hl : StandsForAll found.operand.valueType found.parameter l) :
    found.operand.compare limits found.comparator (.value l) = .ok (.comparison found) := by
  have hcardinality := h.fits.cardinality_eq
  have hfits := h.fits
  have hoffered := fun expected hderive hexpected =>
    h.offered_at expected hderive (hcardinality.trans hexpected)
  rw [hcardinality] at hfits
  obtain ⟨operand, comparator, parameter⟩ := found
  cases parameter with
  | none => exact hl.elim
  | one v =>
    have hasOf : ¬(operand.valueType = .asOf ∧ comparator = .notEq) :=
      fun hboth => h.notAsOf hboth.2 hboth.1
    exact (AttributeRef.compare_iff_of_mem (hoffered .one nofun rfl)).2 (.one hasOf hl)
  | many vs =>
    obtain ⟨hne, hlength, hnodup, -⟩ := hfits
    obtain ⟨items, rfl, hitems⟩ := hl
    -- Values that differ from each other are left alone, whether or not repeated ones are dropped.
    have hkept : (if limits.deduplicateLists then Value.distinct vs else vs) = vs := by
      split
      · rename_i hdeduplicate
        exact Value.distinct_eq_self (hnodup hdeduplicate)
      · rfl
    have hsame := hitems.length_eq
    have hpositive := List.length_pos_iff.2 hne
    have hyields : operand.Yields limits comparator .many (.value (.list items))
        (.comparison ⟨operand, comparator,
          .many (if limits.deduplicateLists then Value.distinct vs else vs)⟩) :=
      .many (by omega) (by omega) hitems
    rw [hkept] at hyields
    exact (AttributeRef.compare_iff_of_mem (hoffered .many nofun rfl)).2 hyields

end Comparison.WellTyped

end Criteria
