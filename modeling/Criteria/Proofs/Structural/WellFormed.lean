import Criteria.Proofs.Predicate.Kept
import Criteria.Proofs.Structural.Steps

/-! # Well-formed criteria

The language of structural criteria, stated without the conversion: which keys may stand beside each
other, where existence tests may stand, what names resolve to and what operators apply to. The
number of levels bounds how deep objects of criteria are nested inside. Criteria convert exactly if
they are well formed (`convert_ok_iff_wellFormed`).
-/

set_option autoImplicit false

namespace Criteria.Structural

open Number

/-! ## The language -/

/-- What a function takes from the members of its object, with the keys that are its own: the bounds
of a substring stand beside at least one operator. Only integers of 32 bits are bounds; criteria
with a larger one are malformed, as they are with a text in its place. -/
inductive Takes (members : List (String × Json)) : AttributeFunction → List String → Prop
  | nothing {function : AttributeFunction} (h : function.name ≠ .substring) :
      Takes members function []
  | bounds {start stop : Word 32}
      (start_eq : members.lookup "start" = some (.number (.integer start.toInt)))
      (stop_eq : members.lookup "end" = some (.number (.integer stop.toInt)))
      (nonneg : 0 ≤ start.toInt) (ordered : start.toInt ≤ stop.toInt)
      (more : ∃ m ∈ members, m.1 ∉ boundKeys) :
      Takes members (.substring start stop) boundKeys

/-- An operator on an attribute: a comparison that is accepted, or a function that the table of the
attribute offers, over operators on what it derives. -/
inductive WellFormedOperator (limits : Limits) : Nat → AttributeRef → String → Json → Prop
  | compare {levels : Nat} {a : AttributeRef} {name : String} {parameter : Json}
      {comparator : Comparator} {arity : Arity}
      (named : Operator.ofName? name = some (.compare comparator))
      (offered : ⟨.compare comparator, arity⟩ ∈ a.valueType.operators)
      (accepted : ∃ p, a.compare limits comparator (argumentOf parameter) = .ok p) :
      WellFormedOperator limits levels a name parameter
  | function {levels : Nat} {a : AttributeRef} {name : String} {members : List (String × Json)}
      {function : AttributeFunction} {own : List String}
      (named : Operator.ofName? name = some (.function function.name))
      (offered : ⟨.function function.name, .derive⟩ ∈ a.valueType.operators)
      (nonempty : members ≠ []) (takes : Takes members function own)
      (inner : ∀ m ∈ members, m.1 ∉ own →
        WellFormedOperator limits levels (.derived function a) m.1 m.2) :
      WellFormedOperator limits (levels + 1) a name (.object members)

/-- A key that is neither a combinator nor an existence test. -/
def IsField (key : String) : Prop :=
  (∀ combinator : Combinator, key ≠ combinator.key) ∧ ∀ test : Existence, key ≠ test.method

mutual

/-- An object of criteria: a combinator stands alone. -/
inductive WellFormed (c : Catalog) (limits : Limits) :
    Nat → Scope → List (String × Json) → Prop
  | mk {levels : Nat} {scope : Scope} {members : List (String × Json)}
      (alone : (∀ m ∈ members, ∀ combinator : Combinator, m.1 ≠ combinator.key) ∨
        members.length = 1)
      (each : ∀ m ∈ members, WellFormedEntry c limits levels scope m.1 m.2) :
      WellFormed c limits levels scope members

/-- An entry of an object: a combinator over a list of criteria, an existence test behind at least
one relationship, or a member of the current type with criteria on it. -/
inductive WellFormedEntry (c : Catalog) (limits : Limits) : Nat → Scope → String → Json → Prop
  | combinator {levels : Nat} {scope : Scope} {items : List Json} (combinator : Combinator)
      (nonempty : items ≠ []) (each : ∀ item ∈ items, WellFormedItem c limits levels scope item) :
      WellFormedEntry c limits levels scope combinator.key (.array items)
  | bare {levels : Nat} {scope : Scope} (test : Existence) (navigated : scope.navigation ≠ []) :
      WellFormedEntry c limits levels scope test.method (.object [])
  | filtered {levels : Nat} {scope : Scope} {members : List (String × Json)} (test : Existence)
      (navigated : scope.navigation ≠ []) (nonempty : members ≠ [])
      (inner : WellFormed c limits levels scope.rebase members) :
      WellFormedEntry c limits (levels + 1) scope test.method (.object members)
  | attr {levels : Nat} {scope : Scope} {name : String} {members : List (String × Json)}
      {a : Attribute} (field : IsField name)
      (found : c.attribute? scope.currentType name = some a) (nonempty : members ≠ [])
      (inner : ∀ m ∈ members, WellFormedOperator limits levels (scope.reference a) m.1 m.2) :
      WellFormedEntry c limits (levels + 1) scope name (.object members)
  | relationship {levels : Nat} {scope : Scope} {name : String} {members : List (String × Json)}
      {r : Relationship} (field : IsField name)
      (other : c.attribute? scope.currentType name = none)
      (found : c.relationship? scope.currentType name = some r) (nonempty : members ≠ [])
      (inner : WellFormed c limits levels (scope.enter name r.target) members) :
      WellFormedEntry c limits (levels + 1) scope name (.object members)

/-- An item of a list of criteria: an object of criteria. -/
inductive WellFormedItem (c : Catalog) (limits : Limits) : Nat → Scope → Json → Prop
  | mk {levels : Nat} {scope : Scope} {members : List (String × Json)}
      (inner : WellFormed c limits levels scope members) :
      WellFormedItem c limits (levels + 1) scope (.object members)

end

/-! ## Keys -/

theorem ofKey?_eq_some {key : String} {combinator : Combinator} :
    Combinator.ofKey? key = some combinator ↔ key = combinator.key := by
  constructor
  · intro h
    unfold Combinator.ofKey? at h
    split at h <;> cases h <;> rfl
  · rintro rfl
    cases combinator <;> rfl

theorem ofMethod?_eq_some {key : String} {test : Existence} :
    Existence.ofMethod? key = some test ↔ key = test.method := by
  constructor
  · intro h
    unfold Existence.ofMethod? at h
    split at h <;> cases h <;> rfl
  · rintro rfl
    exact Existence.ofMethod?_method test

theorem ofText_key (combinator : Combinator) :
    Key.ofText combinator.key = .combinator combinator := by
  cases combinator <;> rfl

theorem ofText_method (test : Existence) : Key.ofText test.method = .existence test := by
  cases test <;> rfl

theorem ofText_field {key : String} (h : IsField key) : Key.ofText key = .field key := by
  have hcombinator : Combinator.ofKey? key = none := by
    rw [Option.eq_none_iff_forall_ne_some]
    exact fun combinator hc => h.1 combinator (ofKey?_eq_some.1 hc)
  have htest : Existence.ofMethod? key = none := by
    rw [Option.eq_none_iff_forall_ne_some]
    exact fun test ht => h.2 test (ofMethod?_eq_some.1 ht)
  rw [Key.ofText, hcombinator, htest]

/-- A key is a combinator, an existence test or a field. -/
theorem ofText_cases (key : String) :
    (∃ combinator : Combinator, key = combinator.key ∧ Key.ofText key = .combinator combinator) ∨
      (∃ test : Existence, key = test.method ∧ Key.ofText key = .existence test) ∨
        IsField key ∧ Key.ofText key = .field key := by
  by_cases hcombinator : ∃ combinator : Combinator, key = combinator.key
  · obtain ⟨combinator, rfl⟩ := hcombinator
    exact .inl ⟨combinator, rfl, ofText_key combinator⟩
  · by_cases htest : ∃ test : Existence, key = test.method
    · obtain ⟨test, rfl⟩ := htest
      exact .inr (.inl ⟨test, rfl, ofText_method test⟩)
    · have hfield : IsField key := ⟨not_exists.1 hcombinator, not_exists.1 htest⟩
      exact .inr (.inr ⟨hfield, ofText_field hfield⟩)

theorem mixesCombinators_eq_false {members : List (String × Json)} :
    mixesCombinators members = false ↔
      (∀ m ∈ members, ∀ combinator : Combinator, m.1 ≠ combinator.key) ∨ members.length = 1 := by
  have hnone : (members.any fun m => (Combinator.ofKey? m.1).isSome) = false ↔
      ∀ m ∈ members, ∀ combinator : Combinator, m.1 ≠ combinator.key := by
    simp only [List.any_eq_false, Bool.not_eq_true, Option.isSome_eq_false_iff,
      Option.isNone_iff_eq_none, Option.eq_none_iff_forall_ne_some, ne_eq, ofKey?_eq_some]
  rw [mixesCombinators, Bool.and_eq_false_iff, hnone, decide_eq_false_iff_not, or_comm]
  constructor
  · rintro (h | h)
    · exact .inl h
    · by_cases hmembers : members = []
      · exact .inl (by simp [hmembers])
      · have hpos := List.length_pos_iff.2 hmembers
        exact .inr (by omega)
  · rintro (h | h)
    · exact .inl h
    · exact .inr (by omega)

/-! ## Operators -/

theorem resolveOperator_eq_ok {t : ValueType} {name : String} {o : Operator} {arity : Arity} :
    t.resolveOperator name = .ok (o, arity) ↔
      Operator.ofName? name = some o ∧ t.arity? o = some arity := by
  unfold ValueType.resolveOperator
  cases hname : Operator.ofName? name with
  | none => simp
  | some found =>
    rw [Option.bind_some]
    cases harity : t.arity? found with
    | none =>
      simp only [Option.map_none, reduceCtorEq, false_iff, Option.some.injEq]
      rintro ⟨rfl, h⟩
      rw [harity] at h
      cases h
    | some a =>
      simp only [Option.map_some, Except.ok.injEq, Prod.mk.injEq, Option.some.injEq]
      constructor
      · rintro ⟨rfl, rfl⟩
        exact ⟨rfl, harity⟩
      · rintro ⟨rfl, h⟩
        rw [harity] at h
        exact ⟨rfl, Option.some.inj h⟩

theorem bound?_eq_some {members : List (String × Json)} {key : String} {w : Word 32} :
    bound? members key = some w ↔ members.lookup key = some (.number (.integer w.toInt)) := by
  unfold bound?
  constructor
  · intro h
    split at h
    · rename_i n hn
      rw [hn, Word.toInt_of_ofInt? h]
    · cases h
  · intro h
    rw [h]
    exact Word.ofInt?_toInt w

/-- What an object gives to a function whose bounds are in order. -/
theorem functionOf_eq_ok {name : FunctionName} {members : List (String × Json)} {found : Json}
    {function : AttributeFunction} {own : List String} :
    functionOf name members found = .ok (function, own) ∧ function.Ordered ↔
      function.name = name ∧ Takes members function own := by
  cases name with
  | substring =>
    constructor
    · rintro ⟨h, hordered⟩
      unfold functionOf at h
      dsimp only at h
      split at h
      · rename_i start stop hstart hstop
        split at h
        · cases h
        · rename_i hmore
          cases h
          have hmore : ∃ m ∈ members, m.1 ∉ boundKeys := by simpa using hmore
          exact ⟨rfl, .bounds (bound?_eq_some.1 hstart) (bound?_eq_some.1 hstop) hordered.1
            hordered.2 hmore⟩
      · cases h
    · rintro ⟨hname, htakes⟩
      cases htakes with
      | nothing hne => exact absurd hname hne
      | bounds start_eq stop_eq nonneg ordered more =>
        have hmore : ¬(members.all (·.1 ∈ boundKeys) = true) := by simpa using more
        refine ⟨?_, nonneg, ordered⟩
        unfold functionOf
        dsimp only
        rw [bound?_eq_some.2 start_eq, bound?_eq_some.2 stop_eq]
        dsimp only
        rw [if_neg hmore]
  | _ =>
    constructor
    · rintro ⟨h, -⟩
      cases h
      exact ⟨rfl, .nothing (by decide)⟩
    · rintro ⟨hname, htakes⟩
      cases htakes with
      | nothing hne =>
        cases function <;> cases hname
        exact ⟨rfl, trivial⟩
      | bounds start_eq stop_eq nonneg ordered more => cases hname

section

variable {limits : Limits}

/-- One level less is left inside of what is within the limit. -/
theorem exists_inner_levels {depth levels most : Nat} (hdepth : depth + levels = most)
    (hle : depth + 1 ≤ most) : ∃ inner, levels = inner + 1 ∧ depth + 1 + inner = most :=
  ⟨levels - 1, by omega, by omega⟩

/-- The name of a well-formed operator resolves to an accepted comparison or to a function. -/
theorem WellFormedOperator.named {levels : Nat} {a : AttributeRef} {name : String}
    {parameter : Json} (h : WellFormedOperator limits levels a name parameter) :
    (∃ comparator arity, a.valueType.resolveOperator name = .ok (.compare comparator, arity) ∧
      ∃ p, a.compare limits comparator (argumentOf parameter) = .ok p) ∨
    ∃ function, a.valueType.resolveOperator name = .ok (.function function, .derive) := by
  cases h with
  | compare named offered accepted =>
    have harity := ValueType.arity?_eq_some.2 offered
    exact .inl ⟨_, _, resolveOperator_eq_ok.2 ⟨named, harity⟩, accepted⟩
  | function named offered nonempty takes inner =>
    have harity := ValueType.arity?_eq_some.2 offered
    exact .inr ⟨_, resolveOperator_eq_ok.2 ⟨named, harity⟩⟩

mutual

/-- Operators are converted exactly if those that are not skipped are well formed. -/
theorem ofOperators_ok_iff (members : List (String × Json)) {a : AttributeRef}
    {context : ContextPath} {depth levels : Nat} {skipped : List String} {p : Predicate}
    (hdepth : depth + levels = limits.maxDepth) :
    (∃ q, ofOperators limits a context depth skipped p members = .ok q) ↔
      ∀ m ∈ members, m.1 ∉ skipped → WellFormedOperator limits levels a m.1 m.2 := by
  cases members with
  | nil =>
    constructor
    · intro _ m hm
      cases hm
    · intro _
      exact ⟨p, by rw [ofOperators]⟩
  | cons m members =>
    obtain ⟨name, parameter⟩ := m
    rw [List.forall_mem_cons]
    constructor
    · rintro ⟨q, h⟩
      rcases ofOperators_cons_eq_ok.1 h with ⟨hskipped, h⟩ | ⟨-, r, hr, h⟩
      · exact ⟨fun hnot => absurd hskipped hnot, (ofOperators_ok_iff members hdepth).1 ⟨q, h⟩⟩
      · refine ⟨fun _ => ?_, (ofOperators_ok_iff members hdepth).1 ⟨q, h⟩⟩
        cases hr with
        | compare offered compared =>
          obtain ⟨hnamed, harity⟩ := resolveOperator_eq_ok.1 offered
          exact .compare hnamed (ValueType.arity?_eq_some.1 harity) ⟨r, compared⟩
        | function offered applied =>
          obtain ⟨hnamed, harity⟩ := resolveOperator_eq_ok.1 offered
          exact (ofFunction_ok_iff parameter hdepth hnamed).1 ⟨r, applied⟩
    · rintro ⟨hfirst, hothers⟩
      by_cases hskipped : name ∈ skipped
      · obtain ⟨q, h⟩ := (ofOperators_ok_iff members hdepth).2 hothers
        exact ⟨q, ofOperators_cons_eq_ok.2 (.inl ⟨hskipped, h⟩)⟩
      · have hoperates : ∃ r, Operates limits a context depth name parameter r := by
          have hwell := hfirst hskipped
          rcases hwell.named with ⟨comparator, arity, hoffered, r, hr⟩ | ⟨function, hoffered⟩
          · exact ⟨r, .compare hoffered hr⟩
          · have hnamed := (resolveOperator_eq_ok.1 hoffered).1
            obtain ⟨r, hr⟩ := (ofFunction_ok_iff parameter hdepth hnamed).2 hwell
            exact ⟨r, .function hoffered hr⟩
        obtain ⟨r, hr⟩ := hoperates
        obtain ⟨q, h⟩ := (ofOperators_ok_iff members (p := p.and r) hdepth).2 hothers
        exact ⟨q, ofOperators_cons_eq_ok.2 (.inr ⟨hskipped, r, hr, h⟩)⟩
termination_by structural members

/-- The object of a function is converted exactly if the function is well formed. -/
theorem ofFunction_ok_iff (parameter : Json) {a : AttributeRef} {context : ContextPath}
    {depth levels : Nat} {key : String} {name : FunctionName}
    (hdepth : depth + levels = limits.maxDepth)
    (hnamed : Operator.ofName? key = some (.function name)) :
    (∃ p, ofFunction limits a context depth name parameter = .ok p) ↔
      WellFormedOperator limits levels a key parameter := by
  cases parameter with
  | object members =>
    constructor
    · rintro ⟨p, h⟩
      obtain ⟨hnonempty, function, own, derived, hfunction, hderived, hle, hoperators⟩ :=
        ofFunction_object_eq_ok.1 h
      obtain ⟨harity, hordered, rfl⟩ := AttributeRef.apply_iff.1 hderived
      obtain ⟨rfl, htakes⟩ := functionOf_eq_ok.1 ⟨hfunction, hordered⟩
      obtain ⟨levels, rfl, hinner⟩ := exists_inner_levels hdepth hle
      exact .function hnamed (ValueType.arity?_eq_some.1 harity) hnonempty htakes
        ((ofOperators_ok_iff members hinner).1 ⟨p, hoperators⟩)
    · intro h
      cases h with
      | compare named offered accepted =>
        rw [hnamed] at named
        cases named
      | @function levels _ _ _ function own named offered nonempty takes inner =>
        obtain rfl : name = function.name := by
          rw [hnamed] at named
          cases named
          rfl
        obtain ⟨hfunction, hordered⟩ := functionOf_eq_ok.2 ⟨rfl, takes⟩
        have hderived := AttributeRef.apply_iff.2
          ⟨ValueType.arity?_eq_some.2 offered, hordered, rfl⟩
        have hinner : depth + 1 + levels = limits.maxDepth := by omega
        obtain ⟨p, hoperators⟩ := (ofOperators_ok_iff members hinner).2 inner
        exact ⟨p, ofFunction_object_eq_ok.2
          ⟨nonempty, function, own, _, hfunction, hderived, by omega, hoperators⟩⟩
  | _ =>
    constructor
    · rintro ⟨p, h⟩
      obtain ⟨members, heq⟩ := exists_object_of_ofFunction h
      cases heq
    · intro h
      cases h with
      | compare named offered accepted =>
        rw [hnamed] at named
        cases named
termination_by structural parameter

end

/-! ## Entries -/

variable {c : Catalog}

/-- An object of criteria is admitted and its entries are well formed. -/
theorem wellFormed_iff {depth levels : Nat} {scope : Scope} {members : List (String × Json)}
    (hdepth : depth + levels = limits.maxDepth) :
    WellFormed c limits levels scope members ↔
      Admitted limits depth members ∧
        ∀ m ∈ members, WellFormedEntry c limits levels scope m.1 m.2 := by
  constructor
  · rintro ⟨alone, each⟩
    exact ⟨⟨by omega, mixesCombinators_eq_false.2 alone⟩, each⟩
  · rintro ⟨admitted, each⟩
    exact ⟨mixesCombinators_eq_false.1 admitted.pure, each⟩

/-- Only objects and lists with items are well-formed values of a key. -/
theorem WellFormedEntry.value_cases {levels : Nat} {scope : Scope} {key : String} {value : Json}
    (h : WellFormedEntry c limits levels scope key value) :
    (∃ item items, value = .array (item :: items)) ∨ ∃ members, value = .object members := by
  cases h with
  | combinator combinator nonempty each =>
    obtain ⟨item, items, rfl⟩ := List.exists_cons_of_ne_nil nonempty
    exact .inl ⟨item, items, rfl⟩
  | _ => exact .inr ⟨_, rfl⟩

section

variable {scope : Scope} {context : ContextPath} {depth levels : Nat} {key : String}
  {members : List (String × Json)} (hdepth : depth + levels = limits.maxDepth)
  (hmembers : ∀ {scope : Scope} {context : ContextPath} {levels : Nat},
    depth + 1 + levels = limits.maxDepth →
      ((∃ p, ofMembers c limits scope context (depth + 1) .all members = .ok p) ↔
        ∀ m ∈ members, WellFormedEntry c limits levels scope m.1 m.2))

include hmembers

/-- What is inside of an object is converted once it is admitted. -/
theorem inner_wellFormed_iff {inner : Nat} (hinner : depth + 1 + inner = limits.maxDepth) :
    (Admitted limits (depth + 1) members ∧
        ∃ p, ofMembers c limits scope context (depth + 1) .all members = .ok p) ↔
      WellFormed c limits inner scope members := by
  rw [wellFormed_iff hinner, hmembers hinner]

include hdepth

theorem Enters.wellFormed {p : Predicate}
    (h : Enters c limits scope context depth members (.ofText key) p) :
    WellFormedEntry c limits levels scope key (.object members) := by
  rcases ofText_cases key with ⟨combinator, rfl, hk⟩ | ⟨test, rfl, hk⟩ | ⟨hfield, hk⟩
  · rw [hk] at h
    cases h
  · rw [hk] at h
    cases h with
    | bare chain empty =>
      rw [empty]
      exact .bare test (Scope.relationshipPath?_eq_some.1 chain).1
    | filtered chain nonempty admitted inner =>
      obtain ⟨levels, rfl, hinner⟩ := exists_inner_levels hdepth admitted.depth_le
      exact .filtered test (Scope.relationshipPath?_eq_some.1 chain).1 nonempty
        ((inner_wellFormed_iff hmembers hinner).1 ⟨admitted, _, inner⟩)
  · rw [hk] at h
    cases h with
    | attr nonempty found depth_le inner =>
      obtain ⟨levels, rfl, hinner⟩ := exists_inner_levels hdepth depth_le
      rcases Catalog.field_iff.1 found with ⟨a, ha, heq⟩ | ⟨-, r, -, heq⟩ <;> cases heq
      have heach := (ofOperators_ok_iff members hinner).1 ⟨_, inner⟩
      exact .attr hfield ha nonempty fun m hm => heach m hm List.not_mem_nil
    | relationship nonempty found admitted inner =>
      obtain ⟨levels, rfl, hinner⟩ := exists_inner_levels hdepth admitted.depth_le
      rcases Catalog.field_iff.1 found with ⟨a, -, heq⟩ | ⟨hother, r, hr, heq⟩ <;> cases heq
      exact .relationship hfield hother hr nonempty
        ((inner_wellFormed_iff hmembers hinner).1 ⟨admitted, _, inner⟩)

theorem WellFormedEntry.enters
    (h : WellFormedEntry c limits levels scope key (.object members)) :
    ∃ p, Enters c limits scope context depth members (.ofText key) p := by
  cases h with
  | bare test navigated =>
    rw [ofText_method]
    exact ⟨_, .bare (Scope.relationshipPath?_eq_some.2 ⟨navigated, rfl⟩) rfl⟩
  | @filtered levels _ _ test navigated nonempty inner =>
    have hinner : depth + 1 + levels = limits.maxDepth := by omega
    obtain ⟨admitted, filter, hfilter⟩ := (inner_wellFormed_iff hmembers hinner).2 inner
    rw [ofText_method]
    exact ⟨_, .filtered (Scope.relationshipPath?_eq_some.2 ⟨navigated, rfl⟩) nonempty admitted
      hfilter⟩
  | @attr levels _ _ _ a field found nonempty inner =>
    have hinner : depth + 1 + levels = limits.maxDepth := by omega
    obtain ⟨p, hp⟩ := (ofOperators_ok_iff members hinner).2 fun m hm _ => inner m hm
    rw [ofText_field field]
    exact ⟨p, .attr nonempty (Catalog.field_iff.2 (.inl ⟨a, found, rfl⟩)) (by omega) hp⟩
  | @relationship levels _ _ _ r field other found nonempty inner =>
    have hinner : depth + 1 + levels = limits.maxDepth := by omega
    obtain ⟨admitted, p, hp⟩ := (inner_wellFormed_iff hmembers hinner).2 inner
    rw [ofText_field field]
    exact ⟨p, .relationship nonempty (Catalog.field_iff.2 (.inr ⟨other, r, found, rfl⟩))
      admitted hp⟩

theorem ofEntry_object_ok_iff :
    (∃ p, ofEntry c limits scope context depth (.ofText key) (.object members) = .ok p) ↔
      WellFormedEntry c limits levels scope key (.object members) := by
  simp only [ofEntry_object_eq_ok]
  constructor
  · rintro ⟨p, h⟩
    exact h.wellFormed hdepth hmembers
  · intro h
    exact h.enters hdepth hmembers

theorem ofItem_object_ok_iff {combinator : Combinator} {index : Nat} :
    (∃ p, ofItem c limits scope context depth combinator index (.object members) = .ok p) ↔
      WellFormedItem c limits levels scope (.object members) := by
  simp only [ofItem_object_eq_ok, exists_and_left]
  constructor
  · rintro ⟨admitted, hconverted⟩
    obtain ⟨levels, rfl, hinner⟩ := exists_inner_levels hdepth admitted.depth_le
    exact .mk ((inner_wellFormed_iff hmembers hinner).1 ⟨admitted, hconverted⟩)
  · rintro ⟨inner⟩
    exact (inner_wellFormed_iff hmembers (by omega)).2 inner

end

/-- A list of criteria belongs to a combinator, and each of its items is well formed. -/
theorem wellFormedEntry_items {levels : Nat} {scope : Scope} {key : String} {item : Json}
    {items : List Json} :
    WellFormedEntry c limits levels scope key (.array (item :: items)) ↔
      ∃ combinator : Combinator, Key.ofText key = .combinator combinator ∧
        WellFormedItem c limits levels scope item ∧
        ∀ item ∈ items, WellFormedItem c limits levels scope item := by
  constructor
  · intro h
    cases h with
    | combinator combinator nonempty each =>
      exact ⟨combinator, ofText_key combinator, List.forall_mem_cons.1 each⟩
  · rintro ⟨combinator, hkey, heach⟩
    rcases ofText_cases key with ⟨combinator', rfl, -⟩ | ⟨test, -, hk⟩ | ⟨-, hk⟩
    · exact .combinator combinator' (List.cons_ne_nil _ _) (List.forall_mem_cons.2 heach)
    · cases hk.symm.trans hkey
    · cases hk.symm.trans hkey

mutual

theorem ofMembers_ok_iff (members : List (String × Json)) {scope : Scope} {context : ContextPath}
    {depth levels : Nat} {p : Predicate} (hdepth : depth + levels = limits.maxDepth) :
    (∃ q, ofMembers c limits scope context depth p members = .ok q) ↔
      ∀ m ∈ members, WellFormedEntry c limits levels scope m.1 m.2 := by
  cases members with
  | nil =>
    constructor
    · intro _ m hm
      cases hm
    · intro _
      exact ⟨p, by rw [ofMembers]⟩
  | cons m members =>
    obtain ⟨key, value⟩ := m
    rw [List.forall_mem_cons]
    constructor
    · rintro ⟨q, h⟩
      obtain ⟨r, hr, hothers⟩ := ofMembers_cons_eq_ok.1 h
      have hmembers := (ofMembers_ok_iff members hdepth).1 ⟨q, hothers⟩
      exact ⟨(ofEntry_ok_iff value hdepth).1 ⟨r, hr⟩, hmembers⟩
    · rintro ⟨hfirst, hothers⟩
      have hentry : ∃ r, ofEntry c limits scope context depth (.ofText key) value = .ok r :=
        (ofEntry_ok_iff value hdepth).2 hfirst
      obtain ⟨r, hr⟩ := hentry
      obtain ⟨q, hq⟩ := (ofMembers_ok_iff members (p := p.and r) hdepth).2 hothers
      exact ⟨q, ofMembers_cons_eq_ok.2 ⟨r, hr, hq⟩⟩
termination_by structural members

theorem ofEntry_ok_iff (value : Json) {scope : Scope} {context : ContextPath}
    {depth levels : Nat} {key : String} (hdepth : depth + levels = limits.maxDepth) :
    (∃ p, ofEntry c limits scope context depth (.ofText key) value = .ok p) ↔
      WellFormedEntry c limits levels scope key value := by
  cases value with
  | array items =>
    cases items with
    | nil =>
      constructor
      · rintro ⟨p, h⟩
        rw [ofEntry.eq_def] at h
        cases h
      · intro h
        rcases h.value_cases with ⟨item, items, heq⟩ | ⟨members, heq⟩ <;> cases heq
    | cons item items =>
      simp only [wellFormedEntry_items, ofEntry_items_eq_ok]
      constructor
      · rintro ⟨p, combinator, q, hkey, hitem, hitems⟩
        exact ⟨combinator, hkey, (ofItem_ok_iff item hdepth).1 ⟨q, hitem⟩,
          (ofItems_ok_iff items hdepth).1 ⟨p, hitems⟩⟩
      · rintro ⟨combinator, hkey, hfirst, hothers⟩
        obtain ⟨q, hitem⟩ := (ofItem_ok_iff item hdepth).2 hfirst
        obtain ⟨p, hitems⟩ := (ofItems_ok_iff items hdepth).2 hothers
        exact ⟨p, combinator, q, hkey, hitem, hitems⟩
  | object members =>
    exact ofEntry_object_ok_iff hdepth fun hinner => ofMembers_ok_iff members hinner
  | _ =>
    constructor
    · rintro ⟨p, h⟩
      rw [ofEntry.eq_def] at h
      cases h
    · intro h
      rcases h.value_cases with ⟨item, items, heq⟩ | ⟨members, heq⟩ <;> cases heq
termination_by structural value

theorem ofItem_ok_iff (item : Json) {scope : Scope} {context : ContextPath}
    {depth levels index : Nat} {combinator : Combinator}
    (hdepth : depth + levels = limits.maxDepth) :
    (∃ p, ofItem c limits scope context depth combinator index item = .ok p) ↔
      WellFormedItem c limits levels scope item := by
  cases item with
  | object members =>
    exact ofItem_object_ok_iff hdepth fun hinner => ofMembers_ok_iff members hinner
  | _ =>
    constructor
    · rintro ⟨p, h⟩
      rw [ofItem.eq_def] at h
      cases h
    · intro h
      cases h
termination_by structural item

theorem ofItems_ok_iff (items : List Json) {scope : Scope} {context : ContextPath}
    {depth levels index : Nat} {combinator : Combinator} {p : Predicate}
    (hdepth : depth + levels = limits.maxDepth) :
    (∃ q, ofItems c limits scope context depth combinator index p items = .ok q) ↔
      ∀ item ∈ items, WellFormedItem c limits levels scope item := by
  cases items with
  | nil =>
    constructor
    · intro _ item hitem
      cases hitem
    · intro _
      exact ⟨p, by rw [ofItems]⟩
  | cons item items =>
    rw [List.forall_mem_cons]
    constructor
    · rintro ⟨q, h⟩
      obtain ⟨r, hr, hothers⟩ := ofItems_cons_eq_ok.1 h
      exact ⟨(ofItem_ok_iff item hdepth).1 ⟨r, hr⟩, (ofItems_ok_iff items hdepth).1 ⟨q, hothers⟩⟩
    · rintro ⟨hfirst, hothers⟩
      have hitem : ∃ r, ofItem c limits scope context depth combinator index item = .ok r :=
        (ofItem_ok_iff item hdepth).2 hfirst
      obtain ⟨r, hr⟩ := hitem
      have hitems : ∃ q, ofItems c limits scope context depth combinator (index + 1)
          (combinator.join p r) items = .ok q := (ofItems_ok_iff items hdepth).2 hothers
      obtain ⟨q, hq⟩ := hitems
      exact ⟨q, ofItems_cons_eq_ok.2 ⟨r, hr, hq⟩⟩
termination_by structural items

end

/-- Criteria convert exactly if their type is known and they are well formed, with as many objects
inside each other as the limits allow. -/
theorem convert_ok_iff_wellFormed (c : Catalog) (limits : Limits) (rootType : String)
    (criteria : List (String × Json)) :
    (∃ p, convert c limits rootType criteria = .ok p) ↔
      (∃ entity, c.entity? rootType = some entity) ∧
        WellFormed c limits limits.maxDepth (Scope.root rootType) criteria := by
  have hdepth : 0 + limits.maxDepth = limits.maxDepth := Nat.zero_add _
  rw [wellFormed_iff hdepth]
  constructor
  · rintro ⟨p, h⟩
    obtain ⟨hentity, hadmitted, hmembers⟩ := convert_eq_ok.1 h
    exact ⟨hentity, hadmitted, (ofMembers_ok_iff criteria hdepth).1 ⟨p, hmembers⟩⟩
  · rintro ⟨hentity, hadmitted, heach⟩
    obtain ⟨p, hmembers⟩ := (ofMembers_ok_iff criteria hdepth).2 heach
    exact ⟨p, convert_eq_ok.2 ⟨hentity, hadmitted, hmembers⟩⟩

end

/-! ## Bounds beyond 32 bits -/

/-- Next to an integer of more than 32 bits where a bound has to be, no substring is well formed. -/
theorem not_wellFormedOperator_of_not_fits {limits : Limits} {levels : Nat} {a : AttributeRef}
    {members : List (String × Json)} {key : String} {n : Int} (hkey : key ∈ boundKeys)
    (hbound : members.lookup key = some (.number (.integer n))) (hn : ¬Word.Fits 32 n) :
    ¬WellFormedOperator limits levels a "substring" (.object members) := by
  have hoperator : Operator.ofName? "substring" = some (.function .substring) := by rfl
  have hfits : ∀ w : Word 32, members.lookup key ≠ some (.number (.integer w.toInt)) := by
    intro w hw
    rw [hbound] at hw
    cases hw
    exact hn w.fits_toInt
  intro h
  cases h with
  | compare named => cases hoperator.symm.trans named
  | function named offered nonempty takes inner =>
    cases takes with
    | nothing hname =>
      have hsame := hoperator.symm.trans named
      injection hsame with hsame
      injection hsame with hsame
      exact hname hsame.symm
    | bounds start_eq stop_eq =>
      have hcases : key = "start" ∨ key = "end" := by simpa [boundKeys] using hkey
      rcases hcases with rfl | rfl
      · exact hfits _ start_eq
      · exact hfits _ stop_eq

example (limits : Limits) (levels : Nat) (a : AttributeRef) :
    ¬WellFormedOperator limits levels a "substring" (.object
      [("start", .ofInt 0), ("end", .ofInt 3000000000), ("eq", .string "a")]) :=
  not_wellFormedOperator_of_not_fits (by decide : "end" ∈ boundKeys) rfl (by decide)

end Criteria.Structural
