import Criteria.Proofs.Operators.Typing
import Criteria.Proofs.Predicate.Assembly
import Criteria.Proofs.Structural.Steps

/-! # Entries of structural criteria

The comparisons and existence tests that criteria write, in the order of the document, and what
each yields when it is converted on its own. Criteria are converted to what their entries yield, put
together in this order (`convert_assembled`).
-/

set_option autoImplicit false

namespace Criteria.Structural

open Predicate (AssembledFrom)

/-! ## Entries -/

/-- A comparison operator on an attribute with its parameter, or an existence test apart from its
filter. -/
inductive Entry where
  | comparison (a : AttributeRef) (comparator : Comparator) (parameter : Json)
  | existence (test : Existence) (relationship : RelationshipPath)

/-- What an entry yields. -/
def Entry.convert (limits : Limits) : Entry → Except Rejection Predicate
  | comparison a comparator parameter => a.compare limits comparator (argumentOf parameter)
  | existence test relationship => .ok (.existence test relationship none)

mutual

/-- The comparisons among the operators and functions on an attribute. Keys that belong to the
function around them are none, and neither are names that the attribute does not offer. -/
def operatorEntries (a : AttributeRef) (skipped : List String) :
    List (String × Json) → List Entry
  | [] => []
  | (name, parameter) :: members =>
    (if name ∈ skipped then []
      else match a.valueType.resolveOperator name with
        | .ok (.compare comparator, _) => [.comparison a comparator parameter]
        | .ok (.function function, _) => functionEntries a function parameter
        | .error _ => []) ++
      operatorEntries a skipped members
termination_by structural members => members

/-- The comparisons of what a function derives from an attribute. -/
def functionEntries (a : AttributeRef) (name : FunctionName) (parameter : Json) : List Entry :=
  match parameter with
  | .object members =>
    match functionOf name members (.object members) with
    | .ok (function, skipped) => operatorEntries (.derived function a) skipped members
    | .error _ => []
  | _ => []
termination_by structural parameter

end

mutual

/-- The entries of an object, one key after the other. -/
def memberEntries (c : Catalog) (scope : Scope) : List (String × Json) → List Entry
  | [] => []
  | (key, value) :: members =>
    keyEntries c scope (.ofText key) value ++ memberEntries c scope members
termination_by structural members => members

/-- The entries below a key: those of the items of a list one after the other, an existence test
followed by the entries of its filter, the comparisons on an attribute, or the entries behind a
relationship. A value that does not fit its key has none. -/
def keyEntries (c : Catalog) (scope : Scope) (key : Key) (value : Json) : List Entry :=
  match value with
  | .array items =>
    match key with
    | .combinator _ => itemEntries c scope items
    | _ => []
  | .object members =>
    match key with
    | .combinator _ => []
    | .existence test =>
      match scope.relationshipPath? with
      | some relationship => .existence test relationship :: memberEntries c scope.rebase members
      | none => []
    | .field name =>
      match c.field scope name with
      | .ok (.attr a) => operatorEntries a [] members
      | .ok (.relationship target) => memberEntries c target members
      | .error _ => []
  | _ => []
termination_by structural value

/-- The entries of the items of a list. -/
def itemEntries (c : Catalog) (scope : Scope) : List Json → List Entry
  | [] => []
  | item :: items => criteriaEntries c scope item ++ itemEntries c scope items
termination_by structural items => items

/-- The entries of criteria in a list. -/
def criteriaEntries (c : Catalog) (scope : Scope) (item : Json) : List Entry :=
  match item with
  | .object members => memberEntries c scope members
  | _ => []
termination_by structural item

end

/-! ## Yields of the entries -/

variable {c : Catalog} {limits : Limits}

mutual

theorem ofOperators_assembled : ∀ (members : List (String × Json)) {a : AttributeRef}
    {context : ContextPath} {depth : Nat} {skipped : List String} {es : List Entry}
    {p q : Predicate},
    ofOperators limits a context depth skipped p members = .ok q →
      AssembledFrom (Entry.convert limits) es p →
        AssembledFrom (Entry.convert limits) (es ++ operatorEntries a skipped members) q
  | [], a, context, depth, skipped, es, p, q, h, hp => by
    rw [ofOperators] at h
    cases h
    rw [operatorEntries, List.append_nil]
    exact hp
  | (name, parameter) :: members, a, context, depth, skipped, es, p, q, h, hp => by
    rw [operatorEntries, ← List.append_assoc]
    rcases ofOperators_cons_eq_ok.1 h with ⟨hskipped, h⟩ | ⟨hskipped, r, hr, h⟩
    · refine ofOperators_assembled members h ?_
      rw [if_pos hskipped, List.append_nil]
      exact hp
    · refine ofOperators_assembled members h (hp.and ?_)
      rw [if_neg hskipped]
      cases hr with
      | compare offered compared =>
        rw [offered]
        exact .single compared (.yield (AttributeRef.compare_isYield compared))
      | function offered applied =>
        rw [offered]
        exact ofFunction_assembled parameter applied

theorem ofFunction_assembled (parameter : Json) {a : AttributeRef} {context : ContextPath}
    {depth : Nat} {name : FunctionName} {p : Predicate}
    (h : ofFunction limits a context depth name parameter = .ok p) :
    AssembledFrom (Entry.convert limits) (functionEntries a name parameter) p := by
  cases parameter with
  | object members =>
    obtain ⟨-, function, skipped, derived, hfunction, hderived, -, h⟩ :=
      ofFunction_object_eq_ok.1 h
    obtain ⟨-, -, rfl⟩ := AttributeRef.apply_iff.1 hderived
    rw [functionEntries, hfunction]
    exact ofOperators_assembled members h (.nil .all)
  | _ =>
    obtain ⟨members, heq⟩ := exists_object_of_ofFunction h
    cases heq

end

theorem assembledFrom_join {combinator : Combinator} {es fs : List Entry} {p q : Predicate}
    (hp : AssembledFrom (Entry.convert limits) es p)
    (hq : AssembledFrom (Entry.convert limits) fs q) :
    AssembledFrom (Entry.convert limits) (es ++ fs) (combinator.join p q) := by
  cases combinator with
  | conjunction => exact hp.and hq
  | disjunction => exact hp.or hq

mutual

theorem ofMembers_assembled (members : List (String × Json)) {scope : Scope}
    {context : ContextPath} {depth : Nat} {es : List Entry} {p q : Predicate}
    (h : ofMembers c limits scope context depth p members = .ok q)
    (hp : AssembledFrom (Entry.convert limits) es p) :
    AssembledFrom (Entry.convert limits) (es ++ memberEntries c scope members) q := by
  cases members with
  | nil =>
    rw [ofMembers] at h
    cases h
    rw [memberEntries, List.append_nil]
    exact hp
  | cons m members =>
    obtain ⟨key, value⟩ := m
    obtain ⟨r, hr, h⟩ := ofMembers_cons_eq_ok.1 h
    rw [memberEntries, ← List.append_assoc]
    exact ofMembers_assembled members h (hp.and (ofEntry_assembled value hr))

theorem ofEntry_assembled (value : Json) {scope : Scope} {context : ContextPath} {depth : Nat}
    {key : Key} {p : Predicate} (h : ofEntry c limits scope context depth key value = .ok p) :
    AssembledFrom (Entry.convert limits) (keyEntries c scope key value) p := by
  cases value with
  | array items =>
    cases items with
    | nil =>
      rw [ofEntry.eq_def] at h
      cases h
    | cons item items =>
      obtain ⟨combinator, q, rfl, hq, h⟩ := ofEntry_items_eq_ok.1 h
      rw [keyEntries, itemEntries]
      exact ofItems_assembled items h (ofItem_assembled item hq)
  | object members =>
    cases ofEntry_object_eq_ok.1 h with
    | bare chain empty =>
      rw [keyEntries, chain, empty]
      exact .single rfl .bare
    | filtered chain nonempty admitted inner =>
      rw [keyEntries, chain]
      exact .filtered rfl (ofMembers_assembled members inner (.nil .all))
    | attr nonempty found depth_le inner =>
      rw [keyEntries, found]
      exact ofOperators_assembled members inner (.nil .all)
    | relationship nonempty found admitted inner =>
      rw [keyEntries, found]
      exact ofMembers_assembled members inner (.nil .all)
  | _ =>
    rw [ofEntry.eq_def] at h
    cases h

theorem ofItem_assembled (item : Json) {scope : Scope} {context : ContextPath} {depth : Nat}
    {combinator : Combinator} {index : Nat} {p : Predicate}
    (h : ofItem c limits scope context depth combinator index item = .ok p) :
    AssembledFrom (Entry.convert limits) (criteriaEntries c scope item) p := by
  cases item with
  | object members =>
    obtain ⟨-, h⟩ := ofItem_object_eq_ok.1 h
    rw [criteriaEntries]
    exact ofMembers_assembled members h (.nil .all)
  | _ =>
    rw [ofItem.eq_def] at h
    cases h

theorem ofItems_assembled (items : List Json) {scope : Scope} {context : ContextPath}
    {depth index : Nat} {combinator : Combinator} {es : List Entry} {p q : Predicate}
    (h : ofItems c limits scope context depth combinator index p items = .ok q)
    (hp : AssembledFrom (Entry.convert limits) es p) :
    AssembledFrom (Entry.convert limits) (es ++ itemEntries c scope items) q := by
  cases items with
  | nil =>
    rw [ofItems] at h
    cases h
    rw [itemEntries, List.append_nil]
    exact hp
  | cons item items =>
    obtain ⟨r, hr, h⟩ := ofItems_cons_eq_ok.1 h
    rw [itemEntries, ← List.append_assoc]
    exact ofItems_assembled items h (assembledFrom_join hp (ofItem_assembled item hr))

end

/-- Criteria are converted to what their entries yield, put together in the order of the
document. -/
theorem convert_assembled {rootType : String} {criteria : List (String × Json)} {p : Predicate}
    (h : convert c limits rootType criteria = .ok p) :
    AssembledFrom (Entry.convert limits) (memberEntries c (Scope.root rootType) criteria) p := by
  obtain ⟨-, -, h⟩ := convert_eq_ok.1 h
  exact ofMembers_assembled criteria h (.nil .all)

end Criteria.Structural
